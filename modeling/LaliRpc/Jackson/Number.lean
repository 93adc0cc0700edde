/-
# Jackson.Number — `strtol` and `strtod`

The two C library conversions `Reader::parseNumber` applies to the text it has
scanned. Each is `none` where the library sets `ERANGE`: `strtol` outside the
64-bit range, `strtod` on overflow and on a result that is both subnormal and
inexact. `strtod` rounds the exact decimal value to nearest, ties to even.
-/
import LaliRpc.Jackson.Value

namespace LaliRpc.Jackson

set_option autoImplicit false

/-- The ASCII code of a character constant. -/
def chr (c : Char) : UInt8 := UInt8.ofNat c.toNat

def dropDigits (s : Bytes) : Bytes := s.dropWhile isDigit

/-- `strtol(s, _, 10)` on a text without leading blanks. -/
def strtol (s : Bytes) : Option Int :=
  let value : Int :=
    if s.headD 0 = chr '-' then -(digitsValue (s.tail.takeWhile isDigit) : Int)
    else digitsValue (s.takeWhile isDigit)
  if -2 ^ 63 ≤ value ∧ value < 2 ^ 63 then some value else none

/-- Sign, digits and power of ten of a decimal floating-point text. -/
def scanDecimal (s : Bytes) : Bool × Nat × Int :=
  let negative := s.headD 0 = chr '-'
  let s := if negative then s.tail else s
  let whole := s.takeWhile isDigit
  let s := dropDigits s
  let fraction := if s.headD 0 = chr '.' then s.tail.takeWhile isDigit else []
  let s := if s.headD 0 = chr '.' then dropDigits s.tail else s
  let exponent : Int :=
    if s.headD 0 = chr 'e' ∨ s.headD 0 = chr 'E' then
      if s.tail.headD 0 = chr '-' then -(digitsValue (s.tail.tail.takeWhile isDigit) : Int)
      else if s.tail.headD 0 = chr '+' then digitsValue (s.tail.tail.takeWhile isDigit)
      else digitsValue (s.tail.takeWhile isDigit)
    else 0
  (negative, digitsValue (whole ++ fraction), exponent - fraction.length)

/-- `num / den` to the nearest integer, ties to even. -/
def roundHalfEven (num den : Nat) : Nat :=
  let q := num / den
  if den < 2 * (num % den) ∨ (den = 2 * (num % den) ∧ q % 2 = 1) then q + 1 else q

/-- `num / den` in units of `2 ^ u`, as a fraction. -/
def scaleBy (num den : Nat) (u : Int) : Nat × Nat :=
  (num * 2 ^ (-u).toNat, den * 2 ^ u.toNat)

/-- The binary64 value nearest to `m * 10 ^ e`. -/
def nearestDouble (negative : Bool) (m : Nat) (e : Int) : Option Double :=
  let sign : Nat := if negative then 2 ^ 63 else 0
  if m = 0 then some (UInt64.ofNat sign)
  else
    let num := m * 10 ^ e.toNat
    let den := 10 ^ (-e).toNat
    -- the exponent of the leading binary digit
    let guess : Int := (num.log2 : Int) - den.log2
    let lead := if (scaleBy num den guess).2 ≤ (scaleBy num den guess).1 then guess else guess - 1
    let unit := max (lead - 52) (-1074)
    let scaled := scaleBy num den unit
    let inexact := scaled.1 % scaled.2 ≠ 0
    let full := scaleBy num den (lead - 52)
    -- still below the normal range once rounded to 53 bits
    let tiny := lead < -1023 ∨ (lead = -1023 ∧ roundHalfEven full.1 full.2 < 2 ^ 53)
    let bits := (unit + 1074).toNat * 2 ^ 52 + roundHalfEven scaled.1 scaled.2
    if tiny ∧ inexact then none
    else if 2047 * 2 ^ 52 ≤ bits then none
    else some (UInt64.ofNat (bits + sign))

/-- `strtod(s, _)` on a decimal text without leading blanks. -/
def strtod (s : Bytes) : Option Double :=
  let scanned := scanDecimal s
  nearestDouble scanned.1 scanned.2.1 scanned.2.2

end LaliRpc.Jackson
