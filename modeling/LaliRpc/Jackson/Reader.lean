/-
# Jackson.Reader — the JSON parser

`Reader::parse` over a `StringReadStream`, feeding a `Document`. A stream is the
bytes not yet read; `peek` and `next` give NUL at its end. Besides a
`ParseError`, parsing can fail an assertion: `Document` adds each member as soon
as its value starts (a container) or ends (anything else), and `addMember`
asserts that the name is new. `taken` carries that into `parseValue`: the value
being parsed is for a name the object already has.

`parse` is total (`parseRoot_yields` supplies the fuel), and a value it returns
has no repeated member names (`parse_wellKeyed`).
-/
import LaliRpc.Jackson.Number
import LaliRpc.Theory.Fueled

namespace LaliRpc.Jackson

open LaliRpc.Theory LaliRpc.Theory.Fueled

set_option autoImplicit false

/-- `enum ParseError`, without `PARSE_OK`. -/
inductive ParseError where
  | rootNotSingular | badValue | expectValue | numberTooBig | badStringChar | badStringEscape
  | badUnicodeHex | badUnicodeSurrogate | missQuotationMark | missCommaOrSquareBracket | missKey
  | missColon | missCommaOrCurlyBracket
  deriving DecidableEq, Repr

/-- How a parse ends without a value. -/
inductive ParseFault where
  | error (e : ParseError)
  | assertion
  deriving DecidableEq, Repr

namespace Reader

def fail {α : Type} (e : ParseError) : Except ParseFault α := .error (.error e)

def peek (s : Bytes) : UInt8 := s.headD 0

def next (s : Bytes) : UInt8 × Bytes := (s.headD 0, s.tail)

@[simp] theorem peek_cons (c : UInt8) (s : Bytes) : peek (c :: s) = c := rfl

def isSpace (c : UInt8) : Bool := c = chr ' ' || c = chr '\t' || c = chr '\r' || c = chr '\n'

def parseWhitespace (s : Bytes) : Bytes := s.dropWhile isSpace

/-- `parseLiteral`: the rest of the literal must follow its first character. -/
def parseLiteral (literal : String) (value : Value) (s : Bytes) : Except ParseFault (Value × Bytes) :=
  if (ascii literal).isPrefixOf s then .ok (value, s.drop (ascii literal).length)
  else fail .badValue

/-- `NAN` and `INFINITY`. -/
def nan : Double := 0x7FF8000000000000

def infinity : Double := 0x7FF0000000000000

/-! ### Numbers -/

/-- The digits before the point: no leading zero. -/
def scanInteger (s : Bytes) : Except ParseFault Bytes :=
  if peek s = chr '0' then if isDigit (peek s.tail) then fail .badValue else .ok s.tail
  else if isDigit19 (peek s) then .ok (dropDigits s.tail)
  else fail .badValue

/-- At least one digit. -/
def scanDigits (s : Bytes) : Except ParseFault Bytes :=
  if isDigit (peek s) then .ok (dropDigits s.tail) else fail .badValue

/-- The point and what follows it, if there is one. -/
def scanFraction (s : Bytes) : Except ParseFault (Bool × Bytes) :=
  if peek s = chr '.' then (scanDigits s.tail).map (true, ·) else .ok (false, s)

def scanExponent (s : Bytes) : Except ParseFault (Bool × Bytes) :=
  if peek s = chr 'e' ∨ peek s = chr 'E' then
    let s := s.tail
    let s := if peek s = chr '+' ∨ peek s = chr '-' then s.tail else s
    (scanDigits s).map (true, ·)
  else .ok (false, s)

/-- The width suffix `i32` or `i64`, after its `i`. -/
def scanWidth (s : Bytes) : Except ParseFault (ValueType × Bytes) :=
  if peek s = chr '3' then
    if peek s.tail = chr '2' then .ok (.int32, s.tail.tail) else fail .badValue
  else if peek s = chr '6' then
    if peek s.tail = chr '4' then .ok (.int64, s.tail.tail) else fail .badValue
  else fail .badValue

/-- The type the text of the number asks for (`null` for none), and where it ends. -/
def scanNumber (s : Bytes) : Except ParseFault (ValueType × Bytes) := do
  let s ← scanInteger (if peek s = chr '-' then s.tail else s)
  let (fraction, s) ← scanFraction s
  let (exponent, s) ← scanExponent s
  let floating := fraction || exponent
  if peek s = chr 'i' then
    if floating then fail .badValue else scanWidth s.tail
  else .ok (if floating then .double else .null, s)

/-- The conversion of the text of a number of the expected type. -/
def convertNumber (expect : ValueType) (text : Bytes) : Except ParseFault Value :=
  match expect with
  | .double =>
      match strtod text with
      | some d => .ok (.double d)
      | none => fail .numberTooBig
  | _ =>
      match strtol text with
      | none => fail .numberTooBig
      | some i =>
          if expect = .int64 then .ok (.int64 (Int64.ofInt i))
          else if -2 ^ 31 ≤ i ∧ i < 2 ^ 31 then .ok (.int32 (Int32.ofInt i))
          else if expect = .int32 then fail .numberTooBig
          else .ok (.int64 (Int64.ofInt i))

def parseNumber (s : Bytes) : Except ParseFault (Value × Bytes) :=
  if peek s = chr 'N' then parseLiteral "NaN" (.double nan) s
  else if peek s = chr 'I' then parseLiteral "Infinity" (.double infinity) s
  else do
    let (expect, rest) ← scanNumber s
    .ok (← convertNumber expect s, rest)

/-! ### Strings -/

def hexDigit (c : UInt8) : Option Nat :=
  if chr '0' ≤ c ∧ c ≤ chr '9' then some (c.toNat - 48)
  else if chr 'a' ≤ c ∧ c ≤ chr 'f' then some (c.toNat - 97 + 10)
  else if chr 'A' ≤ c ∧ c ≤ chr 'F' then some (c.toNat - 65 + 10)
  else none

/-- `i` more hexadecimal digits after the value `u`. -/
def parseHex : Nat → Nat → Bytes → Except ParseFault (Nat × Bytes)
  | 0, u, s => .ok (u, s)
  | i + 1, u, s =>
      match hexDigit (next s).1 with
      | some d => parseHex i (u * 16 + d) s.tail
      | none => fail .badUnicodeHex

def parseHex4 (s : Bytes) : Except ParseFault (Nat × Bytes) := parseHex 4 0 s

/-- `encodeUtf8`, for the code points `parseEscape` can produce (at most `0x10FFFF`). -/
def encodeUtf8 (u : Nat) : Bytes :=
  if u ≤ 0x7F then [UInt8.ofNat u]
  else if u ≤ 0x7FF then [UInt8.ofNat (0xC0 + u / 64), UInt8.ofNat (0x80 + u % 64)]
  else if u ≤ 0xFFFF then
    [UInt8.ofNat (0xE0 + u / 4096), UInt8.ofNat (0x80 + u / 64 % 64), UInt8.ofNat (0x80 + u % 64)]
  else
    [UInt8.ofNat (0xF0 + u / 262144), UInt8.ofNat (0x80 + u / 4096 % 64),
      UInt8.ofNat (0x80 + u / 64 % 64), UInt8.ofNat (0x80 + u % 64)]

/-- `\uXXXX`, after its `u`; a high surrogate needs a low one behind it. -/
def parseUnicode (s : Bytes) : Except ParseFault (Bytes × Bytes) := do
  let (u, s) ← parseHex4 s
  if 0xD800 ≤ u ∧ u ≤ 0xDBFF then
    if (next s).1 ≠ chr '\\' then fail .badUnicodeSurrogate
    else if (next s.tail).1 ≠ chr 'u' then fail .badUnicodeSurrogate
    else
      let (u2, s) ← parseHex4 s.tail.tail
      if 0xDC00 ≤ u2 ∧ u2 ≤ 0xDFFF then
        .ok (encodeUtf8 (0x10000 + (u - 0xD800) * 0x400 + (u2 - 0xDC00)), s)
      else fail .badUnicodeSurrogate
  else .ok (encodeUtf8 u, s)

/-- The escapes of one character, and the character each stands for. -/
def simpleEscapes : List (UInt8 × UInt8) :=
  [(chr '"', chr '"'), (chr '\\', chr '\\'), (chr '/', chr '/'), (chr 'b', 8), (chr 'f', 12),
    (chr 'n', 10), (chr 'r', 13), (chr 't', 9)]

/-- The characters a string escape stands for, after its backslash. -/
def parseEscape (s : Bytes) : Except ParseFault (Bytes × Bytes) :=
  match simpleEscapes.lookup (next s).1 with
  | some c => .ok ([c], s.tail)
  | none => if (next s).1 = chr 'u' then parseUnicode s.tail else fail .badStringEscape

/-- The loop of `parseString`, after the opening quotation mark. -/
def parseStringBody : Nat → Bytes → Bytes → Fueled ParseFault (Bytes × Bytes)
  | 0, _, _ => none
  | _ + 1, _, [] => fault (.error .missQuotationMark)
  | n + 1, buffer, c :: s =>
      if c = chr '"' then ok (buffer, s)
      else if 1 ≤ c ∧ c ≤ 31 then fault (.error .badStringChar)
      else if c = chr '\\' then
        andThen (some (parseEscape s)) fun (chars, s) => parseStringBody n (buffer ++ chars) s
      else parseStringBody n (buffer ++ [c]) s

def parseString (s : Bytes) : Fueled ParseFault (Bytes × Bytes) :=
  parseStringBody (s.length + 1) [] s.tail

/-! ### Values -/

/-- A complete scalar is handed to the document, which asserts a new name. -/
def place (taken : Bool) (x : Fueled ParseFault (Value × Bytes)) :
    Fueled ParseFault (Value × Bytes) :=
  andThen x fun r => if taken then fault .assertion else ok r

mutual

def parseValue : Nat → Bool → Bytes → Fueled ParseFault (Value × Bytes)
  | 0, _, _ => none
  | n + 1, taken, s =>
      if s = [] then fault (.error .expectValue)
      else if peek s = chr 'n' then place taken (some (parseLiteral "null" .null s))
      else if peek s = chr 't' then place taken (some (parseLiteral "true" (.bool true) s))
      else if peek s = chr 'f' then place taken (some (parseLiteral "false" (.bool false) s))
      else if peek s = chr '"' then
        place taken (andThen (parseString s) fun (chars, s) => ok (.string chars, s))
      else if peek s = chr '[' then
        if taken then fault .assertion
        else
          let s := parseWhitespace s.tail
          if peek s = chr ']' then ok (.array [], s.tail) else parseArray n [] s
      else if peek s = chr '{' then
        if taken then fault .assertion
        else
          let s := parseWhitespace s.tail
          if peek s = chr '}' then ok (.object [], s.tail) else parseObject n [] s
      else place taken (some (parseNumber s))

/-- The loop of `parseArray`, with the values it has added. -/
def parseArray : Nat → List Value → Bytes → Fueled ParseFault (Value × Bytes)
  | 0, _, _ => none
  | n + 1, values, s =>
      andThen (parseValue n false s) fun (value, s) =>
        let s := parseWhitespace s
        if (next s).1 = chr ',' then parseArray n (values ++ [value]) (parseWhitespace s.tail)
        else if (next s).1 = chr ']' then ok (.array (values ++ [value]), s.tail)
        else fault (.error .missCommaOrSquareBracket)

/-- The loop of `parseObject`, with the members it has added. -/
def parseObject : Nat → List (Bytes × Value) → Bytes → Fueled ParseFault (Value × Bytes)
  | 0, _, _ => none
  | n + 1, members, s =>
      if peek s ≠ chr '"' then fault (.error .missKey)
      else
        andThen (parseString s) fun (key, s) =>
          let s := parseWhitespace s
          if (next s).1 ≠ chr ':' then fault (.error .missColon)
          else
            andThen (parseValue n (members.lookup key).isSome (parseWhitespace s.tail))
              fun (value, s) =>
                let s := parseWhitespace s
                if (next s).1 = chr ',' then
                  parseObject n (members ++ [(key, value)]) (parseWhitespace s.tail)
                else if (next s).1 = chr '}' then
                  ok (.object (members ++ [(key, value)]), s.tail)
                else fault (.error .missCommaOrCurlyBracket)

end

def parseRoot (s : Bytes) : Fueled ParseFault Value :=
  andThen (parseValue (2 * s.length + 1) false (parseWhitespace s)) fun (value, s) =>
    if parseWhitespace s = [] then ok value else fault (.error .rootNotSingular)

/-! ## The fuel suffices, and names are not repeated -/

theorem length_parseWhitespace_le (s : Bytes) : (parseWhitespace s).length ≤ s.length :=
  (List.dropWhile_suffix _).length_le

theorem length_dropDigits_le (s : Bytes) : (dropDigits s).length ≤ s.length :=
  (List.dropWhile_suffix _).length_le

/-- A character other than NUL was read from a stream that has one. -/
theorem length_tail_lt {s : Bytes} {c : UInt8} (h : peek s = c) (nonzero : c ≠ 0) :
    s.tail.length < s.length := by
  cases s with
  | nil => exact absurd h.symm nonzero
  | cons d s => simp

theorem length_tail_le (s : Bytes) : s.tail.length ≤ s.length := by simp

theorem scanInteger_lt {s r : Bytes} (h : scanInteger s = .ok r) : r.length < s.length := by
  unfold scanInteger at h
  split at h
  · rename_i zero
    split at h
    · cases h
    · cases h
      exact length_tail_lt zero (by decide)
  · split at h
    · rename_i digit
      cases h
      refine lt_of_le_of_lt (length_dropDigits_le _) (length_tail_lt rfl fun h0 => ?_)
      rw [h0] at digit
      cases digit
    · cases h

theorem scanDigits_le {s r : Bytes} (h : scanDigits s = .ok r) : r.length ≤ s.length := by
  unfold scanDigits at h
  split at h
  · cases h
    exact (length_dropDigits_le _).trans (length_tail_le s)
  · cases h

theorem scanFraction_le {s r : Bytes} {b : Bool} (h : scanFraction s = .ok (b, r)) :
    r.length ≤ s.length := by
  unfold scanFraction at h
  split at h
  · obtain ⟨a, scanned, same⟩ := except_map_eq_ok.mp h
    cases same
    exact (scanDigits_le scanned).trans (length_tail_le s)
  · cases h
    exact Nat.le_refl _

theorem scanExponent_le {s r : Bytes} {b : Bool} (h : scanExponent s = .ok (b, r)) :
    r.length ≤ s.length := by
  unfold scanExponent at h
  split at h
  · obtain ⟨a, scanned, same⟩ := except_map_eq_ok.mp h
    cases same
    refine (scanDigits_le scanned).trans ?_
    split
    · exact (length_tail_le _).trans (length_tail_le s)
    · exact length_tail_le s
  · cases h
    exact Nat.le_refl _

theorem scanWidth_le {s r : Bytes} {t : ValueType} (h : scanWidth s = .ok (t, r)) :
    r.length ≤ s.length := by
  have two : s.tail.tail.length ≤ s.length := (length_tail_le _).trans (length_tail_le s)
  unfold scanWidth at h
  split at h
  · split at h <;> cases h
    exact two
  · split at h
    · split at h <;> cases h
      exact two
    · cases h

theorem scanNumber_lt {s r : Bytes} {t : ValueType} (h : scanNumber s = .ok (t, r)) :
    r.length < s.length := by
  obtain ⟨afterInt, int, h⟩ := except_bind_eq_ok.mp h
  obtain ⟨⟨fraction, afterFrac⟩, frac, h⟩ := except_bind_eq_ok.mp h
  obtain ⟨⟨exponent, afterExp⟩, exp, h⟩ := except_bind_eq_ok.mp h
  have lt : afterInt.length < s.length := by
    refine lt_of_lt_of_le (scanInteger_lt int) ?_
    split
    · exact length_tail_le s
    · exact Nat.le_refl _
  have le : afterExp.length ≤ afterInt.length := (scanExponent_le exp).trans (scanFraction_le frac)
  dsimp only at h
  split at h
  · split at h
    · cases h
    · have := scanWidth_le h
      have := length_tail_le afterExp
      omega
  · cases h
    omega

theorem parseLiteral_lt {literal : String} {value v : Value} {s r : Bytes}
    (long : 0 < (ascii literal).length) (h : parseLiteral literal value s = .ok (v, r)) :
    r.length < s.length := by
  unfold parseLiteral at h
  split at h
  · rename_i isPrefix
    have := (List.isPrefixOf_iff_prefix.mp isPrefix).length_le
    cases h
    simp only [List.length_drop]
    omega
  · cases h

theorem parseNumber_lt {s r : Bytes} {v : Value} (h : parseNumber s = .ok (v, r)) :
    r.length < s.length := by
  unfold parseNumber at h
  split at h
  · exact parseLiteral_lt (by decide) h
  · split at h
    · exact parseLiteral_lt (by decide) h
    · obtain ⟨⟨t, rest⟩, scanned, h⟩ := except_bind_eq_ok.mp h
      obtain ⟨v', -, h⟩ := except_bind_eq_ok.mp h
      cases h
      exact scanNumber_lt scanned

theorem parseHex_le {i u v : Nat} {s r : Bytes} (h : parseHex i u s = .ok (v, r)) :
    r.length ≤ s.length := by
  induction i generalizing u s with
  | zero =>
      cases h
      exact Nat.le_refl _
  | succ i ih =>
      rw [parseHex] at h
      split at h
      · exact (ih h).trans (length_tail_le s)
      · cases h

theorem parseUnicode_le {s r chars : Bytes} (h : parseUnicode s = .ok (chars, r)) :
    r.length ≤ s.length := by
  obtain ⟨⟨u, s'⟩, hex, h⟩ := except_bind_eq_ok.mp h
  have le := parseHex_le hex
  dsimp only at h
  split at h
  · split at h
    · cases h
    · split at h
      · cases h
      · obtain ⟨⟨u2, s''⟩, hex', h⟩ := except_bind_eq_ok.mp h
        have le' := parseHex_le hex'
        have := length_tail_le s'
        have := length_tail_le s'.tail
        dsimp only at h
        split at h
        · simp only [Except.ok.injEq, Prod.mk.injEq] at h
          rw [← h.2]
          omega
        · cases h
  · simp only [Except.ok.injEq, Prod.mk.injEq] at h
    rw [← h.2]
    exact le

theorem parseEscape_le {s r chars : Bytes} (h : parseEscape s = .ok (chars, r)) :
    r.length ≤ s.length := by
  have le := length_tail_le s
  unfold parseEscape at h
  split at h
  · cases h
    exact le
  · split at h
    · exact (parseUnicode_le h).trans le
    · cases h

theorem parseStringBody_yields (n : Nat) (buffer s : Bytes) (enough : s.length < n) :
    Yields (parseStringBody n buffer s) fun r => r.2.length < s.length := by
  induction n generalizing buffer s with
  | zero => omega
  | succ n ih =>
      cases s with
      | nil => exact yields_fault _ _
      | cons c s =>
          simp only [List.length_cons] at enough ⊢
          rw [parseStringBody]
          split
          · exact yields_ok (by simp)
          · split
            · exact yields_fault _ _
            · split
              · have escape : Yields (some (parseEscape s)) fun r => r.2.length ≤ s.length :=
                  yields_some fun r hr => parseEscape_le hr
                refine escape.andThen fun r hr => ?_
                exact (ih _ r.2 (by omega)).mono fun r' hr' => by omega
              · exact (ih _ s (by omega)).mono fun r' hr' => by omega

theorem parseString_yields (s : Bytes) :
    Yields (parseString s) fun r => r.2.length < s.length := by
  have le := length_tail_le s
  exact (parseStringBody_yields _ [] s.tail (by omega)).mono fun r hr => by omega

/-- What a value parsed from `s` satisfies: it took at least one byte, repeats no
member names, and went to a free place. -/
def Parsed (taken : Bool) (s : Bytes) (r : Value × Bytes) : Prop :=
  r.2.length < s.length ∧ r.1.WellKeyed ∧ taken = false

/-- A scalar value has no members. -/
def scalar (v : Value) : Prop := v.getType ≠ .array ∧ v.getType ≠ .object

theorem wellKeyed_scalar {v : Value} (h : scalar v) : v.WellKeyed := by
  cases v with
  | array values => exact absurd rfl h.1
  | object members => exact absurd rfl h.2
  | null => exact .null
  | bool b => exact .bool b
  | int32 i => exact .int32 i
  | int64 i => exact .int64 i
  | double d => exact .double d
  | string s => exact .string s

theorem scalar_convertNumber {t : ValueType} {s : Bytes} {v : Value}
    (h : convertNumber t s = .ok v) : scalar v := by
  have typed : v.getType = .double ∨ v.getType = .int64 ∨ v.getType = .int32 := by
    unfold convertNumber at h
    split at h
    · split at h <;> cases h
      exact .inl rfl
    · split at h
      · cases h
      · split at h
        · cases h
          exact .inr (.inl rfl)
        · split at h
          · cases h
            exact .inr (.inr rfl)
          · split at h <;> cases h
            exact .inr (.inl rfl)
  rcases typed with h | h | h <;> simp [scalar, h]

theorem parseLiteral_value {literal : String} {value v : Value} {s r : Bytes}
    (h : parseLiteral literal value s = .ok (v, r)) : v = value := by
  unfold parseLiteral at h
  split at h
  · cases h
    rfl
  · cases h

theorem scalar_parseNumber {s r : Bytes} {v : Value} (h : parseNumber s = .ok (v, r)) :
    scalar v := by
  unfold parseNumber at h
  split at h
  · rw [parseLiteral_value h]
    simp [scalar, Value.getType]
  · split at h
    · rw [parseLiteral_value h]
      simp [scalar, Value.getType]
    · obtain ⟨⟨t, rest⟩, -, h⟩ := except_bind_eq_ok.mp h
      obtain ⟨v', converted, h⟩ := except_bind_eq_ok.mp h
      cases h
      exact scalar_convertNumber converted

theorem place_yields {taken : Bool} {s : Bytes} {x : Fueled ParseFault (Value × Bytes)}
    (h : Yields x fun r => r.2.length < s.length ∧ scalar r.1) :
    Yields (place taken x) (Parsed taken s) := by
  refine h.andThen fun r hr => ?_
  cases taken with
  | true => exact yields_fault _ _
  | false => exact yields_ok ⟨hr.1, wellKeyed_scalar hr.2, rfl⟩

theorem place_literal_yields {taken : Bool} {s : Bytes} {literal : String} {value : Value}
    (long : 0 < (ascii literal).length) (isScalar : scalar value) :
    Yields (place taken (some (parseLiteral literal value s))) (Parsed taken s) := by
  refine place_yields (yields_some fun r hr => ⟨parseLiteral_lt long hr, ?_⟩)
  rw [parseLiteral_value hr]
  exact isScalar

/-- The members read so far may stand in one object. -/
structure MembersOk (members : List (Bytes × Value)) : Prop where
  distinct : (members.map Prod.fst).Nodup
  all : ∀ m ∈ members, m.2.WellKeyed

theorem MembersOk.snoc {members : List (Bytes × Value)} (h : MembersOk members) {key : Bytes}
    {value : Value} (free : (members.lookup key).isSome = false) (keyed : value.WellKeyed) :
    MembersOk (members ++ [(key, value)]) := by
  have new : key ∉ members.map Prod.fst := lookup_eq_none_iff.mp (by simpa using free)
  refine ⟨?_, fun m hm => ?_⟩
  · rw [List.map_append, List.nodup_append]
    refine ⟨h.distinct, by simp, ?_⟩
    rintro a ha b hb rfl
    obtain rfl : a = key := by simpa using hb
    exact new ha
  · rcases List.mem_append.mp hm with old | last
    · exact h.all m old
    · obtain rfl : m = (key, value) := by simpa using last
      exact keyed

/-! ### One step of each parser -/

/-- With fuel for two steps a character, `parseValue` yields. -/
def ValuesYield (n : Nat) : Prop :=
  ∀ taken s, 2 * s.length < n → Yields (parseValue n taken s) (Parsed taken s)

def ArraysYield (n : Nat) : Prop :=
  ∀ values s, (∀ v ∈ values, v.WellKeyed) → 2 * s.length + 2 ≤ n →
    Yields (parseArray n values s) (Parsed false s)

def ObjectsYield (n : Nat) : Prop :=
  ∀ members s, MembersOk members → 2 * s.length + 2 ≤ n →
    Yields (parseObject n members s) (Parsed false s)

/-- An opening bracket, and the value that follows it when the name is free. -/
theorem opening_yields {taken : Bool} {s : Bytes} {closed : Prop} [Decidable closed] {empty : Value}
    {rest : Fueled ParseFault (Value × Bytes)}
    (inside : (parseWhitespace s.tail).length < s.length) (keyed : empty.WellKeyed)
    (later : Yields rest (Parsed false (parseWhitespace s.tail))) :
    Yields (if taken = true then fault .assertion
      else if closed then ok (empty, (parseWhitespace s.tail).tail) else rest) (Parsed taken s) := by
  cases taken with
  | true => exact yields_fault _ _
  | false =>
      rw [if_neg Bool.false_ne_true]
      split
      · refine yields_ok ⟨?_, keyed, rfl⟩
        have := length_tail_le (parseWhitespace s.tail)
        simp only
        omega
      · refine later.mono fun r hr => ?_
        exact ⟨hr.1.trans inside, hr.2⟩

theorem parseValue_step {n : Nat} (arrays : ArraysYield n) (objects : ObjectsYield n) :
    ValuesYield (n + 1) := by
  intro taken s enough
  rw [parseValue]
  split
  · exact yields_fault _ _
  · have inside : ∀ c, peek s = c → c ≠ 0 → (parseWhitespace s.tail).length < s.length :=
      fun c hc nz => lt_of_le_of_lt (length_parseWhitespace_le _) (length_tail_lt hc nz)
    split
    · exact place_literal_yields (by decide) (by simp [scalar, Value.getType])
    split
    · exact place_literal_yields (by decide) (by simp [scalar, Value.getType])
    split
    · exact place_literal_yields (by decide) (by simp [scalar, Value.getType])
    split
    · refine place_yields ((parseString_yields s).andThen fun r hr => ?_)
      exact yields_ok ⟨hr, by simp [scalar, Value.getType]⟩
    split
    · rename_i opening
      have lt := inside _ opening (by decide)
      exact opening_yields lt (.array (by simp)) (arrays [] _ (by simp) (by omega))
    split
    · rename_i opening
      have lt := inside _ opening (by decide)
      exact opening_yields lt (.object (by simp) (by simp))
        (objects [] _ ⟨by simp, by simp⟩ (by omega))
    · exact place_yields (yields_some fun r hr => ⟨parseNumber_lt hr, scalar_parseNumber hr⟩)

theorem parseArray_step {n : Nat} (parsed : ValuesYield n) (arrays : ArraysYield n) :
    ArraysYield (n + 1) := by
  intro values s keyed enough
  rw [parseArray]
  refine (parsed false s (by omega)).andThen fun r hr => ?_
  have le := length_parseWhitespace_le r.2
  have le' := length_tail_le (parseWhitespace r.2)
  have lt := hr.1
  have keyed' : ∀ v ∈ values ++ [r.1], v.WellKeyed := by
    intro v hv
    rcases List.mem_append.mp hv with old | last
    · exact keyed v old
    · obtain rfl : v = r.1 := by simpa using last
      exact hr.2.1
  dsimp only
  split
  · have le'' := length_parseWhitespace_le (parseWhitespace r.2).tail
    refine (arrays _ _ keyed' (by omega)).mono fun r' hr' => ⟨?_, hr'.2⟩
    have := hr'.1
    omega
  · split
    · refine yields_ok ⟨?_, .array keyed', rfl⟩
      simp only
      omega
    · exact yields_fault _ _

theorem parseObject_step {n : Nat} (parsed : ValuesYield n) (objects : ObjectsYield n) :
    ObjectsYield (n + 1) := by
  intro members s membersOk enough
  rw [parseObject]
  split
  · exact yields_fault _ _
  · refine (parseString_yields s).andThen fun r hr => ?_
    have le := length_parseWhitespace_le r.2
    have le' := length_tail_le (parseWhitespace r.2)
    have le'' := length_parseWhitespace_le (parseWhitespace r.2).tail
    dsimp only
    split
    · exact yields_fault _ _
    · refine (parsed _ _ (by omega)).andThen fun r' hr' => ?_
      have lt := hr'.1
      have ws := length_parseWhitespace_le r'.2
      have ws' := length_tail_le (parseWhitespace r'.2)
      have membersOk' := membersOk.snoc hr'.2.2 hr'.2.1
      split
      · have ws'' := length_parseWhitespace_le (parseWhitespace r'.2).tail
        refine (objects _ _ membersOk' (by omega)).mono fun r'' hr'' => ⟨?_, hr''.2⟩
        have := hr''.1
        omega
      · split
        · refine yields_ok ⟨?_, .object membersOk'.distinct membersOk'.all, rfl⟩
          simp only
          omega
        · exact yields_fault _ _

/-- One induction on the fuel for the three mutually recursive functions. -/
theorem parse_yields (n : Nat) : ValuesYield n ∧ ArraysYield n ∧ ObjectsYield n := by
  induction n with
  | zero =>
      refine ⟨?_, ?_, ?_⟩
      · intro taken s enough
        omega
      · intro values s keyed enough
        omega
      · intro members s membersOk enough
        omega
  | succ n ih =>
      obtain ⟨parsed, arrays, objects⟩ := ih
      exact ⟨parseValue_step arrays objects, parseArray_step parsed arrays,
        parseObject_step parsed objects⟩

theorem parseRoot_yields (s : Bytes) : Yields (parseRoot s) Value.WellKeyed := by
  have le := length_parseWhitespace_le s
  refine ((parse_yields _).1 false (parseWhitespace s) (by omega)).andThen fun r hr => ?_
  obtain ⟨value, rest⟩ := r
  dsimp only
  split
  · exact yields_ok hr.2.1
  · exact yields_fault _ _

end Reader

/-- `Document::parse`, then the document as a value. -/
def parse (s : Bytes) : Except ParseFault Value :=
  (Reader.parseRoot s).get (Reader.parseRoot_yields s).isSome

theorem parse_of_root {s : Bytes} {r : Except ParseFault Value}
    (h : Reader.parseRoot s = some r) : parse s = r := by
  simp [parse, h]

/-- **No value the parser returns has an object with a repeated member name.** -/
theorem parse_wellKeyed {s : Bytes} {v : Value} (h : parse s = .ok v) : v.WellKeyed := by
  apply (Reader.parseRoot_yields s).value
  rw [← h, parse, Option.some_get]

/-! ## Reading back a length

The header of a frame is the decimal text of a positive length and CR LF. -/

namespace Reader

theorem ne_of_isDigit {c x : UInt8} (digit : isDigit c = true) (other : isDigit x = false) :
    c ≠ x := by
  rintro rfl
  rw [digit] at other
  cases other

theorem isDigit_of_isDigit19 {c : UInt8} (h : isDigit19 c = true) : isDigit c = true := by
  rw [isDigit19_iff] at h
  rw [isDigit_iff]
  omega

theorem takeWhile_digits {ds rest : Bytes} (digits : ∀ c ∈ ds, isDigit c = true)
    (stops : isDigit (peek rest) = false) : (ds ++ rest).takeWhile isDigit = ds := by
  rw [List.takeWhile_append_of_pos digits]
  cases rest with
  | nil => simp
  | cons c rest =>
      have : isDigit c = false := stops
      simp [this]

theorem dropDigits_digits {ds rest : Bytes} (digits : ∀ c ∈ ds, isDigit c = true)
    (stops : isDigit (peek rest) = false) : dropDigits (ds ++ rest) = rest := by
  rw [dropDigits, List.dropWhile_append_of_pos digits]
  cases rest with
  | nil => rfl
  | cons c rest =>
      have : isDigit c = false := stops
      simp [this]

/-- A run of digits without a leading zero, followed by CR, scans as an integer
without a width. -/
theorem scanNumber_digits {d : UInt8} {ds rest : Bytes} (lead : isDigit19 d = true)
    (digits : ∀ c ∈ ds, isDigit c = true) :
    scanNumber (d :: (ds ++ 13 :: rest)) = .ok (.null, 13 :: rest) := by
  have digit := isDigit_of_isDigit19 lead
  have noSign : d ≠ chr '-' := ne_of_isDigit digit (by decide)
  have noZero : d ≠ chr '0' := by
    rintro rfl
    cases lead
  have int : scanInteger (d :: (ds ++ 13 :: rest)) = .ok (13 :: rest) := by
    rw [scanInteger, peek_cons, if_neg noZero, if_pos lead, List.tail_cons,
      dropDigits_digits digits rfl]
  have frac : scanFraction (13 :: rest) = .ok (false, 13 :: rest) := by
    rw [scanFraction, peek_cons, if_neg (by decide)]
  have exp : scanExponent (13 :: rest) = .ok (false, 13 :: rest) := by
    rw [scanExponent, peek_cons, if_neg (by decide)]
  have noWidth : (13 : UInt8) ≠ chr 'i' := by decide
  simp [scanNumber, noSign, int, frac, exp, noWidth]

/-- Such a run is converted without an expected width. -/
theorem parseNumber_digits {d : UInt8} {ds rest : Bytes} (lead : isDigit19 d = true)
    (digits : ∀ c ∈ ds, isDigit c = true) :
    parseNumber (d :: (ds ++ 13 :: rest)) =
      (convertNumber .null (d :: (ds ++ 13 :: rest))).map (·, 13 :: rest) := by
  have other : ∀ x, isDigit x = false → d ≠ x := fun x hx =>
    ne_of_isDigit (isDigit_of_isDigit19 lead) hx
  rw [parseNumber, peek_cons, if_neg (other _ (by decide)), if_neg (other _ (by decide)),
    scanNumber_digits lead digits]
  show (convertNumber .null (d :: (ds ++ 13 :: rest)) >>= _) = _
  cases convertNumber .null (d :: (ds ++ 13 :: rest)) <;> rfl

theorem strtol_number {d : UInt8} {ds rest : Bytes} (lead : isDigit19 d = true)
    (digits : ∀ c ∈ ds, isDigit c = true) :
    strtol (d :: (ds ++ 13 :: rest)) =
      if digitsValue (d :: ds) < 2 ^ 63 then some (digitsValue (d :: ds) : Int) else none := by
  have digit := isDigit_of_isDigit19 lead
  have all : ∀ c ∈ d :: ds, isDigit c = true := by
    intro c hc
    rcases List.mem_cons.mp hc with rfl | later
    · exact digit
    · exact digits c later
  have sign : (d :: (ds ++ 13 :: rest)).headD 0 ≠ chr '-' := ne_of_isDigit digit (by decide)
  have value : (d :: (ds ++ 13 :: rest)).takeWhile isDigit = d :: ds := by
    rw [← List.cons_append]
    exact takeWhile_digits all rfl
  simp only [strtol, if_neg sign, value]
  refine if_congr ⟨fun range => ?_, fun small => ⟨?_, ?_⟩⟩ rfl rfl <;> omega

/-- A run of digits is a 32-bit integer when it fits. -/
theorem convertNumber_digits {d : UInt8} {ds rest : Bytes} (lead : isDigit19 d = true)
    (digits : ∀ c ∈ ds, isDigit c = true) (small : digitsValue (d :: ds) < 2 ^ 31) :
    convertNumber .null (d :: (ds ++ 13 :: rest)) =
      .ok (.int32 (Int32.ofInt (digitsValue (d :: ds)))) := by
  simp only [convertNumber, strtol_number lead digits, reduceCtorEq, if_false,
    if_pos (show digitsValue (d :: ds) < 2 ^ 63 by omega)]
  exact if_pos ⟨by omega, by omega⟩

/-- Otherwise it is a 64-bit one, or too big. -/
theorem convertNumber_big {d : UInt8} {ds rest : Bytes} (lead : isDigit19 d = true)
    (digits : ∀ c ∈ ds, isDigit c = true) (big : 2 ^ 31 ≤ digitsValue (d :: ds)) :
    (∃ i, convertNumber .null (d :: (ds ++ 13 :: rest)) = .ok (.int64 i)) ∨
      convertNumber .null (d :: (ds ++ 13 :: rest)) = .error (.error .numberTooBig) := by
  by_cases fits : digitsValue (d :: ds) < 2 ^ 63
  · refine .inl ⟨Int64.ofInt (digitsValue (d :: ds)), ?_⟩
    simp only [convertNumber, strtol_number lead digits, reduceCtorEq, if_false, if_pos fits]
    exact if_neg (by omega)
  · refine .inr ?_
    simp only [convertNumber, strtol_number lead digits, if_neg fits]
    rfl

/-- A text that starts with a digit is read as a number. -/
theorem parseValue_number {n : Nat} {d : UInt8} {s : Bytes} (digit : isDigit d = true) :
    parseValue (n + 1) false (d :: s) = place false (some (parseNumber (d :: s))) := by
  have other : ∀ x, isDigit x = false → d ≠ x := fun x hx => ne_of_isDigit digit hx
  rw [parseValue, peek_cons, if_neg (by simp), if_neg (other _ (by decide)),
    if_neg (other _ (by decide)), if_neg (other _ (by decide)), if_neg (other _ (by decide)),
    if_neg (other _ (by decide)), if_neg (other _ (by decide))]

end Reader

/-- The header line a sender writes for a positive length is read as a number and
nothing else. -/
theorem parse_header {n : Nat} (pos : 0 < n) : ∃ d ds, toDecimal n = d :: ds ∧
    isDigit19 d = true ∧ (∀ c ∈ ds, isDigit c = true) ∧ digitsValue (d :: ds) = n ∧
      parse (toDecimal n ++ crlf) = Reader.convertNumber .null (d :: (ds ++ crlf)) := by
  obtain ⟨d, ds, text, lead⟩ := toDecimal_pos pos
  have digit := Reader.isDigit_of_isDigit19 lead
  have digits : ∀ c ∈ ds, isDigit c = true := fun c hc =>
    isDigit_of_mem_toDecimal (text ▸ List.mem_cons_of_mem d hc)
  refine ⟨d, ds, text, lead, digits, by rw [← text, digitsValue_toDecimal], ?_⟩
  have noSpace : Reader.isSpace d = false := by
    rw [isDigit_iff] at digit
    simp only [Reader.isSpace, Bool.or_eq_false_iff, decide_eq_false_iff_not]
    refine ⟨⟨⟨?_, ?_⟩, ?_⟩, ?_⟩ <;> rintro rfl <;> exact absurd digit (by decide)
  have start : Reader.parseWhitespace (d :: (ds ++ crlf)) = d :: (ds ++ crlf) := by
    simp [Reader.parseWhitespace, noSpace]
  apply parse_of_root
  rw [text, List.cons_append, Reader.parseRoot, start, Reader.parseValue_number digit, crlf,
    Reader.parseNumber_digits lead digits]
  cases Reader.convertNumber .null (d :: (ds ++ [13, 10])) <;> rfl

/-- A length below 2^31 is read back. -/
theorem parse_toDecimal {n : Nat} (pos : 0 < n) (small : n < 2 ^ 31) :
    parse (toDecimal n ++ crlf) = .ok (.int32 (Int32.ofInt n)) := by
  obtain ⟨d, ds, -, lead, digits, value, parsed⟩ := parse_header pos
  rw [parsed, crlf, Reader.convertNumber_digits lead digits (by omega), value]

/-- A length from 2^31 on is not read as a 32-bit integer. -/
theorem parse_toDecimal_big {n : Nat} (big : 2 ^ 31 ≤ n) :
    (∃ i, parse (toDecimal n ++ crlf) = .ok (.int64 i)) ∨
      parse (toDecimal n ++ crlf) = .error (.error .numberTooBig) := by
  obtain ⟨d, ds, -, lead, digits, value, parsed⟩ := parse_header (n := n) (by omega)
  rw [parsed, crlf]
  exact Reader.convertNumber_big lead digits (by omega)

end LaliRpc.Jackson
