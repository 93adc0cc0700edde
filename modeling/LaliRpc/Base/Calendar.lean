/-
# Base.Calendar — the time in a text

`gmtime_r` takes seconds since 1970 apart into the fields of a date, in the Gregorian
calendar, and `strftime` and `snprintf` write the fields next to each other. The fields
are in their ranges (`gmtime_ranges`), they determine the second (`gmtime_injective`),
and so does the text `strftime` makes of them for the name of a log file
(`strftime_injective`). Years are natural numbers, not an `int`.
-/
import LaliRpc.Base.Bytes
import LaliRpc.Theory.Blocks

namespace LaliRpc.Base

set_option autoImplicit false

open Theory (total locate locate_spec locate_lt locate_injective le_total)

/-! ## Dates -/

def daySeconds : Nat := 60 * 60 * 24

def isLeap (year : Nat) : Bool := (year % 4 = 0 && year % 100 ≠ 0) || year % 400 = 0

/-- The days of a month, January being 0. -/
def monthDays (year mon : Nat) : Nat :=
  if mon = 1 then if isLeap year then 29 else 28
  else if mon = 3 ∨ mon = 5 ∨ mon = 8 ∨ mon = 10 then 30
  else 31

def yearDays (year : Nat) : Nat := total (monthDays year) 0 12

/-- `struct tm`, with the full year and the day of the month from 1. -/
structure Tm where
  year : Nat
  mon : Nat
  mday : Nat
  hour : Nat
  min : Nat
  sec : Nat
  deriving DecidableEq, Repr

def gmtime (now : Nat) : Tm :=
  let days := now / daySeconds
  let rest := now % daySeconds
  let date := locate yearDays days 1970 days
  let day := locate (monthDays date.1) 11 0 date.2
  ⟨date.1, day.1, day.2 + 1, rest / 3600, rest % 3600 / 60, rest % 60⟩

example : gmtime 951782400 = ⟨2000, 1, 29, 0, 0, 0⟩ := by decide +kernel

theorem monthDays_pos (year mon : Nat) : 0 < monthDays year mon ∧ monthDays year mon ≤ 31 := by
  unfold monthDays
  split
  · split
    · omega
    · omega
  · split
    · omega
    · omega

theorem yearDays_pos (year : Nat) : 0 < yearDays year := by
  have months := le_total (fun mon => (monthDays_pos year mon).1) 0 12
  rw [yearDays]
  omega

/-- The day of the year is one of that year. -/
theorem locate_yearDays_lt (days : Nat) :
    (locate yearDays days 1970 days).2 < yearDays (locate yearDays days 1970 days).1 :=
  locate_lt (Nat.lt_of_lt_of_le (Nat.lt_succ_self days) (le_total yearDays_pos 1970 (days + 1)))

/-- The fields are in their ranges. -/
theorem gmtime_ranges (now : Nat) :
    (gmtime now).mon < 12 ∧ (gmtime now).mday ≤ 31 ∧ (gmtime now).hour < 24 ∧
      (gmtime now).min < 60 ∧ (gmtime now).sec < 60 := by
  have rest : now % daySeconds < 86400 := Nat.mod_lt _ (by decide)
  have yday := locate_yearDays_lt (now / daySeconds)
  have mon := Theory.locate_le (monthDays (gmtime now).year) 11 0
    (locate yearDays (now / daySeconds) 1970 (now / daySeconds)).2
  have mday := locate_lt yday
  have most := (monthDays_pos (gmtime now).year (gmtime now).mon).2
  simp only [gmtime] at mon mday most ⊢
  omega

/-- **Different seconds have different dates and times.** -/
theorem gmtime_injective {now now' : Nat} (same : gmtime now = gmtime now') : now = now' := by
  simp only [gmtime, Tm.mk.injEq, Nat.add_right_cancel_iff] at same
  obtain ⟨year, mon, mday, hour, min, sec⟩ := same
  have yday : (locate yearDays (now / daySeconds) 1970 (now / daySeconds)).2 =
      (locate yearDays (now' / daySeconds) 1970 (now' / daySeconds)).2 := by
    rw [year] at mon mday
    exact locate_injective (Prod.ext mon mday)
  have days : now / daySeconds = now' / daySeconds := locate_injective (Prod.ext year yday)
  have rest : now % daySeconds = now' % daySeconds := by omega
  rw [← Nat.div_add_mod now daySeconds, days, rest, Nat.div_add_mod]

/-! ## Texts -/

/-- `%0*d`: at least `width` digits. -/
def padded (width d : Nat) : Bytes :=
  List.replicate (width - (toDecimal d).length) 48 ++ toDecimal d

theorem length_padded {width d : Nat} (positive : 0 < width) (small : d < 10 ^ width) :
    (padded width d).length = width := by
  have le := length_toDecimal_le positive small
  rw [padded, List.length_append, List.length_replicate]
  omega

/-- Zeros in front of a number do not change its value. -/
theorem digitsValue_padded (width d : Nat) : digitsValue (padded width d) = d := by
  have zeros : ∀ n, (List.replicate n (48 : UInt8)).foldl
      (fun acc c => acc * 10 + (c.toNat - 48)) 0 = 0 := by
    intro n
    induction n with
    | zero => rfl
    | succ n ih => exact ih
  rw [padded, digitsValue, List.foldl_append, zeros]
  exact digitsValue_toDecimal d

/-- A separator and two digits. -/
def field (c : UInt8) (d : Nat) : Bytes := c :: padded 2 d

theorem field_injective {c : UInt8} {d d' : Nat} {s t : Bytes} (small : d < 100)
    (small' : d' < 100) (same : field c d ++ s = field c d' ++ t) : d = d' ∧ s = t := by
  have size : (field c d).length = (field c d').length := by
    rw [field, field, List.length_cons, List.length_cons, length_padded (by decide) small,
      length_padded (by decide) small']
  obtain ⟨first, rest⟩ := List.append_inj same size
  refine ⟨?_, rest⟩
  have digits : padded 2 d = padded 2 d' := List.tail_eq_of_cons_eq first
  rw [← digitsValue_padded 2 d, digits, digitsValue_padded]

/-- `strftime` by `-%m-%d-%H:%M:%S`. -/
def strftimeFields (tm : Tm) : Bytes :=
  field 45 (tm.mon + 1) ++ (field 45 tm.mday ++ (field 45 tm.hour ++
    (field 58 tm.min ++ field 58 tm.sec)))

/-- `strftime` by `.%Y-%m-%d-%H:%M:%S`. -/
def strftime (tm : Tm) : Bytes := ascii "." ++ (toDecimal tm.year ++ strftimeFields tm)

example : strftime (gmtime 951782400) = ascii ".2000-02-29-00:00:00" := by decide +kernel

theorem length_strftimeFields (now : Nat) : (strftimeFields (gmtime now)).length = 15 := by
  obtain ⟨mon, mday, hour, min, sec⟩ := gmtime_ranges now
  have three : ∀ c d, d < 100 → (field c d).length = 3 := by
    intro c d small
    rw [field, List.length_cons, length_padded (by decide) small]
  simp only [strftimeFields, List.length_append]
  rw [three _ _ (by omega), three _ _ (by omega), three _ _ (by omega), three _ _ (by omega),
    three _ _ (by omega)]

/-- **Different seconds have different texts.** -/
theorem strftime_injective {now now' : Nat}
    (same : strftime (gmtime now) = strftime (gmtime now')) : now = now' := by
  obtain ⟨mon, mday, hour, min, sec⟩ := gmtime_ranges now
  obtain ⟨mon', mday', hour', min', sec'⟩ := gmtime_ranges now'
  have size := (length_strftimeFields now).trans (length_strftimeFields now').symm
  obtain ⟨years, fields⟩ := List.append_inj' (List.append_cancel_left same) size
  obtain ⟨eqMon, fields⟩ := field_injective (by omega) (by omega) fields
  obtain ⟨eqMday, fields⟩ := field_injective (by omega) (by omega) fields
  obtain ⟨eqHour, fields⟩ := field_injective (by omega) (by omega) fields
  obtain ⟨eqMin, fields⟩ := field_injective (by omega) (by omega) fields
  have last : field 58 (gmtime now).sec ++ [] = field 58 (gmtime now').sec ++ [] := by
    rw [fields]
  obtain ⟨eqSec, -⟩ := field_injective (by omega) (by omega) last
  have eqYear : (gmtime now).year = (gmtime now').year := by
    rw [← digitsValue_toDecimal (gmtime now).year, years, digitsValue_toDecimal]
  apply gmtime_injective
  rw [Tm.mk.injEq]
  exact ⟨eqYear, Nat.add_right_cancel eqMon, eqMday, eqHour, eqMin, eqSec⟩

end LaliRpc.Base
