/-
# Jackson.Grammar — the texts the reader is for

The texts of values as a grammar: JSON, with `NaN` and `Infinity`, widths behind
integers (`1i64`), and lone low surrogates in strings. `Denotes` is a text and the item
it is the text of: a value, the values of an array that is not empty, or the members of
an object that is not empty. What a number or a string comes to is the C library's and
the reader's own conversion.

The scanners of the reader are compared with the leaves here. Each takes a longest run,
so a number's text is found again only where nothing follows that would lengthen it
(`Stops`); strings end at their quotation mark whatever follows.
-/
import LaliRpc.Jackson.Reader

namespace LaliRpc.Jackson.Grammar

open Reader Theory Theory.Fueled

set_option autoImplicit false

def Blank (s : Bytes) : Prop := ∀ c ∈ s, isSpace c = true

theorem blank_nil : Blank [] := fun _ mem => absurd mem List.not_mem_nil

theorem blank_append {b b' : Bytes} (blank : Blank b) (blank' : Blank b') : Blank (b ++ b') :=
  List.forall_mem_append.mpr ⟨blank, blank'⟩

/-! ## Numbers -/

/-- At least one digit. -/
def Digits (s : Bytes) : Prop := s ≠ [] ∧ ∀ c ∈ s, isDigit c = true

/-- No zero in front of other digits. -/
inductive Whole : Bytes → Prop where
  | zero : Whole [chr '0']
  | digits {d : UInt8} {ds : Bytes} (lead : isDigit19 d = true)
      (others : ∀ c ∈ ds, isDigit c = true) : Whole (d :: ds)

inductive Fraction : Bool → Bytes → Prop where
  | none : Fraction false []
  | some {ds : Bytes} (digits : Digits ds) : Fraction true (chr '.' :: ds)

inductive Exponent : Bool → Bytes → Prop where
  | none : Exponent false []
  | some {e : UInt8} {sign ds : Bytes} (letter : e = chr 'e' ∨ e = chr 'E')
      (signed : sign = [] ∨ sign = [chr '+'] ∨ sign = [chr '-']) (digits : Digits ds) :
      Exponent true (e :: (sign ++ ds))

inductive Width : ValueType → Bytes → Prop where
  | none : Width .null []
  | int32 : Width .int32 (ascii "i32")
  | int64 : Width .int64 (ascii "i64")

/-- The text of a number, with the type it asks for. -/
inductive NumberText : ValueType → Bytes → Prop where
  | integer {sign whole width : Bytes} {type : ValueType}
      (signed : sign = [] ∨ sign = [chr '-']) (digits : Whole whole) (wide : Width type width) :
      NumberText type (sign ++ whole ++ width)
  | floating {sign whole fraction exponent : Bytes} {point power : Bool}
      (signed : sign = [] ∨ sign = [chr '-']) (digits : Whole whole)
      (frac : Fraction point fraction) (exp : Exponent power exponent)
      (either : (point || power) = true) :
      NumberText .double (sign ++ whole ++ fraction ++ exponent)

inductive Number : Bytes → Value → Prop where
  | nan : Number (ascii "NaN") (.double Reader.nan)
  | infinity : Number (ascii "Infinity") (.double Reader.infinity)
  | converted {type : ValueType} {text : Bytes} {v : Value} (spelled : NumberText type text)
      (value : convertNumber type text = .ok v) : Number text v

/-! ## Strings -/

/-- Four hexadecimal digits. -/
def Hex4 (s : Bytes) (u : Nat) : Prop :=
  s.length = 4 ∧ s.foldlM (fun u c => (hexDigit c).map (u * 16 + ·)) 0 = some u

/-- What follows a backslash, and the characters it stands for. -/
inductive Escape : Bytes → Bytes → Prop where
  | simple {e c : UInt8} (listed : simpleEscapes.lookup e = some c) : Escape [e] [c]
  | unicode {h : Bytes} {u : Nat} (hex : Hex4 h u) (single : ¬ (0xD800 ≤ u ∧ u ≤ 0xDBFF)) :
      Escape (chr 'u' :: h) (encodeUtf8 u)
  | surrogates {h h' : Bytes} {u u2 : Nat} (hex : Hex4 h u) (hex' : Hex4 h' u2)
      (high : 0xD800 ≤ u ∧ u ≤ 0xDBFF) (low : 0xDC00 ≤ u2 ∧ u2 ≤ 0xDFFF) :
      Escape (chr 'u' :: (h ++ chr '\\' :: chr 'u' :: h'))
        (encodeUtf8 (0x10000 + (u - 0xD800) * 0x400 + (u2 - 0xDC00)))

/-- A character that stands for itself; NUL is one. -/
def Plain (c : UInt8) : Prop := c ≠ chr '"' ∧ c ≠ chr '\\' ∧ ¬ (1 ≤ c ∧ c ≤ 31)

instance : DecidablePred Plain := fun _ => inferInstanceAs (Decidable (_ ∧ _))

theorem plain_of_all {s : Bytes} (all : s.all (fun c => decide (Plain c)) = true) :
    ∀ c ∈ s, Plain c := fun c mem => of_decide_eq_true (List.all_eq_true.mp all c mem)

inductive StringBody : Bytes → Bytes → Prop where
  | nil : StringBody [] []
  | char {c : UInt8} {t s : Bytes} (plain : Plain c) (rest : StringBody t s) :
      StringBody (c :: t) (c :: s)
  | escape {e chars t s : Bytes} (escaped : Escape e chars) (rest : StringBody t s) :
      StringBody (chr '\\' :: (e ++ t)) (chars ++ s)

inductive Quoted : Bytes → Bytes → Prop where
  | quoted {t s : Bytes} (body : StringBody t s) : Quoted (chr '"' :: (t ++ [chr '"'])) s

/-! ## Values -/

inductive Item where
  | value (v : Value)
  | elements (values : List Value)
  | members (members : List (Bytes × Value))

inductive Denotes : Bytes → Item → Prop where
  | null : Denotes (ascii "null") (.value .null)
  | true : Denotes (ascii "true") (.value (.bool true))
  | false : Denotes (ascii "false") (.value (.bool false))
  | number {t : Bytes} {v : Value} (number : Number t v) : Denotes t (.value v)
  | string {t s : Bytes} (quoted : Quoted t s) : Denotes t (.value (.string s))
  | emptyArray {w : Bytes} (blank : Blank w) :
      Denotes (chr '[' :: (w ++ [chr ']'])) (.value (.array []))
  | array {w t : Bytes} {values : List Value} (blank : Blank w)
      (inside : Denotes t (.elements values)) :
      Denotes (chr '[' :: (w ++ t ++ [chr ']'])) (.value (.array values))
  | emptyObject {w : Bytes} (blank : Blank w) : Denotes (0x7B :: (w ++ [0x7D])) (.value (.object []))
  | object {w t : Bytes} {ms : List (Bytes × Value)} (blank : Blank w)
      (inside : Denotes t (.members ms)) : Denotes (0x7B :: (w ++ t ++ [0x7D])) (.value (.object ms))
  | lastElement {t w : Bytes} {v : Value} (first : Denotes t (.value v)) (blank : Blank w) :
      Denotes (t ++ w) (.elements [v])
  | element {t w w' ts : Bytes} {v : Value} {values : List Value} (first : Denotes t (.value v))
      (blank : Blank w) (blank' : Blank w') (rest : Denotes ts (.elements values)) :
      Denotes (t ++ w ++ chr ',' :: (w' ++ ts)) (.elements (v :: values))
  | lastMember {k w₁ w₂ t w key : Bytes} {v : Value} (name : Quoted k key) (blank₁ : Blank w₁)
      (blank₂ : Blank w₂) (first : Denotes t (.value v)) (blank : Blank w) :
      Denotes (k ++ w₁ ++ chr ':' :: (w₂ ++ t ++ w)) (.members [(key, v)])
  | member {k w₁ w₂ t w w' ts key : Bytes} {v : Value} {ms : List (Bytes × Value)}
      (name : Quoted k key) (blank₁ : Blank w₁) (blank₂ : Blank w₂) (first : Denotes t (.value v))
      (blank : Blank w) (blank' : Blank w') (rest : Denotes ts (.members ms)) :
      Denotes (k ++ w₁ ++ chr ':' :: (w₂ ++ t ++ w ++ chr ',' :: (w' ++ ts)))
        (.members ((key, v) :: ms))

/-! ## Scanning numbers -/

section Scan

variable {s r t w : Bytes} {b : Bool} {type : ValueType} {c : UInt8}

/-- A character other than NUL is one of the text. -/
theorem cons_of_peek (here : peek s = c) (nonzero : c ≠ 0) : s = c :: s.tail := by
  cases s with
  | nil => exact absurd here.symm nonzero
  | cons d s =>
      rw [peek_cons] at here
      rw [here, List.tail_cons]

theorem nonzero_of_isDigit (digit : isDigit c = true) : c ≠ 0 := by
  rintro rfl
  cases digit

theorem peek_append (ne : t ≠ []) (r : Bytes) : peek (t ++ r) = peek t := by
  cases t with
  | nil => exact absurd rfl ne
  | cons c t => rfl

theorem not_isDigit_dropDigits (s : Bytes) : isDigit (peek (dropDigits s)) = false := by
  unfold dropDigits
  induction s with
  | nil => rfl
  | cons c s ih =>
      rw [List.dropWhile_cons]
      split
      · exact ih
      · rename_i other
        exact Bool.eq_false_of_not_eq_true other

theorem takeWhile_dropDigits (s : Bytes) : s = s.takeWhile isDigit ++ dropDigits s :=
  List.takeWhile_append_dropWhile.symm

theorem digits_takeWhile (s : Bytes) : ∀ c ∈ s.takeWhile isDigit, isDigit c = true :=
  List.all_eq_true.mp List.all_takeWhile

theorem scanInteger_iff :
    scanInteger s = .ok r ↔ ∃ t, s = t ++ r ∧ Whole t ∧ isDigit (peek r) = false := by
  constructor
  · intro scanned
    unfold scanInteger at scanned
    split at scanned
    · rename_i zero
      split at scanned
      · cases scanned
      · rename_i single
        cases scanned
        exact ⟨[chr '0'], cons_of_peek zero (by decide), .zero, Bool.eq_false_of_not_eq_true single⟩
    · split at scanned
      · rename_i lead
        cases scanned
        refine ⟨peek s :: s.tail.takeWhile isDigit, ?_, .digits lead (digits_takeWhile _),
          not_isDigit_dropDigits _⟩
        rw [List.cons_append, ← takeWhile_dropDigits]
        exact cons_of_peek rfl (nonzero_of_isDigit (isDigit_of_isDigit19 lead))
      · cases scanned
  · rintro ⟨t, rfl, whole, stops⟩
    cases whole with
    | zero => simp [scanInteger, stops]
    | @digits d ds lead others =>
        have other : d ≠ chr '0' := by
          rintro rfl
          cases lead
        rw [List.cons_append, scanInteger, peek_cons, if_neg other, if_pos lead, List.tail_cons,
          dropDigits_digits others stops]

theorem scanDigits_iff :
    scanDigits s = .ok r ↔ ∃ t, s = t ++ r ∧ Digits t ∧ isDigit (peek r) = false := by
  constructor
  · intro scanned
    unfold scanDigits at scanned
    split at scanned
    · rename_i digit
      cases scanned
      refine ⟨peek s :: s.tail.takeWhile isDigit, ?_, ⟨List.cons_ne_nil _ _, ?_⟩,
        not_isDigit_dropDigits _⟩
      · rw [List.cons_append, ← takeWhile_dropDigits]
        exact cons_of_peek rfl (nonzero_of_isDigit digit)
      · exact List.forall_mem_cons.mpr ⟨digit, digits_takeWhile _⟩
    · cases scanned
  · rintro ⟨t, rfl, ⟨ne, digits⟩, stops⟩
    cases t with
    | nil => exact absurd rfl ne
    | cons d ds =>
        obtain ⟨digit, others⟩ := List.forall_mem_cons.mp digits
        rw [List.cons_append, scanDigits, peek_cons, if_pos digit, List.tail_cons,
          dropDigits_digits others stops]

/-- A fraction is not lengthened by a digit, and is none where there is no point. -/
theorem scanFraction_iff : scanFraction s = .ok (b, r) ↔ ∃ t, s = t ++ r ∧ Fraction b t ∧
    (if b then isDigit (peek r) = false else peek r ≠ chr '.') := by
  constructor
  · intro scanned
    unfold scanFraction at scanned
    split at scanned
    · rename_i point
      obtain ⟨rest, digits, same⟩ := except_map_eq_ok.mp scanned
      cases same
      obtain ⟨t, split, digits, stops⟩ := scanDigits_iff.mp digits
      refine ⟨chr '.' :: t, ?_, .some digits, stops⟩
      rw [List.cons_append, ← split]
      exact cons_of_peek point (by decide)
    · rename_i noPoint
      cases scanned
      exact ⟨[], rfl, .none, noPoint⟩
  · rintro ⟨t, rfl, fraction, stops⟩
    cases fraction with
    | none =>
        rw [List.nil_append, scanFraction]
        exact if_neg stops
    | some digits =>
        have scanned := scanDigits_iff.mpr ⟨_, rfl, digits, stops⟩
        rw [List.cons_append, scanFraction, peek_cons, if_pos rfl, List.tail_cons, scanned]
        rfl

theorem scanExponent_iff : scanExponent s = .ok (b, r) ↔ ∃ t, s = t ++ r ∧ Exponent b t ∧
    (if b then isDigit (peek r) = false else peek r ≠ chr 'e' ∧ peek r ≠ chr 'E') := by
  constructor
  · intro scanned
    unfold scanExponent at scanned
    split at scanned
    · rename_i letter
      obtain ⟨rest, digits, same⟩ := except_map_eq_ok.mp scanned
      cases same
      obtain ⟨t, split, digits, stops⟩ := scanDigits_iff.mp digits
      have front : s = peek s :: s.tail :=
        cons_of_peek rfl (by rcases letter with h | h <;> rw [h] <;> decide)
      by_cases plus : peek s.tail = chr '+'
      · rw [if_pos (.inl plus)] at split
        refine ⟨peek s :: ([chr '+'] ++ t), ?_, .some letter (.inr (.inl rfl)) digits, stops⟩
        rw [List.cons_append, List.append_assoc, ← split, List.singleton_append,
          ← cons_of_peek plus (by decide)]
        exact front
      · by_cases minus : peek s.tail = chr '-'
        · rw [if_pos (.inr minus)] at split
          refine ⟨peek s :: ([chr '-'] ++ t), ?_, .some letter (.inr (.inr rfl)) digits, stops⟩
          rw [List.cons_append, List.append_assoc, ← split, List.singleton_append,
            ← cons_of_peek minus (by decide)]
          exact front
        · rw [if_neg (not_or.mpr ⟨plus, minus⟩)] at split
          refine ⟨peek s :: ([] ++ t), ?_, .some letter (.inl rfl) digits, stops⟩
          rw [List.nil_append, List.cons_append, ← split]
          exact front
    · rename_i noLetter
      cases scanned
      exact ⟨[], rfl, .none, not_or.mp noLetter⟩
  · rintro ⟨t, rfl, exponent, stops⟩
    cases exponent with
    | none =>
        rw [List.nil_append, scanExponent, if_neg (not_or.mpr stops)]
    | @some e sign ds letter signed digits =>
        have scanned := scanDigits_iff.mpr ⟨ds, rfl, digits, stops⟩
        obtain ⟨ne, all⟩ := digits
        have digit : isDigit (peek (ds ++ r)) = true := by
          rw [peek_append ne]
          cases ds with
          | nil => exact absurd rfl ne
          | cons d ds => exact all d List.mem_cons_self
        rw [List.cons_append, scanExponent, peek_cons, if_pos letter, List.tail_cons]
        dsimp only
        rcases signed with rfl | rfl | rfl
        · have noSign : ¬ (peek (ds ++ r) = chr '+' ∨ peek (ds ++ r) = chr '-') := by
            rintro (h | h) <;> rw [h] at digit <;> cases digit
          rw [List.nil_append, if_neg noSign, scanned]
          rfl
        · rw [List.append_assoc, List.singleton_append, peek_cons, if_pos (.inl rfl),
            List.tail_cons, scanned]
          rfl
        · rw [List.append_assoc, List.singleton_append, peek_cons, if_pos (.inr rfl),
            List.tail_cons, scanned]
          rfl

theorem scanWidth_iff : scanWidth s = .ok (type, r) ↔
    type = .int32 ∧ s = ascii "32" ++ r ∨ type = .int64 ∧ s = ascii "64" ++ r := by
  constructor
  · intro scanned
    unfold scanWidth at scanned
    split at scanned
    · rename_i three
      split at scanned
      · rename_i two
        cases scanned
        refine .inl ⟨rfl, ?_⟩
        rw [cons_of_peek three (by decide), cons_of_peek two (by decide)]
        rfl
      · cases scanned
    · split at scanned
      · rename_i six
        split at scanned
        · rename_i four
          cases scanned
          refine .inr ⟨rfl, ?_⟩
          rw [cons_of_peek six (by decide), cons_of_peek four (by decide)]
          rfl
        · cases scanned
      · cases scanned
  · rintro (⟨rfl, rfl⟩ | ⟨rfl, rfl⟩) <;> rfl

end Scan

/-! ## Converting numbers -/

section Convert

variable {s r sign whole fraction exponent : Bytes} {point power : Bool} {type : ValueType}

theorem Whole.isDigit (digits : Whole whole) : ∀ c ∈ whole, isDigit c = true := by
  cases digits with
  | zero => exact List.forall_mem_singleton.mpr (by decide)
  | digits lead others => exact List.forall_mem_cons.mpr ⟨isDigit_of_isDigit19 lead, others⟩

theorem Whole.ne_nil (digits : Whole whole) : whole ≠ [] := by
  cases digits <;> exact List.cons_ne_nil _ _

theorem Whole.peek (digits : Whole whole) (r : Bytes) :
    LaliRpc.isDigit (Reader.peek (whole ++ r)) = true := by
  rw [peek_append digits.ne_nil]
  cases whole with
  | nil => exact absurd rfl digits.ne_nil
  | cons d ds => exact digits.isDigit d List.mem_cons_self

/-- `strtol` stops behind the digits. -/
theorem strtol_text (signed : sign = [] ∨ sign = [chr '-']) (digits : Whole whole)
    (stops : isDigit (peek r) = false) :
    strtol (sign ++ whole ++ r) = strtol (sign ++ whole) := by
  have taken : (whole ++ r).takeWhile isDigit = whole := takeWhile_digits digits.isDigit stops
  have taken' : whole.takeWhile isDigit = whole := by
    have none : (whole ++ []).takeWhile isDigit = whole := takeWhile_digits digits.isDigit rfl
    rwa [List.append_nil] at none
  rcases signed with rfl | rfl
  · have other : (whole ++ r).headD 0 ≠ chr '-' := ne_of_isDigit (digits.peek r) (by decide)
    have other' : whole.headD 0 ≠ chr '-' := by
      have first := digits.peek []
      rw [List.append_nil] at first
      exact ne_of_isDigit first (by decide)
    simp only [strtol, List.nil_append, if_neg other, if_neg other', taken, taken']
  · simp only [strtol, List.cons_append, List.nil_append, List.headD_cons, if_true, List.tail_cons,
      taken, taken']

/-- The power of ten of an exponent. -/
def powerOf (exponent : Bytes) : Int :=
  if exponent.headD 0 = chr 'e' ∨ exponent.headD 0 = chr 'E' then
    if exponent.tail.headD 0 = chr '-' then -(digitsValue exponent.tail.tail : Int)
    else if exponent.tail.headD 0 = chr '+' then digitsValue exponent.tail.tail
    else digitsValue exponent.tail
  else 0

/-- The part of `scanDecimal` behind the fraction. -/
theorem exponent_text (exp : Exponent power exponent)
    (stops : if power then isDigit (peek r) = false else peek r ≠ chr 'e' ∧ peek r ≠ chr 'E') :
    (if (exponent ++ r).headD 0 = chr 'e' ∨ (exponent ++ r).headD 0 = chr 'E' then
      if (exponent ++ r).tail.headD 0 = chr '-' then
        -(digitsValue ((exponent ++ r).tail.tail.takeWhile isDigit) : Int)
      else if (exponent ++ r).tail.headD 0 = chr '+' then
        (digitsValue ((exponent ++ r).tail.tail.takeWhile isDigit) : Int)
      else (digitsValue ((exponent ++ r).tail.takeWhile isDigit) : Int)
    else 0) = powerOf exponent := by
  cases exp with
  | none =>
      rw [List.nil_append]
      exact if_neg (not_or.mpr stops)
  | @some e sign ds letter signed digits =>
      have taken : (ds ++ r).takeWhile isDigit = ds := takeWhile_digits digits.2 stops
      have first : ∀ c, isDigit c = false → (ds ++ r).headD 0 ≠ c ∧ ds.headD 0 ≠ c := by
        intro c other
        obtain ⟨ne, all⟩ := digits
        cases ds with
        | nil => exact absurd rfl ne
        | cons d ds =>
            have digit := all d List.mem_cons_self
            exact ⟨ne_of_isDigit digit other, ne_of_isDigit digit other⟩
      have noMinus := first (chr '-') (by decide)
      have noPlus := first (chr '+') (by decide)
      have minus : chr '+' ≠ chr '-' := by decide
      rcases signed with rfl | rfl | rfl
      · rw [List.nil_append, List.cons_append, List.headD_cons, if_pos letter, List.tail_cons,
          if_neg noMinus.1, if_neg noPlus.1, taken, powerOf, List.headD_cons, if_pos letter,
          List.tail_cons, if_neg noMinus.2, if_neg noPlus.2]
      · rw [List.cons_append, List.headD_cons, if_pos letter, powerOf, List.headD_cons,
          if_pos letter]
        simp only [List.tail_cons, List.cons_append, List.nil_append, List.headD_cons,
          if_neg minus, if_true, taken]
      · rw [List.cons_append, List.headD_cons, if_pos letter, powerOf, List.headD_cons,
          if_pos letter]
        simp only [List.tail_cons, List.cons_append, List.nil_append, List.headD_cons, if_true,
          taken]

/-- The part of `scanDecimal` between the whole digits and the exponent. -/
theorem fraction_text {rest : Bytes} (frac : Fraction point fraction)
    (stops : isDigit (peek rest) = false) (noPoint : point = false → peek rest ≠ chr '.') :
    (if (fraction ++ rest).headD 0 = chr '.' then (fraction ++ rest).tail.takeWhile isDigit
      else []) = fraction.tail ∧
    (if (fraction ++ rest).headD 0 = chr '.' then dropDigits (fraction ++ rest).tail
      else fraction ++ rest) = rest := by
  cases frac with
  | none => exact ⟨if_neg (noPoint rfl), if_neg (noPoint rfl)⟩
  | some digits =>
      rw [List.cons_append, List.headD_cons, if_pos rfl, if_pos rfl, List.tail_cons,
        List.tail_cons]
      exact ⟨takeWhile_digits digits.2 stops, dropDigits_digits digits.2 stops⟩

theorem Exponent.stops (exp : Exponent power exponent) (stops : isDigit (peek r) = false) :
    isDigit (peek (exponent ++ r)) = false := by
  cases exp with
  | none => exact stops
  | some letter =>
      rw [List.cons_append, peek_cons]
      rcases letter with rfl | rfl <;> decide

theorem Fraction.stops (frac : Fraction point fraction) (stops : isDigit (peek r) = false) :
    isDigit (peek (fraction ++ r)) = false := by
  cases frac with
  | none => exact stops
  | some => exact (show isDigit (chr '.') = false by decide)

/-- What `strtod` scans is the text, whatever follows it. -/
theorem scanDecimal_text (signed : sign = [] ∨ sign = [chr '-']) (digits : Whole whole)
    (frac : Fraction point fraction) (exp : Exponent power exponent)
    (stops : isDigit (peek r) = false) (noPoint : point = false → peek (exponent ++ r) ≠ chr '.')
    (noPower : power = false → peek r ≠ chr 'e' ∧ peek r ≠ chr 'E') :
    scanDecimal (sign ++ whole ++ fraction ++ exponent ++ r) =
      (decide (sign = [chr '-']), digitsValue (whole ++ fraction.tail),
        powerOf exponent - fraction.tail.length) := by
  have behind := exp.stops stops
  have stops' := frac.stops behind
  have taken := takeWhile_digits digits.isDigit stops'
  have dropped := dropDigits_digits digits.isDigit stops'
  obtain ⟨fractionTaken, fractionDropped⟩ := fraction_text frac behind noPoint
  have exponentTaken := exponent_text exp (r := r) (by
    cases power with
    | false => exact noPower rfl
    | true => exact stops)
  have text : sign ++ whole ++ fraction ++ exponent ++ r =
      sign ++ (whole ++ (fraction ++ (exponent ++ r))) := by simp only [List.append_assoc]
  rw [text]
  rcases signed with rfl | rfl
  · have other : (whole ++ (fraction ++ (exponent ++ r))).headD 0 ≠ chr '-' :=
      ne_of_isDigit (digits.peek _) (by decide)
    simp only [scanDecimal, List.nil_append, other, if_false, taken, dropped, fractionTaken,
      fractionDropped, exponentTaken]
    simp
  · simp only [scanDecimal, List.cons_append, List.nil_append, List.headD_cons, if_true,
      List.tail_cons, taken, dropped, fractionTaken, fractionDropped, exponentTaken, decide_true]

theorem convert_integer (signed : sign = [] ∨ sign = [chr '-']) (digits : Whole whole)
    (other : type ≠ .double) (stops : isDigit (peek r) = false) :
    convertNumber type (sign ++ whole ++ r) = convertNumber type (sign ++ whole) := by
  have same := strtol_text signed digits stops
  cases type with
  | double => exact absurd rfl other
  | _ => simp only [convertNumber, same]

theorem convert_floating (signed : sign = [] ∨ sign = [chr '-']) (digits : Whole whole)
    (frac : Fraction point fraction) (exp : Exponent power exponent)
    (either : (point || power) = true) (stops : isDigit (peek r) = false)
    (noPower : power = false → peek r ≠ chr 'e' ∧ peek r ≠ chr 'E') :
    convertNumber .double (sign ++ whole ++ fraction ++ exponent ++ r) =
      convertNumber .double (sign ++ whole ++ fraction ++ exponent) := by
  have noPoint : point = false → ∀ r, peek (exponent ++ r) ≠ chr '.' := by
    rintro rfl r
    cases exp with
    | none => cases either
    | some letter =>
        rw [List.cons_append, peek_cons]
        rcases letter with rfl | rfl <;> decide
  have here := scanDecimal_text signed digits frac exp stops (fun no => noPoint no r) noPower
  have alone := scanDecimal_text (r := []) signed digits frac exp rfl (fun no => noPoint no [])
    (fun _ => by decide)
  rw [List.append_nil] at alone
  simp only [convertNumber, strtod, here, alone]

/-- Nothing in `r` lengthens a number in front of it. -/
structure Stops (r : Bytes) : Prop where
  digit : isDigit (peek r) = false
  point : peek r ≠ chr '.'
  power : peek r ≠ chr 'e' ∧ peek r ≠ chr 'E'
  width : peek r ≠ chr 'i'

/-- The sign, and what is scanned behind it. -/
theorem sign_split (s : Bytes) : ∃ sign, (sign = [] ∨ sign = [chr '-']) ∧
    s = sign ++ if peek s = chr '-' then s.tail else s := by
  by_cases minus : peek s = chr '-'
  · rw [if_pos minus]
    exact ⟨[chr '-'], .inr rfl, cons_of_peek minus (by decide)⟩
  · rw [if_neg minus]
    exact ⟨[], .inl rfl, rfl⟩

theorem sign_drop (signed : sign = [] ∨ sign = [chr '-']) (digits : Whole whole) (r : Bytes) :
    (if peek (sign ++ (whole ++ r)) = chr '-' then (sign ++ (whole ++ r)).tail
      else sign ++ (whole ++ r)) = whole ++ r := by
  rcases signed with rfl | rfl
  · exact if_neg (ne_of_isDigit (digits.peek r) (by decide))
  · exact if_pos rfl

theorem scanNumber_sound (scanned : scanNumber s = .ok (type, r)) :
    ∃ t, s = t ++ r ∧ NumberText type t ∧ convertNumber type s = convertNumber type t := by
  obtain ⟨afterInt, int, behindInt⟩ := except_bind_eq_ok.mp scanned
  obtain ⟨⟨point, afterFrac⟩, frac, behindFrac⟩ := except_bind_eq_ok.mp behindInt
  obtain ⟨⟨power, afterExp⟩, exp, last⟩ := except_bind_eq_ok.mp behindFrac
  obtain ⟨sign, signed, front⟩ := sign_split s
  obtain ⟨whole, split, digits, stops⟩ := scanInteger_iff.mp int
  obtain ⟨fraction, rfl, fracText, fracStops⟩ := scanFraction_iff.mp frac
  obtain ⟨exponent, rfl, expText, expStops⟩ := scanExponent_iff.mp exp
  rw [split] at front
  dsimp only at last
  by_cases floating : (point || power) = true
  · rw [if_pos floating, if_pos floating] at last
    split at last
    · cases last
    · cases last
      have ended : isDigit (peek r) = false := by
        cases expText with
        | some => exact expStops
        | none =>
            rw [Bool.or_false] at floating
            rw [floating] at fracStops
            exact fracStops
      have noPower : power = false → peek r ≠ chr 'e' ∧ peek r ≠ chr 'E' := by
        rintro rfl
        exact expStops
      have text : s = sign ++ whole ++ fraction ++ exponent ++ r := by
        rw [front]
        simp only [List.append_assoc]
      refine ⟨sign ++ whole ++ fraction ++ exponent, text,
        .floating signed digits fracText expText floating, ?_⟩
      rw [text]
      exact convert_floating signed digits fracText expText floating ended noPower
  · rw [if_neg floating, if_neg floating] at last
    obtain ⟨rfl, rfl⟩ : point = false ∧ power = false := by simpa using floating
    cases fracText
    cases expText
    simp only [List.nil_append] at last front stops
    have wide : ∀ {width}, afterExp = width ++ r → Width type width →
        ∃ t, s = t ++ r ∧ NumberText type t ∧ convertNumber type s = convertNumber type t := by
      rintro width rfl wide
      have other : type ≠ .double := by cases wide <;> nofun
      have alone : isDigit (peek width) = false := by cases wide <;> decide
      refine ⟨sign ++ whole ++ width, ?_, .integer signed digits wide, ?_⟩
      · rw [front]
        simp only [List.append_assoc]
      · rw [front, ← List.append_assoc, convert_integer signed digits other stops,
          convert_integer signed digits other alone]
    split at last
    · rename_i letter
      rcases scanWidth_iff.mp last with ⟨rfl, tail⟩ | ⟨rfl, tail⟩
      · refine wide ?_ .int32
        rw [cons_of_peek letter (by decide), tail]
        rfl
      · refine wide ?_ .int64
        rw [cons_of_peek letter (by decide), tail]
        rfl
    · cases last
      exact wide rfl .none

theorem scanNumber_complete {t : Bytes} (spelled : NumberText type t) (stops : Stops r) :
    scanNumber (t ++ r) = .ok (type, r) ∧
      convertNumber type (t ++ r) = convertNumber type t := by
  cases spelled with
  | @integer sign whole width type signed digits wide =>
      have other : type ≠ .double := by cases wide <;> nofun
      have alone : isDigit (peek width) = false := by cases wide <;> decide
      have behind : isDigit (peek (width ++ r)) = false ∧ peek (width ++ r) ≠ chr '.' ∧
          peek (width ++ r) ≠ chr 'e' ∧ peek (width ++ r) ≠ chr 'E' := by
        cases wide with
        | none => exact ⟨stops.digit, stops.point, stops.power⟩
        | int32 =>
            rw [show peek (ascii "i32" ++ r) = chr 'i' from rfl]
            decide
        | int64 =>
            rw [show peek (ascii "i64" ++ r) = chr 'i' from rfl]
            decide
      have int : scanInteger (whole ++ (width ++ r)) = .ok (width ++ r) :=
        scanInteger_iff.mpr ⟨whole, rfl, digits, behind.1⟩
      have frac : scanFraction (width ++ r) = .ok (false, width ++ r) :=
        scanFraction_iff.mpr ⟨[], rfl, .none, behind.2.1⟩
      have exp : scanExponent (width ++ r) = .ok (false, width ++ r) :=
        scanExponent_iff.mpr ⟨[], rfl, .none, behind.2.2⟩
      rw [List.append_assoc, List.append_assoc]
      constructor
      · simp only [scanNumber, sign_drop signed digits, int, frac, exp, except_ok_bind]
        cases wide with
        | none => exact if_neg stops.width
        | int32 => rfl
        | int64 => rfl
      · rw [← List.append_assoc, convert_integer signed digits other behind.1,
          convert_integer signed digits other alone]
  | @floating sign whole fraction exponent point power signed digits frac exp either =>
      have noPoint : point = false → peek (exponent ++ r) ≠ chr '.' := by
        rintro rfl
        cases exp with
        | none => cases either
        | some letter =>
            rw [List.cons_append, peek_cons]
            rcases letter with rfl | rfl <;> decide
      have int : scanInteger (whole ++ (fraction ++ (exponent ++ r))) =
          .ok (fraction ++ (exponent ++ r)) :=
        scanInteger_iff.mpr ⟨whole, rfl, digits, frac.stops (exp.stops stops.digit)⟩
      have frac' : scanFraction (fraction ++ (exponent ++ r)) = .ok (point, exponent ++ r) := by
        refine scanFraction_iff.mpr ⟨fraction, rfl, frac, ?_⟩
        cases point with
        | true => exact exp.stops stops.digit
        | false => exact noPoint rfl
      have exp' : scanExponent (exponent ++ r) = .ok (power, r) := by
        refine scanExponent_iff.mpr ⟨exponent, rfl, exp, ?_⟩
        cases power with
        | true => exact stops.digit
        | false => exact stops.power
      constructor
      · simp only [scanNumber, List.append_assoc, sign_drop signed digits, int, frac', exp',
          except_ok_bind, either, if_neg stops.width, if_true]
      · exact convert_floating signed digits frac exp either stops.digit fun _ => stops.power

/-! ## Leaves -/

theorem parseLiteral_iff {literal : String} {value v : Value} :
    parseLiteral literal value s = .ok (v, r) ↔ v = value ∧ s = ascii literal ++ r := by
  unfold parseLiteral
  constructor
  · intro parsed
    split at parsed
    · rename_i isPrefix
      obtain ⟨rest, rfl⟩ := List.isPrefixOf_iff_prefix.mp isPrefix
      rw [List.drop_left] at parsed
      cases parsed
      exact ⟨rfl, rfl⟩
    · cases parsed
  · rintro ⟨rfl, rfl⟩
    rw [if_pos (List.isPrefixOf_iff_prefix.mpr (List.prefix_append _ _)), List.drop_left]

theorem parseNumber_sound {v : Value} (parsed : parseNumber s = .ok (v, r)) :
    ∃ t, s = t ++ r ∧ Number t v := by
  unfold parseNumber at parsed
  split at parsed
  · obtain ⟨rfl, text⟩ := parseLiteral_iff.mp parsed
    exact ⟨_, text, .nan⟩
  · split at parsed
    · obtain ⟨rfl, text⟩ := parseLiteral_iff.mp parsed
      exact ⟨_, text, .infinity⟩
    · obtain ⟨⟨type, rest⟩, scanned, behind⟩ := except_bind_eq_ok.mp parsed
      obtain ⟨v', value, same⟩ := except_bind_eq_ok.mp behind
      cases same
      obtain ⟨t, text, spelled, convert⟩ := scanNumber_sound scanned
      exact ⟨t, text, .converted spelled (convert ▸ value)⟩

/-- A number starts with a character that no other value starts with. -/
theorem NumberText.peek {t : Bytes} (spelled : NumberText type t) (r : Bytes) :
    Reader.peek (t ++ r) = chr '-' ∨ LaliRpc.isDigit (Reader.peek (t ++ r)) = true := by
  have start : ∀ {sign whole r : Bytes}, (sign = [] ∨ sign = [chr '-']) → Whole whole →
      Reader.peek (sign ++ (whole ++ r)) = chr '-' ∨
        LaliRpc.isDigit (Reader.peek (sign ++ (whole ++ r))) = true := by
    rintro sign whole r (rfl | rfl) digits
    · exact .inr (digits.peek r)
    · exact .inl rfl
  cases spelled with
  | integer signed digits wide =>
      simp only [List.append_assoc]
      exact start signed digits
  | floating signed digits frac exp either =>
      simp only [List.append_assoc]
      exact start signed digits

theorem parseNumber_complete {t : Bytes} {v : Value} (number : Number t v) (stops : Stops r) :
    parseNumber (t ++ r) = .ok (v, r) := by
  cases number with
  | nan => exact (if_pos rfl).trans (parseLiteral_iff.mpr ⟨rfl, rfl⟩)
  | infinity =>
      rw [parseNumber, if_neg (show peek (ascii "Infinity" ++ r) ≠ chr 'N' from
        (by decide : chr 'I' ≠ chr 'N'))]
      exact (if_pos rfl).trans (parseLiteral_iff.mpr ⟨rfl, rfl⟩)
  | @converted type _ _ spelled value =>
      obtain ⟨scanned, convert⟩ := scanNumber_complete spelled stops
      have other : ∀ c, isDigit c = false → c ≠ chr '-' → peek (t ++ r) ≠ c := by
        rintro c noDigit noSign rfl
        rcases spelled.peek r with minus | digit
        · exact noSign minus
        · rw [noDigit] at digit
          cases digit
      rw [parseNumber, if_neg (other _ (by decide) (by decide)),
        if_neg (other _ (by decide) (by decide)), scanned]
      simp only [except_ok_bind, convert, value]

theorem cons_of_hexDigit {d : Nat} (hex : hexDigit (next s).1 = some d) :
    s = (next s).1 :: s.tail := by
  cases s with
  | nil => cases hex
  | cons c s => rfl

theorem parseHex_iff {i u v : Nat} : parseHex i u s = .ok (v, r) ↔ ∃ t, s = t ++ r ∧
    t.length = i ∧ t.foldlM (fun u c => (hexDigit c).map (u * 16 + ·)) u = some v := by
  induction i generalizing u s with
  | zero =>
      constructor
      · intro parsed
        cases parsed
        exact ⟨[], rfl, rfl, rfl⟩
      · rintro ⟨t, rfl, none, value⟩
        rw [List.length_eq_zero_iff] at none
        subst none
        cases value
        rfl
  | succ i ih =>
      constructor
      · intro parsed
        rw [parseHex] at parsed
        split at parsed
        · rename_i d hex
          obtain ⟨t, split, length, value⟩ := ih.mp parsed
          refine ⟨(next s).1 :: t, ?_, congrArg (· + 1) length, ?_⟩
          · rw [List.cons_append, ← split]
            exact cons_of_hexDigit hex
          · rw [List.foldlM_cons, hex]
            exact value
        · cases parsed
      · rintro ⟨t, rfl, length, value⟩
        cases t with
        | nil => cases length
        | cons c t =>
            rw [List.foldlM_cons] at value
            cases hex : hexDigit c with
            | none =>
                rw [hex] at value
                cases value
            | some d =>
                rw [hex] at value
                have first : hexDigit (next (c :: t ++ r)).1 = some d := hex
                rw [parseHex, first]
                exact ih.mpr ⟨t, rfl, Nat.succ.inj length, value⟩

theorem parseHex4_iff {v : Nat} : parseHex4 s = .ok (v, r) ↔ ∃ t, s = t ++ r ∧ Hex4 t v :=
  parseHex_iff

theorem parseUnicode_sound {chars : Bytes} (parsed : parseUnicode s = .ok (chars, r)) :
    ∃ t, s = t ++ r ∧ Escape (chr 'u' :: t) chars := by
  obtain ⟨⟨u, s₁⟩, first, behind⟩ := except_bind_eq_ok.mp parsed
  obtain ⟨t, rfl, hex⟩ := parseHex4_iff.mp first
  dsimp only at behind
  split at behind
  · rename_i high
    split at behind
    · cases behind
    · rename_i backslash
      split at behind
      · cases behind
      · rename_i letter
        obtain ⟨⟨u2, s₂⟩, second, last⟩ := except_bind_eq_ok.mp behind
        obtain ⟨t', split, hex'⟩ := parseHex4_iff.mp second
        dsimp only at last
        split at last
        · rename_i low
          obtain ⟨rfl, rfl⟩ := Prod.mk.inj (Except.ok.inj last)
          refine ⟨t ++ chr '\\' :: chr 'u' :: t', ?_, .surrogates hex hex' high low⟩
          rw [List.append_assoc, List.cons_append, List.cons_append, ← split,
            ← cons_of_peek (not_not.mp letter) (by decide),
            ← cons_of_peek (not_not.mp backslash) (by decide)]
        · cases last
  · rename_i single
    obtain ⟨rfl, rfl⟩ := Prod.mk.inj (Except.ok.inj behind)
    exact ⟨t, rfl, .unicode hex single⟩

theorem parseEscape_iff {chars : Bytes} : parseEscape s = .ok (chars, r) ↔
    ∃ e, s = e ++ r ∧ Escape e chars := by
  constructor
  · intro parsed
    unfold parseEscape at parsed
    split at parsed
    · rename_i c listed
      cases parsed
      refine ⟨[(next s).1], cons_of_peek rfl fun zero => ?_, .simple listed⟩
      rw [show (next s).1 = 0 from zero] at listed
      cases listed
    · split at parsed
      · rename_i letter
        obtain ⟨t, split, escape⟩ := parseUnicode_sound parsed
        refine ⟨chr 'u' :: t, ?_, escape⟩
        rw [List.cons_append, ← split]
        exact cons_of_peek letter (by decide)
      · cases parsed
  · rintro ⟨e, rfl, escape⟩
    have unlisted : simpleEscapes.lookup (chr 'u') = none := by decide
    cases escape with
    | simple listed =>
        simp only [parseEscape, next, List.cons_append, List.nil_append, List.headD_cons, listed,
          List.tail_cons]
    | @unicode h u hex single =>
        have parsed : parseHex4 (h ++ r) = .ok (u, r) := parseHex4_iff.mpr ⟨h, rfl, hex⟩
        simp only [parseEscape, next, List.cons_append, List.headD_cons, unlisted, if_true,
          List.tail_cons, parseUnicode, parsed, except_ok_bind, if_neg single]
    | @surrogates h h' u u2 hex hex' high low =>
        have parsed : parseHex4 (h ++ (chr '\\' :: chr 'u' :: (h' ++ r))) =
          .ok (u, chr '\\' :: chr 'u' :: (h' ++ r)) := parseHex4_iff.mpr ⟨h, rfl, hex⟩
        have parsed' : parseHex4 (h' ++ r) = .ok (u2, r) := parseHex4_iff.mpr ⟨h', rfl, hex'⟩
        simp only [parseEscape, next, List.cons_append, List.headD_cons, unlisted, if_true,
          List.tail_cons, parseUnicode, List.append_assoc, parsed, parsed', except_ok_bind,
          if_pos high, if_pos low, ne_eq, not_true_eq_false, if_false]

/-- What a string's loop returns is the text up to the next quotation mark that is not
escaped, read character by character. -/
theorem parseStringBody_sound {n : Nat} {buffer chars : Bytes}
    (parsed : parseStringBody n buffer s = ok (chars, r)) :
    ∃ t d, s = t ++ chr '"' :: r ∧ chars = buffer ++ d ∧ StringBody t d := by
  induction n generalizing buffer s with
  | zero => cases parsed
  | succ n ih =>
      cases s with
      | nil => cases parsed
      | cons c s =>
          rw [parseStringBody] at parsed
          split at parsed
          · rename_i quote
            cases parsed
            exact ⟨[], [], by rw [quote]; rfl, (List.append_nil _).symm, .nil⟩
          · rename_i noQuote
            split at parsed
            · cases parsed
            · rename_i printable
              split at parsed
              · rename_i backslash
                cases escape : parseEscape s with
                | error f =>
                    rw [escape] at parsed
                    cases parsed
                | ok decoded =>
                    obtain ⟨decoded, rest⟩ := decoded
                    rw [escape] at parsed
                    obtain ⟨t, d, split, chars, body⟩ := ih parsed
                    obtain ⟨e, rfl, escaped⟩ := parseEscape_iff.mp escape
                    refine ⟨c :: (e ++ t), decoded ++ d, ?_, ?_, ?_⟩
                    · rw [split, List.cons_append, List.append_assoc]
                    · rw [chars, List.append_assoc]
                    · rw [backslash]
                      exact .escape escaped body
              · rename_i noBackslash
                obtain ⟨t, d, split, chars, body⟩ := ih parsed
                refine ⟨c :: t, c :: d, ?_, ?_, .char ⟨noQuote, noBackslash, printable⟩ body⟩
                · rw [split, List.cons_append]
                · rw [chars, List.append_assoc, List.singleton_append]

theorem parseStringBody_complete {n : Nat} {buffer t d : Bytes} (body : StringBody t d)
    (enough : t.length < n) :
    parseStringBody n buffer (t ++ chr '"' :: r) = ok (buffer ++ d, r) := by
  induction body generalizing n buffer with
  | nil =>
      obtain ⟨n, rfl⟩ := Nat.exists_eq_succ_of_ne_zero (Nat.ne_of_gt enough)
      rw [List.nil_append, parseStringBody, if_pos rfl, List.append_nil]
  | @char c t s plain rest ih =>
      obtain ⟨n, rfl⟩ := Nat.exists_eq_succ_of_ne_zero (Nat.ne_of_gt (Nat.zero_lt_of_lt enough))
      rw [List.cons_append, parseStringBody, if_neg plain.1, if_neg plain.2.2, if_neg plain.2.1,
        ih (Nat.lt_of_succ_lt_succ enough), List.append_assoc, List.singleton_append]
  | @escape e chars t s escaped rest ih =>
      obtain ⟨n, rfl⟩ := Nat.exists_eq_succ_of_ne_zero (Nat.ne_of_gt (Nat.zero_lt_of_lt enough))
      rw [List.length_cons, List.length_append] at enough
      have decoded : parseEscape (e ++ (t ++ chr '"' :: r)) = .ok (chars, t ++ chr '"' :: r) :=
        parseEscape_iff.mpr ⟨e, rfl, escaped⟩
      rw [List.cons_append, List.append_assoc, parseStringBody, if_neg (by decide),
        if_neg (by decide), if_pos rfl, decoded]
      exact (ih (by omega)).trans (by rw [List.append_assoc])

theorem parseString_sound {chars : Bytes} (quote : peek s = chr '"')
    (parsed : parseString s = ok (chars, r)) : ∃ t, s = t ++ r ∧ Quoted t chars := by
  obtain ⟨t, d, split, rfl, body⟩ := parseStringBody_sound parsed
  refine ⟨chr '"' :: (t ++ [chr '"']), ?_, .quoted body⟩
  rw [List.cons_append, List.append_assoc, List.singleton_append, ← split]
  exact cons_of_peek quote (by decide)

theorem parseString_complete {t chars : Bytes} (quoted : Quoted t chars) (r : Bytes) :
    peek (t ++ r) = chr '"' ∧ parseString (t ++ r) = ok (chars, r) := by
  obtain ⟨body⟩ := quoted
  refine ⟨rfl, ?_⟩
  rw [parseString, List.cons_append, List.tail_cons, List.append_assoc, List.singleton_append,
    parseStringBody_complete body]
  · rfl
  · simp only [List.length_cons, List.length_append]
    omega

theorem parseWhitespace_blank {w : Bytes} (blank : Blank w) (s : Bytes) :
    parseWhitespace (w ++ s) = parseWhitespace s := by
  rw [parseWhitespace, List.dropWhile_append_of_pos blank]
  rfl

theorem parseWhitespace_split (s : Bytes) : ∃ w, Blank w ∧ s = w ++ parseWhitespace s :=
  ⟨s.takeWhile isSpace, List.all_eq_true.mp List.all_takeWhile,
    List.takeWhile_append_dropWhile.symm⟩

/-- A text that does not start with a space. -/
theorem parseWhitespace_of_peek (here : isSpace (peek s) = false) : parseWhitespace s = s := by
  cases s with
  | nil => rfl
  | cons c s =>
      rw [peek_cons] at here
      rw [parseWhitespace, List.dropWhile_cons, here]
      rfl

theorem stops_nil : Stops [] := ⟨by decide, by decide, by decide, by decide⟩

/-- Nothing behind a blank lengthens a number in front of it. -/
theorem Stops.blank {w : Bytes} (stops : Stops r) (blank : Blank w) : Stops (w ++ r) := by
  cases w with
  | nil => exact stops
  | cons c w =>
      have space := blank c List.mem_cons_self
      have other : ∀ d, isSpace d = false → c ≠ d := by
        rintro d noSpace rfl
        rw [noSpace] at space
        cases space
      refine ⟨Bool.eq_false_of_not_eq_true fun digit => ?_, other _ (by decide),
        ⟨other _ (by decide), other _ (by decide)⟩, other _ (by decide)⟩
      rw [List.cons_append, peek_cons, isDigit_iff] at digit
      simp only [isSpace, Bool.or_eq_true, decide_eq_true_eq] at space
      rcases space with ((rfl | rfl) | rfl) | rfl <;> exact absurd digit (by decide)

theorem Number.start {t : Bytes} {v : Value} (number : Number t v) :
    t ≠ [] ∧ (peek t = chr 'N' ∨ peek t = chr 'I' ∨ peek t = chr '-' ∨ isDigit (peek t) = true) := by
  cases number with
  | nan => exact ⟨by decide, .inl rfl⟩
  | infinity => exact ⟨by decide, .inr (.inl rfl)⟩
  | converted spelled value =>
      have first := spelled.peek []
      rw [List.append_nil] at first
      refine ⟨?_, .inr (.inr first)⟩
      rintro rfl
      rcases first with h | h <;> cases h

/-- How the text of an item starts. -/
def Start (t : Bytes) : Item → Prop
  | .value _ => isSpace (peek t) = false ∧ peek t ≠ chr ']'
  | .elements _ => isSpace (peek t) = false ∧ peek t ≠ chr ']'
  | .members _ => peek t = chr '"'

theorem Denotes.start {t : Bytes} {item : Item} (d : Denotes t item) : t ≠ [] ∧ Start t item := by
  induction d with
  | null | true | false => exact ⟨by decide, by decide, by decide⟩
  | number number =>
      obtain ⟨ne, first⟩ := number.start
      refine ⟨ne, ?_⟩
      rcases first with first | first | first | digit
      · rw [Start, first]
        decide
      · rw [Start, first]
        decide
      · rw [Start, first]
        decide
      · refine ⟨Bool.eq_false_of_not_eq_true fun space => ?_, ne_of_isDigit digit (by decide)⟩
        simp only [isSpace, Bool.or_eq_true, decide_eq_true_eq] at space
        rcases space with ((h | h) | h) | h <;> rw [h] at digit <;> cases digit
  | string quoted =>
      obtain ⟨body⟩ := quoted
      exact ⟨List.cons_ne_nil _ _, show isSpace (chr '"') = _ ∧ chr '"' ≠ _ by decide⟩
  | emptyArray | array =>
      exact ⟨List.cons_ne_nil _ _, show isSpace (chr '[') = _ ∧ chr '[' ≠ _ by decide⟩
  | emptyObject | object =>
      exact ⟨List.cons_ne_nil _ _, show isSpace (chr '{') = _ ∧ chr '{' ≠ _ by decide⟩
  | lastElement first blank ih =>
      exact ⟨List.append_ne_nil_of_left_ne_nil ih.1 _, by rw [Start, peek_append ih.1]; exact ih.2⟩
  | element first blank blank' rest ih =>
      rw [List.append_assoc]
      exact ⟨List.append_ne_nil_of_left_ne_nil ih.1 _, by rw [Start, peek_append ih.1]; exact ih.2⟩
  | lastMember name | member name =>
      obtain ⟨body⟩ := name
      exact ⟨List.cons_ne_nil _ _, rfl⟩

end Convert

end LaliRpc.Jackson.Grammar
