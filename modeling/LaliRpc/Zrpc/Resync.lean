/-
# Zrpc.Resync — what gets through, however the stream is cut

Both message loops hand on everything behind a header, so a read that does not end where
a frame ends loses its place: what follows starts in the middle of a header or of a text,
and is read as a header. Nothing false gets through all the same. The texts that are sent
are objects and arrays: none of them, and nothing that ends as one does, is read as a
length, and none is the beginning of another. So of the texts a loop hands on, those that
parse are among those sent, each once and in the order sent, for every way of cutting the
stream (`received_sublist`).

`Behind` is the invariant: what is left of the stream starts with the rest of a text, which
is refused as a header, or with a line in front of a whole text.
-/
import LaliRpc.Jackson.Accepts
import LaliRpc.Zrpc.BaseServer
import LaliRpc.Zrpc.RpcClient

namespace LaliRpc.Zrpc

open LaliRpc.Jackson LaliRpc.Jackson.Reader LaliRpc.Jackson.Grammar
open LaliRpc.Net LaliRpc.Theory LaliRpc.Theory.Fueled LaliRpc.Theory.Framing

set_option autoImplicit false

/-! ## Texts of containers -/

section Texts

variable {s t r t' r' : Bytes} {v w : Value}

theorem ends_digits {ds : Bytes} (digits : Digits ds) :
    ∃ s d, ds = s ++ [d] ∧ isDigit d = true :=
  ⟨ds.dropLast, ds.getLast digits.1, (List.dropLast_concat_getLast digits.1).symm,
    digits.2 _ (List.getLast_mem digits.1)⟩

/-- The text of a number ends with a digit, behind a width too. -/
theorem NumberText.ends {type : ValueType} (spelled : NumberText type t) :
    ∃ s d, t = s ++ [d] ∧ isDigit d = true := by
  have behind : ∀ {p q : Bytes}, (∃ s d, q = s ++ [d] ∧ isDigit d = true) →
      ∃ s d, p ++ q = s ++ [d] ∧ isDigit d = true := by
    rintro p q ⟨s, d, rfl, digit⟩
    exact ⟨p ++ s, d, (List.append_assoc _ _ _).symm, digit⟩
  have whole : ∀ {q : Bytes}, Whole q → ∃ s d, q = s ++ [d] ∧ isDigit d = true := fun digits =>
    ends_digits ⟨digits.ne_nil, digits.isDigit⟩
  cases spelled with
  | @integer sign whole' width type signed digits wide =>
      cases wide with
      | none =>
          rw [List.append_nil]
          exact behind (whole digits)
      | int32 => exact behind ⟨ascii "i3", chr '2', rfl, rfl⟩
      | int64 => exact behind ⟨ascii "i6", chr '4', rfl, rfl⟩
  | @floating sign whole' fraction exponent point power signed digits frac exp either =>
      cases exp with
      | none =>
          rw [List.append_nil]
          cases frac with
          | none =>
              rw [List.append_nil]
              exact behind (whole digits)
          | @some ds inside => exact behind (behind (p := [chr '.']) (ends_digits inside))
      | @some e sign' ds letter signed' inside =>
          refine behind ?_
          rw [← List.cons_append]
          exact behind (ends_digits inside)

/-- So does that of a 32-bit integer. -/
theorem ends_int32 {i : Int32} (d : Denotes t (.value (.int32 i))) :
    ∃ s c, t = s ++ [c] ∧ isDigit c = true := by
  cases d with
  | number number =>
      cases number with
      | converted spelled _ => exact NumberText.ends spelled

/-- A container's text ends with its bracket. -/
theorem ends_container (d : Denotes t (.value v)) (container : v.isArray = true ∨ v.isObject = true) :
    ∃ s c, t = s ++ [c] ∧ (c = chr ']' ∨ c = chr '}') := by
  cases d with
  | null | true | false | string => rcases container with h | h <;> cases h
  | number number =>
      have scalar := scalar_parseNumber (parseNumber_complete number stops_nil)
      rcases container with h | h
      · exact absurd (of_decide_eq_true h) scalar.1
      · exact absurd (of_decide_eq_true h) scalar.2
  | @emptyArray w blank => exact ⟨chr '[' :: w, chr ']', rfl, .inl rfl⟩
  | @array w t values blank inside => exact ⟨chr '[' :: (w ++ t), chr ']', rfl, .inl rfl⟩
  | @emptyObject w blank => exact ⟨0x7B :: w, chr '}', rfl, .inr rfl⟩
  | @object w t ms blank inside => exact ⟨0x7B :: (w ++ t), chr '}', rfl, .inr rfl⟩

/-- It starts with one, and nothing else starts that way. -/
theorem starts_container (d : Denotes t (.value v)) :
    (peek t = chr '[' ∨ peek t = chr '{') ↔ (v.isArray = true ∨ v.isObject = true) := by
  cases d with
  | null | true | false => decide
  | number number =>
      have scalar := scalar_parseNumber (parseNumber_complete number stops_nil)
      obtain ⟨-, first⟩ := number.start
      refine iff_of_false ?_ ?_
      · rintro (h | h) <;> rw [h] at first <;> revert first <;> decide
      · rintro (h | h)
        · exact absurd (of_decide_eq_true h) scalar.1
        · exact absurd (of_decide_eq_true h) scalar.2
  | string quoted =>
      obtain ⟨body⟩ := quoted
      refine iff_of_false ?_ ?_
      · rw [peek_cons]
        decide
      · rintro (h | h) <;> cases h
  | emptyArray | array => exact iff_of_true (.inl rfl) (.inl rfl)
  | emptyObject | object => exact iff_of_true (.inr rfl) (.inr rfl)

/-- **No container's text is the beginning of another's**, whatever stands behind. -/
theorem container_unique (d : Denotes t (.value v)) (d' : Denotes t' (.value w))
    (container : v.isArray = true ∨ v.isObject = true)
    (container' : w.isArray = true ∨ w.isObject = true) (same : t ++ r = t' ++ r') : t = t' := by
  -- a handler that is told everything and keeps nothing
  let call : Unit → Jackson.Event → Except Empty Unit := fun _ _ => .ok ()
  have quiet : ∀ (events : List Jackson.Event) (s : Bytes), Sax.tell call () events s = ok (s, ()) := by
    intro events s
    have run : events.foldlM call () = .ok () := by
      induction events with
      | nil => rfl
      | cons e events ih => exact ih
    rw [Sax.tell, run]
  have reads : Sax.Reads call t (.value v) := Sax.reads_denotes d
  have reads' : Sax.Reads call t' (.value w) := Sax.reads_denotes d'
  have read := reads (2 * (t.length + t'.length) + 1) r () (by omega) (container.imp_right .inl)
  have read' := reads' (2 * (t.length + t'.length) + 1) r' () (by omega)
    (container'.imp_right .inl)
  rw [quiet] at read read'
  rw [same, read'] at read
  cases read
  exact List.append_cancel_right same

end Texts

/-- A text that may be sent: an object or an array, on one line. -/
structure Bracketed (t : Bytes) : Prop where
  denotes : ∃ v, Denotes t (.value v) ∧ (v.isArray = true ∨ v.isObject = true)
  oneLine : 13 ∉ t

/-! ## Lines that are no header -/

/-- The last character of a line that is not blank. -/
def lastInk (line : Bytes) : UInt8 := peek (line.reverse.dropWhile isSpace)

theorem lastInk_append {s b : Bytes} {c : UInt8} (ink : isSpace c = false) (blank : Blank b) :
    lastInk (s ++ [c] ++ b) = c := by
  have behind : ∀ x ∈ b.reverse, isSpace x = true := fun x mem => blank x (List.mem_reverse.mp mem)
  rw [lastInk, List.reverse_append, List.dropWhile_append_of_pos behind, List.reverse_append,
    List.reverse_singleton, List.singleton_append, List.dropWhile_cons, ink]
  rfl

theorem isSpace_of_isDigit {c : UInt8} (digit : isDigit c = true) : isSpace c = false := by
  refine Bool.eq_false_of_not_eq_true fun space => ?_
  simp only [isSpace, Bool.or_eq_true, decide_eq_true_eq] at space
  rcases space with ((rfl | rfl) | rfl) | rfl <;> cases digit

/-- A line that declares a length ends with a digit. -/
theorem lastInk_of_headerLength {line : Bytes} {n : Nat}
    (declares : headerLength line = .ok (some n)) : isDigit (lastInk line) = true := by
  unfold headerLength at declares
  split at declares
  · cases declares
  · rename_i i parsed
    obtain ⟨pre, t, post, rfl, -, blank, d⟩ := denotes_of_parse parsed
    obtain ⟨s, c, rfl, digit⟩ := ends_int32 d
    rw [← List.append_assoc pre, lastInk_append (isSpace_of_isDigit digit) blank]
    exact digit
  · cases declares

theorem blank_crlf : Blank crlf := List.all_eq_true.mp (by decide)

/-- Neither an empty line nor one that ends with a bracket declares a length. -/
theorem refused_line {l : Bytes}
    (ends : l = [] ∨ ∃ s c, l = s ++ [c] ∧ (c = chr ']' ∨ c = chr '}')) (n : Nat) :
    headerLength (l ++ crlf) ≠ .ok (some n) := by
  intro declares
  have digit := lastInk_of_headerLength declares
  rcases ends with rfl | ⟨s, c, rfl, bracket⟩
  · revert digit
    decide
  · have ink : isSpace c = false ∧ isDigit c = false := by
      rcases bracket with rfl | rfl <;> decide
    rw [lastInk_append ink.1 blank_crlf, ink.2] at digit
    cases digit

/-! ## What is left of a stream -/

/-- The texts that may still be handed on, of a stream from some place on. -/
inductive Behind : Bytes → List Bytes → Prop where
  /-- The rest of a text. -/
  | line {l : Bytes} (ts : List Bytes) (oneLine : 13 ∉ l)
      (refused : ∀ n, headerLength (l ++ crlf) ≠ .ok (some n)) :
      Behind (l ++ crlf ++ stream frame ts) ts
  /-- A header, or what is left of it. -/
  | header {l t : Bytes} (ts : List Bytes) (oneLine : 13 ∉ l) (text : Bracketed t) :
      Behind (l ++ crlf ++ (t ++ crlf ++ stream frame ts)) (t :: ts)
  | rest {l : Bytes} (oneLine : 13 ∉ l) : Behind l []

section Suffix

variable {x u r s t : Bytes} {ts : List Bytes}

theorem suffix_append (suffix : r <:+ x ++ s) : r <:+ s ∨ ∃ u, u <:+ x ∧ r = u ++ s := by
  rcases Nat.le_total r.length s.length with short | long
  · exact .inl (List.suffix_of_suffix_length_le suffix (List.suffix_append x s) short)
  · obtain ⟨u, rfl⟩ := List.suffix_of_suffix_length_le (List.suffix_append x s) suffix long
    obtain ⟨p, whole⟩ := suffix
    rw [← List.append_assoc] at whole
    exact .inr ⟨u, ⟨p, List.append_cancel_right whole⟩, rfl⟩

theorem suffix_crlf (suffix : u <:+ x ++ crlf) :
    (∃ l, l <:+ x ∧ u = l ++ crlf) ∨ u = [10] ∨ u = [] := by
  rcases suffix_append suffix with inside | found
  · obtain ⟨p, whole⟩ := inside
    match p, whole with
    | [], whole => exact .inl ⟨[], List.nil_suffix, whole⟩
    | [a], whole =>
        cases whole
        exact .inr (.inl rfl)
    | [a, b], whole =>
        cases whole
        exact .inr (.inr rfl)
  · exact .inl found

/-- What a suffix of a text ends with. -/
theorem suffix_ends (text : Bracketed t) (suffix : u <:+ t) :
    u = [] ∨ ∃ s c, u = s ++ [c] ∧ (c = chr ']' ∨ c = chr '}') := by
  obtain ⟨v, d, container⟩ := text.denotes
  obtain ⟨s, c, rfl, bracket⟩ := ends_container d container
  rcases suffix_append suffix with inside | ⟨s', -, rfl⟩
  · rcases List.suffix_cons_iff.mp inside with rfl | empty
    · exact .inr ⟨[], c, rfl, bracket⟩
    · exact .inl (List.suffix_nil.mp empty)
  · exact .inr ⟨s', c, rfl, bracket⟩

/-- In front of a frame, the end of a line feed or nothing is part of its header. -/
theorem behind_stream {l : Bytes} (oneLine : 13 ∉ l) (all : ∀ t ∈ ts, Bracketed t) :
    Behind (l ++ stream frame ts) ts := by
  cases ts with
  | nil =>
      rw [stream_nil, List.append_nil]
      exact .rest oneLine
  | cons t ts =>
      obtain ⟨text, others⟩ := List.forall_mem_cons.mp all
      have noCR : 13 ∉ l ++ toDecimal (t.length + 2) := by
        rw [List.mem_append]
        exact not_or.mpr ⟨oneLine, cr_not_mem _⟩
      have place := Behind.header ts noCR text
      rw [stream_cons, frame]
      simpa only [List.append_assoc] using place

/-- The rest of a text. -/
theorem behind_text (text : Bracketed t) (all : ∀ t ∈ ts, Bracketed t) (suffix : u <:+ t ++ crlf) :
    Behind (u ++ stream frame ts) ts := by
  rcases suffix_crlf suffix with ⟨l, inside, rfl⟩ | rfl | rfl
  · have oneLine : 13 ∉ l := fun mem => text.oneLine (inside.subset mem)
    exact .line ts oneLine (refused_line (suffix_ends text inside))
  · exact behind_stream (by decide) all
  · exact behind_stream List.not_mem_nil all

/-- Every place in a stream, by induction on the frames in front of it. -/
theorem behind_suffix (text : Bracketed t) (all : ∀ t ∈ ts, Bracketed t)
    (suffix : r <:+ t ++ crlf ++ stream frame ts) : ∃ ts', ts' <:+ ts ∧ Behind r ts' := by
  induction ts generalizing t r with
  | nil =>
      rw [stream_nil, List.append_nil] at suffix
      have place := behind_text text all suffix
      rw [stream_nil, List.append_nil] at place
      exact ⟨[], List.suffix_rfl, place⟩
  | cons t₁ ts ih =>
      obtain ⟨text₁, others⟩ := List.forall_mem_cons.mp all
      rcases suffix_append suffix with later | ⟨u, inside, rfl⟩
      · rw [stream_cons, frame_eq, header, List.append_assoc] at later
        rcases suffix_append later with behind | ⟨h, inside, rfl⟩
        · obtain ⟨ts', shorter, place⟩ := ih text₁ others behind
          exact ⟨ts', shorter.trans (List.suffix_cons t₁ ts), place⟩
        · rcases suffix_crlf inside with ⟨d, digits, rfl⟩ | rfl | rfl
          · have oneLine : 13 ∉ d := fun mem => cr_not_mem _ (digits.subset mem)
            exact ⟨t₁ :: ts, List.suffix_rfl, .header ts oneLine text₁⟩
          · refine ⟨ts, List.suffix_cons t₁ ts, ?_⟩
            have oneLine : 13 ∉ 10 :: t₁ := by
              rw [List.mem_cons]
              exact not_or.mpr ⟨by decide, text₁.oneLine⟩
            obtain ⟨s, c, same, bracket⟩ := (suffix_ends text₁ List.suffix_rfl).resolve_left (by
              obtain ⟨v, d, -⟩ := text₁.denotes
              exact d.start.1)
            exact .line ts oneLine (refused_line (.inr ⟨10 :: s, c, by rw [same]; rfl, bracket⟩))
          · exact ⟨ts, List.suffix_cons t₁ ts, behind_text text₁ others List.suffix_rfl⟩
      · exact ⟨t₁ :: ts, List.suffix_rfl, behind_text text all inside⟩

/-- What is sent behind it is behind it. -/
theorem Behind.append (place : Behind r ts) (text : Bracketed t) :
    Behind (r ++ frame t) (ts ++ [t]) := by
  have longer (ts : List Bytes) : stream frame ts ++ frame t = stream frame (ts ++ [t]) := by
    rw [stream, stream, List.flatMap_append, List.flatMap_singleton]
  cases place with
  | line ts oneLine refused =>
      rw [List.append_assoc, longer]
      exact .line _ oneLine refused
  | header ts oneLine text' =>
      rw [List.append_assoc, List.append_assoc _ (stream frame ts), longer]
      exact .header _ oneLine text'
  | rest oneLine =>
      have place : Behind (r ++ stream frame [t]) [t] :=
        behind_stream oneLine (List.forall_mem_singleton.mpr text)
      rwa [stream_cons, stream_nil, List.append_nil] at place

end Suffix

/-! ## What a read hands on -/

/-- The value a text is parsed as, if it is. -/
def value? (text : Bytes) : Option Value := (parse text).toOption

theorem value?_eq_some {text : Bytes} {v : Value} : value? text = some v ↔ parse text = .ok v := by
  rw [value?]
  cases parse text <;> simp [Except.toOption]

/-- A read leaves what is pending, or drops a line that declares no length, or hands on all
that is behind a line. -/
inductive Outcome (p : Bytes) : List Bytes → Bytes → Prop where
  | keeps : Outcome p [] p
  | skips {i : Nat} (found : Buffer.searchCRLF p = some i) : Outcome p [] (p.drop (i + 2))
  | hands {i n : Nat} (found : Buffer.searchCRLF p = some i)
      (declares : headerLength (p.take (i + 2)) = .ok (some n)) : Outcome p [p.drop (i + 2)] []

/-- A receiver that does no more than that. -/
structure Lines {σ : Type} (r : Receiver σ UInt8 Bytes) : Prop where
  ok : ∀ s c, r.Ok s → r.Ok (r.read s c).1
  outcome : ∀ s c, r.Ok s →
    Outcome (r.pending s ++ c) (r.read s c).2 (r.pending (r.read s c).1)

/-! ### One line of the stream -/

section Line

variable {l r : Bytes} {i : Nat}

theorem searchCRLF_same (oneLine : 13 ∉ l) (found : Buffer.searchCRLF (l ++ crlf ++ r) = some i) :
    l.length = i :=
  Option.some.inj ((Buffer.searchCRLF_line oneLine r).symm.trans found)

theorem drop_line (l r : Bytes) : (l ++ crlf ++ r).drop (l.length + 2) = r :=
  List.drop_left' (by rw [List.length_append]; rfl)

theorem take_line (l r : Bytes) : (l ++ crlf ++ r).take (l.length + 2) = l ++ crlf :=
  List.take_left' (by rw [List.length_append]; rfl)

end Line

section Step

variable {p rest t D : Bytes} {ts : List Bytes} {out : List Bytes} {left : Bytes}

/-- What is handed on from the beginning of a text is that text, or does not parse. -/
theorem handed_text (text : Bracketed t) (all : ∀ t ∈ ts, Bracketed t)
    (whole : D ++ rest = t ++ crlf ++ stream frame ts) :
    (value? D = none ∨ value? D = value? t) ∧ ∃ ts', ts' <:+ ts ∧ Behind rest ts' := by
  refine ⟨?_, behind_suffix text all ⟨D, whole⟩⟩
  cases parsed : value? D with
  | none => exact .inl rfl
  | some v =>
      refine .inr ?_
      obtain ⟨v', d', container⟩ := text.denotes
      have keyed := parse_wellKeyed (value?_eq_some.mp parsed)
      obtain ⟨pre, d, post, rfl, blank, -, dd⟩ := denotes_of_parse (value?_eq_some.mp parsed)
      obtain ⟨ne, noSpace, -⟩ := d'.start
      -- a text starts with no blank
      obtain rfl : pre = [] := by
        cases pre with
        | nil => rfl
        | cons c pre =>
            have first := congrArg peek whole
            rw [List.append_assoc t, peek_append ne] at first
            rw [← first, show peek (c :: pre ++ d ++ post ++ rest) = c from rfl,
              blank c List.mem_cons_self] at noSpace
            cases noSpace
      rw [List.nil_append, List.append_assoc, List.append_assoc] at whole
      have first := congrArg peek whole
      rw [peek_append dd.start.1, peek_append ne] at first
      have container' := (starts_container dd).mp (first ▸ (starts_container d').mpr container)
      obtain rfl := container_unique dd d' container' container whole
      have again : parse ([] ++ d ++ []) = .ok v := parse_of_denotes dd nofun nofun keyed
      rw [List.nil_append, List.append_nil] at again
      exact (value?_eq_some.mpr again).symm

/-- One read. -/
theorem behind_step (place : Behind (p ++ rest) ts) (all : ∀ t ∈ ts, Bracketed t)
    (outcome : Outcome p out left) : ∃ ts', Behind (left ++ rest) ts' ∧ ts' <:+ ts ∧
      (out.filterMap value? ++ ts'.filterMap value?).Sublist (ts.filterMap value?) := by
  cases outcome with
  | keeps => exact ⟨ts, place, List.suffix_rfl, List.Sublist.refl _⟩
  | @skips i found =>
      have found' := Buffer.searchCRLF_append found rest
      have dropped : p.drop (i + 2) ++ rest = (p ++ rest).drop (i + 2) :=
        (List.drop_append_of_le_length (Buffer.searchCRLF_some found).1).symm
      rw [dropped]
      generalize p ++ rest = q at place found'
      cases place with
      | line ts oneLine refused =>
          obtain rfl := searchCRLF_same oneLine found'
          refine ⟨ts, ?_, List.suffix_rfl, List.Sublist.refl _⟩
          rw [drop_line]
          exact behind_stream List.not_mem_nil all
      | @header l t ts oneLine text =>
          obtain rfl := searchCRLF_same oneLine found'
          refine ⟨ts, ?_, List.suffix_cons t ts, (List.suffix_cons t ts).sublist.filterMap _⟩
          rw [drop_line]
          exact behind_text text (List.forall_mem_cons.mp all).2 List.suffix_rfl
      | rest oneLine =>
          rw [Buffer.searchCRLF_none fun mem => oneLine (List.dropLast_subset _ mem)] at found'
          cases found'
  | @hands i n found declares =>
      have found' := Buffer.searchCRLF_append found rest
      have long := (Buffer.searchCRLF_some found).1
      have dropped : p.drop (i + 2) ++ rest = (p ++ rest).drop (i + 2) :=
        (List.drop_append_of_le_length long).symm
      have taken : p.take (i + 2) = (p ++ rest).take (i + 2) :=
        (List.take_append_of_le_length long).symm
      rw [taken] at declares
      generalize p.drop (i + 2) = D at dropped ⊢
      generalize p ++ rest = q at place found' declares dropped
      cases place with
      | line ts oneLine refused =>
          obtain rfl := searchCRLF_same oneLine found'
          rw [take_line] at declares
          exact absurd declares (refused n)
      | @header l t ts oneLine text =>
          obtain rfl := searchCRLF_same oneLine found'
          rw [drop_line] at dropped
          obtain ⟨text', ts', shorter, later⟩ :=
            handed_text text (List.forall_mem_cons.mp all).2 dropped
          refine ⟨ts', later, shorter.trans (List.suffix_cons t ts), ?_⟩
          have tail := shorter.sublist.filterMap value?
          rw [List.filterMap_cons, List.filterMap_cons, List.filterMap_nil]
          rcases text' with none | same
          · rw [none]
            cases value? t with
            | none => exact tail
            | some v => exact tail.cons v
          · rw [same]
            cases value? t with
            | none => exact tail
            | some v => exact tail.cons_cons v
      | rest oneLine =>
          rw [Buffer.searchCRLF_none fun mem => oneLine (List.dropLast_subset _ mem)] at found'
          cases found'

end Step

/-! ## One direction of a connection -/

/-- What was sent, what has been handed on of it, and the bytes that are left: the rest of
what was sent is behind some place of them. -/
def Channel (sent handed : List Value) (left : Bytes) : Prop :=
  ∃ ts, Behind left ts ∧ (∀ t ∈ ts, Bracketed t) ∧
    (handed ++ ts.filterMap value?).Sublist sent

namespace Channel

variable {sent handed : List Value} {left : Bytes}

theorem start : Channel [] [] [] :=
  ⟨[], .rest List.not_mem_nil, fun _ mem => absurd mem List.not_mem_nil, List.Sublist.refl _⟩

theorem sublist (channel : Channel sent handed left) : handed.Sublist sent := by
  obtain ⟨ts, -, -, all⟩ := channel
  exact (List.sublist_append_left handed _).trans all

/-- Texts on the wire from the beginning on. -/
theorem of_stream {ts : List Bytes} (all : ∀ t ∈ ts, Bracketed t) :
    Channel (ts.filterMap value?) [] (stream frame ts) :=
  ⟨ts, behind_stream (l := []) List.not_mem_nil all, all, List.Sublist.refl _⟩

/-- Another text is sent. -/
theorem send (channel : Channel sent handed left) {t : Bytes} (text : Bracketed t) :
    Channel (sent ++ [t].filterMap value?) handed (left ++ frame t) := by
  obtain ⟨ts, place, all, sublist⟩ := channel
  refine ⟨ts ++ [t], place.append text, ?_, ?_⟩
  · exact List.forall_mem_append.mpr ⟨all, List.forall_mem_singleton.mpr text⟩
  · rw [List.filterMap_append, ← List.append_assoc]
    exact sublist.append (List.Sublist.refl _)

/-- A part of what is left is read. -/
theorem read {p rest left' : Bytes} {out : List Bytes} (channel : Channel sent handed (p ++ rest))
    (outcome : Outcome p out left') :
    Channel sent (handed ++ out.filterMap value?) (left' ++ rest) := by
  obtain ⟨ts, place, all, sublist⟩ := channel
  obtain ⟨ts', later, shorter, fewer⟩ := behind_step place all outcome
  refine ⟨ts', later, fun t mem => all t (shorter.subset mem), ?_⟩
  rw [List.append_assoc]
  exact ((List.Sublist.refl handed).append fewer).trans sublist

/-- Read after read. -/
theorem feed {σ : Type} {r : Receiver σ UInt8 Bytes} (lines : Lines r) (reads : List Bytes)
    {s : σ} (ok : r.Ok s) {rest : Bytes} {handed : List Value}
    (channel : Channel sent handed (r.pending s ++ reads.flatten ++ rest)) :
    Channel sent (handed ++ (Framing.feed r s reads).1.flatten.filterMap value?)
      (r.pending (Framing.feed r s reads).2 ++ rest) := by
  induction reads generalizing s handed with
  | nil => simpa [Framing.feed] using channel
  | cons c reads ih =>
      have channel' : Channel sent handed ((r.pending s ++ c) ++ (reads.flatten ++ rest)) := by
        simpa only [List.flatten_cons, List.append_assoc] using channel
      have next := channel'.read (lines.outcome s c ok)
      rw [← List.append_assoc] at next
      have others := ih (lines.ok s c ok) next
      rw [List.append_assoc, ← List.filterMap_append, ← List.flatten_cons] at others
      exact others

end Channel

/-- **However the stream is cut**, the texts handed on that parse are among those sent, in
order and each once. -/
theorem handed_sublist {σ : Type} {r : Receiver σ UInt8 Bytes} (lines : Lines r) {s : σ}
    (ok : r.Ok s) (empty : r.pending s = []) {texts reads : List Bytes}
    (bracketed : ∀ t ∈ texts, Bracketed t) (whole : reads.flatten <+: stream frame texts) :
    ((feed r s reads).1.flatten.filterMap value?).Sublist (texts.filterMap value?) := by
  obtain ⟨rest, whole⟩ := whole
  have channel : Channel (texts.filterMap value?) [] (r.pending s ++ reads.flatten ++ rest) := by
    rw [empty, List.nil_append, whole]
    exact .of_stream bracketed
  exact (Channel.feed lines reads ok channel).sublist

/-! ## The two loops -/

theorem lines_of_pass {loop : Loop Buffer Bytes Thrown} {limit : Nat}
    (h : HandlesFrames limit Exec.emit loop)
    (outcome : ∀ b, b.Valid →
      Outcome b.readable (loop.body b).ended.events (loop.body b).ended.state.readable) :
    Lines (receiver loop) where
  ok b c valid := by
    show (loop.run (b.readFd c)).state.Valid
    rw [h.run_eq]
    exact h.valid _ (Buffer.valid_readFd valid c)
  outcome b c valid := by
    show Outcome (b.readable ++ c) (loop.run (b.readFd c)).events (loop.run (b.readFd c)).state.readable
    rw [h.run_eq, ← Buffer.readable_readFd valid]
    exact outcome _ (Buffer.valid_readFd valid c)

theorem dispatch_outcome {b : Buffer} (valid : b.Valid) {i n : Nat} (found : b.findCRLF = some i)
    (declares : headerLength (b.readable.take (i + 2)) = .ok (some n)) :
    let ended := (dispatchMessage (Exec.emit : Bytes → Exec Bytes Thrown Unit) b (i + 2) n).ended
    Outcome b.readable ended.events ended.state.readable := by
  intro ended
  by_cases short : b.readableBytes < i + 2 + n
  · have waits : ended = ⟨b, [], none⟩ := by
      simp only [ended, dispatchMessage_waits short]
      rfl
    rw [waits]
    exact .keeps
  · have behind : (b.retrieve (i + 2)).readable = b.readable.drop (i + 2) :=
      Buffer.readable_retrieve valid (i + 2)
    have done : ended = ⟨(b.retrieve (i + 2)).retrieveAll, [b.readable.drop (i + 2)], none⟩ := by
      simp only [ended, dispatchMessage, if_neg short, Buffer.retrieveAsString, behind]
      rfl
    rw [done]
    show Outcome b.readable [b.readable.drop (i + 2)] (b.retrieve (i + 2)).retrieveAll.readable
    rw [Buffer.readable_retrieveAll]
    exact .hands found declares

theorem BaseServer.lines : Lines (receiver requests) := by
  refine lines_of_pass (handlesFrames Exec.emit) fun b valid => ?_
  show Outcome b.readable (handleMessagePass Exec.emit b).ended.events
    (handleMessagePass Exec.emit b).ended.state.readable
  unfold handleMessagePass
  split
  · exact .keeps
  · rename_i i found
    split
    · rename_i zero
      subst zero
      show Outcome b.readable [] (b.retrieve 2).readable
      rw [Buffer.readable_retrieve valid 2]
      exact .skips found
    · split
      · exact .keeps
      · exact .keeps
      · rename_i n declares
        split
        · exact .keeps
        · exact dispatch_outcome valid found declares

theorem RpcClient.lines : Lines (receiver responses) := by
  refine lines_of_pass (handlesFrames Exec.emit) fun b valid => ?_
  show Outcome b.readable (handleMessagePass Exec.emit b).ended.events
    (handleMessagePass Exec.emit b).ended.state.readable
  unfold handleMessagePass
  split
  · exact .keeps
  · rename_i i found
    split
    · exact .keeps
    · show Outcome b.readable [] (b.retrieve (i + 2)).readable
      rw [Buffer.readable_retrieve valid (i + 2)]
      exact .skips found
    · rename_i n declares
      split
      · exact .keeps
      · exact dispatch_outcome valid found declares

/-- **Nothing false gets through**, in either direction: of the texts that are handed on,
those that parse are among those that were sent, in order and each once, for every way of
cutting the stream. -/
theorem received_sublist {texts reads : List Bytes} (bracketed : ∀ t ∈ texts, Bracketed t)
    (whole : reads.flatten <+: stream frame texts) :
    ((BaseServer.serve reads).1.flatten.filterMap value?).Sublist (texts.filterMap value?) ∧
      ((RpcClient.listen reads).1.flatten.filterMap value?).Sublist (texts.filterMap value?) :=
  ⟨handed_sublist BaseServer.lines Buffer.valid_fresh Buffer.readable_fresh bracketed whole,
    handed_sublist RpcClient.lines Buffer.valid_fresh Buffer.readable_fresh bracketed whole⟩

/-- Two texts, the first of which is read with the beginning of the second's frame. -/
theorem cut_sublist :
    let texts := [ascii "[]", ascii "\x7b\x7d"]
    let reads := [ascii "4\r\n[]\r\n4\r", ascii "\n\x7b\x7d\r\n"]
    ((BaseServer.serve reads).1.flatten.filterMap value?).Sublist (texts.filterMap value?) ∧
      ((RpcClient.listen reads).1.flatten.filterMap value?).Sublist (texts.filterMap value?) := by
  have array : Bracketed (ascii "[]") := ⟨⟨_, .emptyArray (w := []) nofun, .inl rfl⟩, by decide⟩
  have object : Bracketed (ascii "\x7b\x7d") :=
    ⟨⟨_, .emptyObject (w := []) nofun, .inr rfl⟩, by decide⟩
  exact received_sublist (List.forall_mem_cons.mpr ⟨array, List.forall_mem_singleton.mpr object⟩)
    ⟨[], by decide⟩

end LaliRpc.Zrpc
