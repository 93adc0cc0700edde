/-
# Jackson.Accepts — what the parser accepts

The reader over a fresh document is `parse`: the reader as the source has it, telling a
handler, ends on every input as the reader that returns its value (`parse_ends`). The
two are run side by side by the draft the document is at.

With what the reader tells of a text of the grammar, this makes the parser exact: it
returns a value on the texts of that value between blanks, unless the value repeats a
member name, and on nothing else (`parse_ok_iff`).
-/
import LaliRpc.Jackson.Document

namespace LaliRpc.Jackson

open Reader Theory Theory.Fueled Grammar

set_option autoImplicit false

namespace Document

/-- `Document::parse`. -/
def parse (d : Document) (s : Bytes) : Fueled (Sax.Fault Fault) Document := Sax.parse call s d

/-- The reader over the document ends as the reader that returns the value, which is then
in its gap. -/
def Agrees (gaps : List Gap) (x : Fueled (Sax.Fault Fault) (Bytes × Document))
    (y : Fueled ParseFault (Value × Bytes)) : Prop :=
  match y with
  | none => x = none
  | some (.error f) => x = fault (.parse f) ∨ f = .assertion ∧ x = fault (.handler .assertion)
  | some (.ok (v, r)) => ∃ d, x = ok (r, d) ∧ Represents d (Draft.put v gaps)

section Agree

variable {d : Document} {draft : Draft} {gaps gaps' : List Gap} {s : Bytes} {e : Event}
  {x : Fueled (Sax.Fault Fault) (Bytes × Document)} {y : Fueled ParseFault (Value × Bytes)}

theorem agrees_error (gaps : List Gap) (e : ParseError) :
    Agrees gaps (Sax.error e) (fault (.error e)) := .inl rfl

theorem Agrees.andThen {k : Bytes × Document → Fueled (Sax.Fault Fault) (Bytes × Document)}
    {l : Value × Bytes → Fueled ParseFault (Value × Bytes)} (first : Agrees gaps x y)
    (rest : ∀ d v r, Represents d (Draft.put v gaps) → Agrees gaps' (k (r, d)) (l (v, r))) :
    Agrees gaps' (andThen x k) (andThen y l) := by
  match y, first with
  | none, same =>
      rw [show x = none from same]
      exact rfl
  | some (.error f), .inl same =>
      rw [same]
      exact .inl rfl
  | some (.error f), .inr ⟨failed, same⟩ =>
      rw [same]
      exact .inr ⟨failed, rfl⟩
  | some (.ok (v, r)), ⟨d, same, rep⟩ =>
      rw [same]
      exact rest d v r rep

/-- A scan, which no handler hears of. -/
theorem agrees_lift {α : Type} {z : Fueled ParseFault α}
    {k : α → Fueled (Sax.Fault Fault) (Bytes × Document)}
    {l : α → Fueled ParseFault (Value × Bytes)}
    (rest : ∀ a, z = ok a → Agrees gaps (k a) (l a)) :
    Agrees gaps (andThen (Sax.lift z) k) (andThen z l) := by
  match z, rest with
  | none, _ => exact rfl
  | some (.error f), _ => exact .inl rfl
  | some (.ok a), rest => exact rest a rfl

/-- A call the draft allows, and what follows it. -/
theorem agrees_tell {k : Bytes × Document → Fueled (Sax.Fault Fault) (Bytes × Document)}
    (draft' : Draft) (rep : Represents d draft) (allowed : draft.call e = some draft')
    (rest : ∀ d', Represents d' draft' → Agrees gaps (k (s, d')) y) :
    Agrees gaps (andThen (Sax.tell call d [e] s) k) y := by
  have follows := call_follows rep e
  rw [allowed] at follows
  obtain ⟨d', called, rep'⟩ := follows
  have told : Sax.tell call d [e] s = ok (s, d') := by
    simp only [Sax.tell, List.foldlM_cons, List.foldlM_nil, called]
    rfl
  rw [told]
  exact rest d' rep'

/-- The call that completes a container. -/
theorem agrees_tell_end {v : Value} (rep : Represents d draft)
    (allowed : draft.call e = some (Draft.put v gaps)) :
    Agrees gaps (Sax.tell call d [e] s) (ok (v, s)) := by
  have follows := call_follows rep e
  rw [allowed] at follows
  obtain ⟨d', called, rep'⟩ := follows
  refine ⟨d', ?_, rep'⟩
  simp only [Sax.tell, List.foldlM_cons, List.foldlM_nil, called]
  rfl

/-- The calls of a value, where a value is expected. -/
theorem writeTo_follows {v : Value} (rep : Represents d (.value gaps)) (keyed : v.WellKeyed) :
    Agrees gaps (Sax.tell call d v.writeTo s)
      (if free gaps = true then ok (v, s) else fault .assertion) := by
  have follows := call_run v.writeTo rep
  split
  · rename_i isFree
    rw [Draft.call_writeTo v gaps keyed isFree] at follows
    obtain ⟨d', called, rep'⟩ := follows
    exact ⟨d', by rw [Sax.tell, called], rep'⟩
  · rename_i taken
    rw [Draft.call_writeTo_taken v (Bool.eq_false_of_not_eq_true taken)] at follows
    exact .inr ⟨rfl, by rw [Sax.tell, show List.foldlM call d v.writeTo = _ from follows]⟩

theorem agrees_scalar {z : Fueled ParseFault (Value × Bytes)} (rep : Represents d (.value gaps))
    (isScalar : ∀ v r, z = ok (v, r) → scalar v) :
    Agrees gaps (Sax.scalar call d z) (place (!free gaps) z) := by
  refine agrees_lift fun a parsed => ?_
  have agrees := writeTo_follows (s := a.2) rep (wellKeyed_scalar (isScalar a.1 a.2 parsed))
  cases isFree : free gaps <;> rw [isFree] at agrees <;> exact agrees

/-! ### One step of each parser -/

def ValuesAgree (n : Nat) : Prop :=
  ∀ gaps s d, Represents d (.value gaps) →
    Agrees gaps (Sax.parseValue call n s d) (parseValue n (!free gaps) s)

def ArraysAgree (n : Nat) : Prop :=
  ∀ values gaps s d, Represents d (.value (.element values :: gaps)) →
    Agrees gaps (Sax.parseArray call n s d) (parseArray n values s)

def ObjectsAgree (n : Nat) : Prop :=
  ∀ members gaps s d, Represents d (.name members gaps) →
    Agrees gaps (Sax.parseObject call n s d) (parseObject n members s)

/-- An opening bracket; the handler fails where the name is taken. -/
theorem agrees_opening
    {k : Bytes × Document → Fueled (Sax.Fault Fault) (Bytes × Document)} (opened : Draft)
    (rep : Represents d (.value gaps))
    (start : (Draft.value gaps).call e = if free gaps then some opened else none)
    (rest : ∀ d', Represents d' opened → Agrees gaps (k (s, d')) y) :
    Agrees gaps (Theory.Fueled.andThen (Sax.tell call d [e] s) k)
      (if (!free gaps) = true then fault .assertion else y) := by
  cases isFree : free gaps with
  | false =>
      rw [isFree] at start
      have follows := call_follows rep e
      rw [start] at follows
      have told : Sax.tell call d [e] s = fault (.handler .assertion) := by
        simp only [Sax.tell, List.foldlM_cons, show d.call e = .error .assertion from follows]
        rfl
      rw [told]
      exact .inr ⟨rfl, rfl⟩
  | true =>
      rw [isFree] at start
      exact agrees_tell opened rep start rest

theorem parseValue_agrees {n : Nat} (arrays : ArraysAgree n) (objects : ObjectsAgree n) :
    ValuesAgree (n + 1) := by
  intro gaps s d rep
  rw [Sax.parseValue, parseValue]
  split
  · exact agrees_error gaps .expectValue
  have literal : ∀ {text : String} {v : Value}, scalar v →
      Agrees gaps (Sax.scalar call d (some (parseLiteral text v s)))
        (place (!free gaps) (some (parseLiteral text v s))) := fun isScalar =>
    agrees_scalar rep fun v r parsed => parseLiteral_value (Option.some.inj parsed) ▸ isScalar
  split
  · exact literal (by simp [scalar, Value.getType])
  split
  · exact literal (by simp [scalar, Value.getType])
  split
  · exact literal (by simp [scalar, Value.getType])
  split
  · refine agrees_scalar rep fun v r parsed => ?_
    cases scanned : parseString s with
    | none =>
        rw [scanned] at parsed
        cases parsed
    | some result =>
        rw [scanned] at parsed
        cases result with
        | error f => cases parsed
        | ok chars =>
            cases parsed
            simp [scalar, Value.getType]
  split
  · refine agrees_opening (.value (.element [] :: gaps)) rep rfl fun d' rep' => ?_
    dsimp only
    split
    · exact agrees_tell_end rep' rfl
    · exact arrays [] gaps _ d' rep'
  split
  · refine agrees_opening (.name [] gaps) rep rfl fun d' rep' => ?_
    dsimp only
    split
    · exact agrees_tell_end rep' rfl
    · exact objects [] gaps _ d' rep'
  · exact agrees_scalar rep fun v r parsed => scalar_parseNumber (Option.some.inj parsed)

theorem parseArray_agrees {n : Nat} (agree : ValuesAgree n) (arrays : ArraysAgree n) :
    ArraysAgree (n + 1) := by
  intro values gaps s d rep
  rw [Sax.parseArray, parseArray]
  refine (agree _ s d rep).andThen fun d' v r rep' => ?_
  dsimp only
  split
  · exact arrays (values ++ [v]) gaps _ d' rep'
  · split
    · exact agrees_tell_end rep' rfl
    · exact agrees_error gaps .missCommaOrSquareBracket

theorem parseObject_agrees {n : Nat} (agree : ValuesAgree n) (objects : ObjectsAgree n) :
    ObjectsAgree (n + 1) := by
  intro members gaps s d rep
  rw [Sax.parseObject, parseObject]
  split
  · exact agrees_error gaps .missKey
  refine agrees_lift fun read _ => ?_
  obtain ⟨key, r⟩ := read
  refine agrees_tell (.value (.member members key :: gaps)) rep rfl fun d' rep' => ?_
  dsimp only
  split
  · exact agrees_error gaps .missColon
  have taken : (members.lookup key).isSome = !free (.member members key :: gaps) := by
    rw [free, Option.not_isNone]
  rw [taken]
  refine (agree _ _ d' rep').andThen fun d'' v r rep'' => ?_
  dsimp only
  split
  · exact objects (members ++ [(key, v)]) gaps _ d'' rep''
  · split
    · exact agrees_tell_end rep'' rfl
    · exact agrees_error gaps .missCommaOrCurlyBracket

/-- One induction on the fuel, of both readers. -/
theorem readers_agree (n : Nat) : ValuesAgree n ∧ ArraysAgree n ∧ ObjectsAgree n := by
  induction n with
  | zero =>
      refine ⟨?_, ?_, ?_⟩
      · intro gaps s d rep
        exact rfl
      · intro values gaps s d rep
        exact rfl
      · intro members gaps s d rep
        exact rfl
  | succ n ih =>
      obtain ⟨agree, arrays, objects⟩ := ih
      exact ⟨parseValue_agrees arrays objects, parseArray_agrees agree arrays,
        parseObject_agrees agree objects⟩

end Agree

/-- A parse into a fresh document ends with the outcome: the document is the value, or
parsing stopped with the error, or an assertion failed. -/
def Ends (x : Fueled (Sax.Fault Fault) Document) : Except ParseFault Value → Prop
  | .ok v => ∃ key, x = ok ⟨v, key, true, []⟩
  | .error f => x = fault (.parse f) ∨ f = .assertion ∧ x = fault (.handler .assertion)

theorem parse_ends (s : Bytes) : Ends (fresh.parse s) (Jackson.parse s) := by
  have root : Reader.parseRoot s = some (Jackson.parse s) := by simp [Jackson.parse]
  have agree := (readers_agree (2 * s.length + 1)).1 [] (parseWhitespace s) fresh (.fresh .null)
  rw [parseRoot] at root
  rw [parse, Sax.parse]
  rw [show (!free []) = false from rfl] at agree
  generalize Sax.parseValue call _ _ fresh = x at agree ⊢
  generalize parseValue _ false _ = y at agree root
  rcases y with - | f | ⟨v, r⟩
  · cases root
  · rw [← show Except.error f = Jackson.parse s from Option.some.inj root]
    refine agree.imp (fun same => ?_) (And.imp_right fun same => ?_) <;> rw [same] <;> rfl
  · obtain ⟨d, same, rep⟩ := agree
    rw [same]
    by_cases done : parseWhitespace r = []
    · have value : Except.ok v = Jackson.parse s := by
        simpa only [andThen, if_pos done, ok, Option.some.injEq] using root
      rw [← value]
      cases rep
      exact ⟨_, if_pos done⟩
    · have failed : Except.error (.error .rootNotSingular) = Jackson.parse s := by
        simpa only [andThen, if_neg done, fault, Option.some.injEq] using root
      rw [← failed]
      exact .inl (if_neg done)

/-- No value is read without a call. -/
theorem parseValue_tells {σ φ : Type} {call : σ → Event → Except φ σ} {h : σ}
    (refuses : ∀ e, ∃ f, call h e = .error f) (n : Nat) (s : Bytes) (p : Bytes × σ) :
    Sax.parseValue call n s h ≠ ok p := by
  have refused : ∀ (e : Event) (es : List Event) (s : Bytes) (p : Bytes × σ),
      Sax.tell call h (e :: es) s ≠ ok p := by
    intro e es s p told
    obtain ⟨f, failed⟩ := refuses e
    simp only [Sax.tell, List.foldlM_cons, failed] at told
    cases told
  have scalar : ∀ (x : Fueled ParseFault (Value × Bytes)), Sax.scalar call h x ≠ ok p := by
    intro x told
    obtain ⟨⟨v, r⟩, -, told⟩ := andThen_eq_ok.mp told
    cases v <;> exact refused _ _ _ _ told
  cases n with
  | zero =>
      intro parsed
      cases parsed
  | succ n =>
      rw [Sax.parseValue]
      split
      · intro parsed
        cases parsed
      split
      · exact scalar _
      split
      · exact scalar _
      split
      · exact scalar _
      split
      · exact scalar _
      split
      · intro parsed
        obtain ⟨p', told, -⟩ := andThen_eq_ok.mp parsed
        exact refused _ _ _ _ told
      split
      · intro parsed
        obtain ⟨p', told, -⟩ := andThen_eq_ok.mp parsed
        exact refused _ _ _ _ told
      · exact scalar _

/-- **The reader over a document.** On every input it ends as `parse` does, and never
follows a dangling pointer; a document that has parsed a value parses no other. -/
theorem parse_document (s : Bytes) : Ends (fresh.parse s) (Jackson.parse s) ∧
    ∀ d, fresh.parse s = ok d → ∀ s' d', d.parse s' ≠ ok d' := by
  have ends := parse_ends s
  refine ⟨ends, fun d parsed s' d' again => ?_⟩
  rw [parsed] at ends
  cases outcome : Jackson.parse s with
  | error f =>
      rw [outcome] at ends
      rcases ends with same | ⟨-, same⟩ <;> cases same
  | ok v =>
      rw [outcome] at ends
      obtain ⟨key, same⟩ := ends
      cases same
      have refuses : ∀ e, ∃ f, call ⟨v, key, true, []⟩ e = .error f := by
        intro e
        have follows := call_follows (.whole v key) e
        have never : (Draft.whole v).call e = none := by cases e <;> rfl
        rw [never] at follows
        exact ⟨.assertion, follows⟩
      obtain ⟨p, told, -⟩ := andThen_eq_ok.mp again
      exact parseValue_tells refuses _ _ _ told

end Document

/-! ## What is accepted -/

namespace Reader

section Sound

variable {n : Nat} {s r : Bytes} {v : Value}

theorem place_eq_ok {taken : Bool} {x : Fueled ParseFault (Value × Bytes)}
    (placed : place taken x = ok (v, r)) : x = ok (v, r) := by
  obtain ⟨a, parsed, same⟩ := andThen_eq_ok.mp placed
  split at same
  · cases same
  · cases same
    exact parsed

/-- What is left of the text of a value. -/
def ValuesSound (n : Nat) : Prop :=
  ∀ taken s v r, parseValue n taken s = ok (v, r) → ∃ t, s = t ++ r ∧ Denotes t (.value v)

def ArraysSound (n : Nat) : Prop :=
  ∀ values s v r, parseArray n values s = ok (v, r) →
    ∃ t more, s = t ++ chr ']' :: r ∧ v = .array (values ++ more) ∧ Denotes t (.elements more)

def ObjectsSound (n : Nat) : Prop :=
  ∀ members s v r, parseObject n members s = ok (v, r) →
    ∃ t more, s = t ++ chr '}' :: r ∧ v = .object (members ++ more) ∧ Denotes t (.members more)

theorem parseLiteral_sound {taken : Bool} {literal : String} {value : Value}
    (text : Denotes (ascii literal) (.value value))
    (placed : place taken (some (parseLiteral literal value s)) = ok (v, r)) :
    ∃ t, s = t ++ r ∧ Denotes t (.value v) := by
  obtain ⟨rfl, split⟩ := parseLiteral_iff.mp (Option.some.inj (place_eq_ok placed))
  exact ⟨_, split, text⟩

theorem parseValue_sound (arrays : ArraysSound n) (objects : ObjectsSound n) :
    ValuesSound (n + 1) := by
  intro taken s v r parsed
  rw [parseValue] at parsed
  split at parsed
  · cases parsed
  split at parsed
  · exact parseLiteral_sound .null parsed
  split at parsed
  · exact parseLiteral_sound .true parsed
  split at parsed
  · exact parseLiteral_sound .false parsed
  split at parsed
  · rename_i quote
    obtain ⟨⟨chars, rest⟩, string, same⟩ := andThen_eq_ok.mp (place_eq_ok parsed)
    cases same
    obtain ⟨t, split, quoted⟩ := parseString_sound quote string
    exact ⟨t, split, .string quoted⟩
  split at parsed
  · rename_i opening
    split at parsed
    · cases parsed
    have front := cons_of_peek opening (by decide)
    obtain ⟨w, blank, white⟩ := parseWhitespace_split s.tail
    dsimp only at parsed
    split at parsed
    · rename_i closing
      cases parsed
      refine ⟨chr '[' :: (w ++ [chr ']']), ?_, .emptyArray blank⟩
      rw [List.cons_append, List.append_assoc, List.singleton_append,
        ← cons_of_peek closing (by decide), ← white]
      exact front
    · obtain ⟨t, more, inside, rfl, d⟩ := arrays _ _ _ _ parsed
      refine ⟨chr '[' :: (w ++ t ++ [chr ']']), ?_, .array blank d⟩
      rw [List.cons_append, List.append_assoc, List.append_assoc, List.singleton_append, ← inside,
        ← white]
      exact front
  split at parsed
  · rename_i opening
    split at parsed
    · cases parsed
    have front := cons_of_peek opening (by decide)
    obtain ⟨w, blank, white⟩ := parseWhitespace_split s.tail
    dsimp only at parsed
    split at parsed
    · rename_i closing
      cases parsed
      refine ⟨0x7B :: (w ++ [0x7D]), ?_, .emptyObject blank⟩
      have behind : parseWhitespace s.tail = 0x7D :: (parseWhitespace s.tail).tail :=
        cons_of_peek closing (by decide)
      rw [List.cons_append, List.append_assoc, List.singleton_append, ← behind, ← white]
      exact front
    · obtain ⟨t, more, inside, rfl, d⟩ := objects _ _ _ _ parsed
      refine ⟨0x7B :: (w ++ t ++ [0x7D]), ?_, .object blank d⟩
      have inside' : parseWhitespace s.tail = t ++ 0x7D :: r := inside
      rw [List.cons_append, List.append_assoc, List.append_assoc, List.singleton_append, ← inside',
        ← white]
      exact front
  · obtain ⟨t, split, number⟩ := parseNumber_sound (Option.some.inj (place_eq_ok parsed))
    exact ⟨t, split, .number number⟩

theorem parseArray_sound (values : ValuesSound n) (arrays : ArraysSound n) :
    ArraysSound (n + 1) := by
  intro before s v r parsed
  rw [parseArray] at parsed
  obtain ⟨⟨first, rest⟩, value, loop⟩ := andThen_eq_ok.mp parsed
  obtain ⟨t, text, d⟩ := values _ _ _ _ value
  obtain ⟨w, blank, white⟩ := parseWhitespace_split rest
  dsimp only at loop
  split at loop
  · rename_i comma
    have behind := cons_of_peek comma (by decide)
    obtain ⟨w', blank', white'⟩ := parseWhitespace_split (parseWhitespace rest).tail
    obtain ⟨ts, more, inside, rfl, d'⟩ := arrays _ _ _ _ loop
    refine ⟨t ++ w ++ chr ',' :: (w' ++ ts), first :: more, ?_, ?_, .element d blank blank' d'⟩
    · simp only [List.cons_append, List.append_assoc]
      rw [← inside, ← white', ← behind, ← white]
      exact text
    · rw [List.append_assoc, List.singleton_append]
  · split at loop
    · rename_i closing
      have behind := cons_of_peek closing (by decide)
      cases loop
      refine ⟨t ++ w, [first], ?_, rfl, .lastElement d blank⟩
      rw [List.append_assoc, ← behind, ← white]
      exact text
    · cases loop

theorem parseObject_sound (values : ValuesSound n) (objects : ObjectsSound n) :
    ObjectsSound (n + 1) := by
  intro before s v r parsed
  rw [parseObject] at parsed
  split at parsed
  · cases parsed
  rename_i quote
  obtain ⟨⟨key, rest⟩, string, member⟩ := andThen_eq_ok.mp parsed
  obtain ⟨k, text, name⟩ := parseString_sound (not_not.mp quote) string
  obtain ⟨w₁, blank₁, white₁⟩ := parseWhitespace_split rest
  dsimp only at member
  split at member
  · cases member
  rename_i colon
  have behind₁ := cons_of_peek (not_not.mp colon) (by decide)
  obtain ⟨w₂, blank₂, white₂⟩ := parseWhitespace_split (parseWhitespace rest).tail
  obtain ⟨⟨value, rest'⟩, first, loop⟩ := andThen_eq_ok.mp member
  obtain ⟨t, text', d⟩ := values _ _ _ _ first
  obtain ⟨w, blank, white⟩ := parseWhitespace_split rest'
  dsimp only at loop
  split at loop
  · rename_i comma
    have behind := cons_of_peek comma (by decide)
    obtain ⟨w', blank', white'⟩ := parseWhitespace_split (parseWhitespace rest').tail
    obtain ⟨ts, more, inside, rfl, d'⟩ := objects _ _ _ _ loop
    refine ⟨k ++ w₁ ++ chr ':' :: (w₂ ++ t ++ w ++ chr ',' :: (w' ++ ts)), (key, value) :: more,
      ?_, ?_, .member name blank₁ blank₂ d blank blank' d'⟩
    · simp only [List.cons_append, List.append_assoc]
      rw [← inside, ← white', ← behind, ← white, ← text', ← white₂, ← behind₁, ← white₁]
      exact text
    · rw [List.append_assoc, List.singleton_append]
  · split at loop
    · rename_i closing
      have behind := cons_of_peek closing (by decide)
      cases loop
      refine ⟨k ++ w₁ ++ chr ':' :: (w₂ ++ t ++ w), [(key, value)], ?_, rfl,
        .lastMember name blank₁ blank₂ d blank⟩
      simp only [List.cons_append, List.append_assoc]
      rw [← behind, ← white, ← text', ← white₂, ← behind₁, ← white₁]
      exact text
    · cases loop

theorem parse_sound (n : Nat) : ValuesSound n ∧ ArraysSound n ∧ ObjectsSound n := by
  induction n with
  | zero => exact ⟨nofun, nofun, nofun⟩
  | succ n ih =>
      obtain ⟨values, arrays, objects⟩ := ih
      exact ⟨parseValue_sound arrays objects, parseArray_sound values arrays,
        parseObject_sound values objects⟩

end Sound

end Reader

/-- A text of a value between blanks: the value, unless it repeats a member name. -/
theorem parse_of_denotes {pre t post : Bytes} {v : Value} (d : Denotes t (.value v))
    (blank : Blank pre) (blank' : Blank post) (keyed : v.WellKeyed) :
    parse (pre ++ t ++ post) = .ok v := by
  have told : Document.fresh.parse (pre ++ t ++ post) =
      andThen (Sax.tell Document.call Document.fresh v.writeTo []) fun p => ok p.2 :=
    Sax.parse_denotes d blank blank'
  have run : v.writeTo.foldlM Draft.call (.value []) = some (.whole v) :=
    Draft.call_writeTo v [] keyed rfl
  have follows := Document.call_run v.writeTo (.fresh .null)
  rw [run] at follows
  obtain ⟨made, called, rep⟩ := follows
  have done : Document.fresh.parse (pre ++ t ++ post) = ok made := by
    rw [told, Sax.tell, Document.fresh, called]
    rfl
  have ends := Document.parse_ends (pre ++ t ++ post)
  rw [done] at ends
  cases outcome : parse (pre ++ t ++ post) with
  | error f =>
      rw [outcome] at ends
      rcases ends with same | ⟨-, same⟩ <;> cases same
  | ok w =>
      rw [outcome] at ends
      obtain ⟨key, same⟩ := ends
      cases same
      cases rep
      rfl

theorem denotes_of_parse {s : Bytes} {v : Value} (parsed : parse s = .ok v) :
    ∃ pre t post, s = pre ++ t ++ post ∧ Blank pre ∧ Blank post ∧ Denotes t (.value v) := by
  have root : parseRoot s = ok v := by
    rw [← Option.some_get (parseRoot_yields s).isSome]
    exact congrArg some parsed
  obtain ⟨⟨value, rest⟩, value', same⟩ := andThen_eq_ok.mp root
  dsimp only at same
  split at same
  · rename_i done
    cases same
    obtain ⟨pre, blank, white⟩ := parseWhitespace_split s
    obtain ⟨post, blank', white'⟩ := parseWhitespace_split rest
    obtain ⟨t, text, d⟩ := (parse_sound _).1 _ _ _ _ value'
    rw [done, List.append_nil] at white'
    refine ⟨pre, t, rest, ?_, blank, white' ▸ blank', d⟩
    rw [List.append_assoc, ← text]
    exact white
  · cases same

/-- **What the parser accepts.** It returns a value exactly on the texts of that value with
blanks around them, where no object of the value repeats a member name. -/
theorem parse_ok_iff (s : Bytes) (v : Value) : parse s = .ok v ↔ v.WellKeyed ∧
    ∃ pre t post, s = pre ++ t ++ post ∧ Blank pre ∧ Blank post ∧ Denotes t (.value v) := by
  constructor
  · intro parsed
    exact ⟨parse_wellKeyed parsed, denotes_of_parse parsed⟩
  · rintro ⟨keyed, pre, t, post, rfl, blank, blank', d⟩
    exact parse_of_denotes d blank blank' keyed

/-- **A repeated name.** On the text of a value that repeats a member name somewhere,
parsing fails an assertion: it returns neither a value nor a parse error. -/
theorem parse_repeated {pre t post : Bytes} {v : Value} (d : Denotes t (.value v))
    (blank : Blank pre) (blank' : Blank post) (repeated : ¬ v.WellKeyed) :
    parse (pre ++ t ++ post) = .error .assertion := by
  have told : Document.fresh.parse (pre ++ t ++ post) =
      andThen (Sax.tell Document.call Document.fresh v.writeTo []) fun p => ok p.2 :=
    Sax.parse_denotes d blank blank'
  have run : v.writeTo.foldlM Draft.call (.value []) = none := by
    rw [Option.eq_none_iff_forall_ne_some]
    exact fun draft made => repeated (Draft.wellKeyed_of_call v [] draft made)
  have failed := Document.call_run v.writeTo (.fresh .null)
  rw [run] at failed
  have stopped : Document.fresh.parse (pre ++ t ++ post) = fault (.handler .assertion) := by
    rw [told, Sax.tell, Document.fresh, show List.foldlM Document.call _ _ = _ from failed]
    rfl
  have ends := Document.parse_ends (pre ++ t ++ post)
  rw [stopped] at ends
  cases outcome : parse (pre ++ t ++ post) with
  | ok w =>
      rw [outcome] at ends
      obtain ⟨key, same⟩ := ends
      cases same
  | error f =>
      rw [outcome] at ends
      rcases ends with same | ⟨rfl, -⟩
      · cases same
      · rfl

/-- Two members named `a`. -/
theorem two_members_asserted :
    parse (ascii "\x7b\"a\":null,\"a\":null\x7d") = .error .assertion := by
  have name : Quoted (ascii "\"a\"") (ascii "a") :=
    .quoted (t := ascii "a") (.char (by decide) .nil)
  have last := Denotes.lastMember name blank_nil blank_nil .null blank_nil
  have inside := Denotes.member name blank_nil blank_nil .null blank_nil blank_nil last
  have repeated : ¬ (Value.object [(ascii "a", .null), (ascii "a", .null)]).WellKeyed := by
    intro keyed
    exact absurd keyed.distinct (by decide)
  have asserted := parse_repeated (.object blank_nil inside) blank_nil blank_nil repeated
  exact asserted

end LaliRpc.Jackson
