/-
# Jackson.Sax — handlers

`Reader::parse` and `Value::writeTo` are templates over a handler, which they tell what
they find as a sequence of calls. A handler is its state and what a call does to it; the
handlers of the library return true from every call, so a call fails by an assertion
only. `writeTo` is a value's sequence of calls.

The reader over an arbitrary handler is here as the source has it. On a text of the
grammar it makes the calls of `writeTo` for the value, whatever the handler, until one
fails (`parse_denotes`).
-/
import LaliRpc.Jackson.Grammar

namespace LaliRpc.Jackson

open Reader Theory Theory.Fueled Grammar

set_option autoImplicit false

/-- A call of a handler. -/
inductive Event where
  | null
  | bool (b : Bool)
  | int32 (i : Int32)
  | int64 (i : Int64)
  | double (d : Double)
  | string (s : Bytes)
  | startObject
  | key (s : Bytes)
  | endObject
  | startArray
  | endArray
  deriving DecidableEq

namespace Value

mutual

/-- `writeTo`. -/
def writeTo : Value → List Event
  | .null => [.null]
  | .bool b => [.bool b]
  | .int32 i => [.int32 i]
  | .int64 i => [.int64 i]
  | .double d => [.double d]
  | .string s => [.string s]
  | .array values => .startArray :: (writeToValues values ++ [.endArray])
  | .object members => .startObject :: (writeToMembers members ++ [.endObject])

def writeToValues : List Value → List Event
  | [] => []
  | v :: values => writeTo v ++ writeToValues values

def writeToMembers : List (Bytes × Value) → List Event
  | [] => []
  | m :: members => .key m.1 :: (writeTo m.2 ++ writeToMembers members)

end

end Value

namespace Sax

/-- How a parse over a handler ends before its end. -/
inductive Fault (φ : Type) where
  | parse (fault : ParseFault)
  | handler (fault : φ)

section Read

variable {σ φ α : Type} (call : σ → Event → Except φ σ)

/-- Calls of the handler, with `s` still to be read. -/
def tell (h : σ) (events : List Event) (s : Bytes) : Fueled (Fault φ) (Bytes × σ) :=
  match events.foldlM call h with
  | .ok h => ok (s, h)
  | .error f => fault (.handler f)

def lift (x : Fueled ParseFault α) : Fueled (Fault φ) α :=
  match x with
  | none => none
  | some (.error f) => fault (.parse f)
  | some (.ok a) => ok a

/-- A complete scalar is one call. -/
def scalar (h : σ) (x : Fueled ParseFault (Value × Bytes)) : Fueled (Fault φ) (Bytes × σ) :=
  andThen (lift x) fun (v, s) => tell call h v.writeTo s

def error (e : ParseError) : Fueled (Fault φ) α := fault (.parse (.error e))

mutual

def parseValue : Nat → Bytes → σ → Fueled (Fault φ) (Bytes × σ)
  | 0, _, _ => none
  | n + 1, s, h =>
      if s = [] then error .expectValue
      else if peek s = chr 'n' then scalar call h (some (parseLiteral "null" .null s))
      else if peek s = chr 't' then scalar call h (some (parseLiteral "true" (.bool true) s))
      else if peek s = chr 'f' then scalar call h (some (parseLiteral "false" (.bool false) s))
      else if peek s = chr '"' then
        scalar call h (andThen (parseString s) fun (chars, s) => ok (.string chars, s))
      else if peek s = chr '[' then
        andThen (tell call h [.startArray] s.tail) fun (s, h) =>
          let s := parseWhitespace s
          if peek s = chr ']' then tell call h [.endArray] s.tail else parseArray n s h
      else if peek s = chr '{' then
        andThen (tell call h [.startObject] s.tail) fun (s, h) =>
          let s := parseWhitespace s
          if peek s = chr '}' then tell call h [.endObject] s.tail else parseObject n s h
      else scalar call h (some (parseNumber s))

/-- The loop of `parseArray`. -/
def parseArray : Nat → Bytes → σ → Fueled (Fault φ) (Bytes × σ)
  | 0, _, _ => none
  | n + 1, s, h =>
      andThen (parseValue n s h) fun (s, h) =>
        let s := parseWhitespace s
        if (next s).1 = chr ',' then parseArray n (parseWhitespace s.tail) h
        else if (next s).1 = chr ']' then tell call h [.endArray] s.tail
        else error .missCommaOrSquareBracket

/-- The loop of `parseObject`. -/
def parseObject : Nat → Bytes → σ → Fueled (Fault φ) (Bytes × σ)
  | 0, _, _ => none
  | n + 1, s, h =>
      if peek s ≠ chr '"' then error .missKey
      else
        andThen (lift (parseString s)) fun (key, s) =>
          andThen (tell call h [.key key] s) fun (s, h) =>
            let s := parseWhitespace s
            if (next s).1 ≠ chr ':' then error .missColon
            else
              andThen (parseValue n (parseWhitespace s.tail) h) fun (s, h) =>
                let s := parseWhitespace s
                if (next s).1 = chr ',' then parseObject n (parseWhitespace s.tail) h
                else if (next s).1 = chr '}' then tell call h [.endObject] s.tail
                else error .missCommaOrCurlyBracket

end

/-- `Reader::parse`. -/
def parse (s : Bytes) (h : σ) : Fueled (Fault φ) σ :=
  andThen (parseValue call (2 * s.length + 1) (parseWhitespace s) h) fun (s, h) =>
    if parseWhitespace s = [] then ok h else error .rootNotSingular

/-! ## What is told of a text of the grammar -/

variable {call} {h : σ} {s s' t : Bytes}

/-- The calls of two pieces, with any text left to be read between them. -/
theorem tell_append (es es' : List Event) :
    tell call h (es ++ es') s' = andThen (tell call h es s) fun p => tell call p.2 es' s' := by
  simp only [tell, List.foldlM_append]
  cases es.foldlM call h <;> rfl

theorem andThen_tell {es : List Event} {k k' : Bytes × σ → Fueled (Fault φ) α}
    (same : ∀ h, k (s, h) = k' (s', h)) :
    andThen (tell call h es s) k = andThen (tell call h es s') k' := by
  simp only [tell]
  cases es.foldlM call h with
  | error f => rfl
  | ok h => exact same h

/-- The reader makes the calls of the item of which `t` is the text. -/
def Reads (call : σ → Event → Except φ σ) (t : Bytes) : Item → Prop
  | .value v => ∀ n r h, 2 * t.length < n → (v.isArray = true ∨ v.isObject = true ∨ Stops r) →
      parseValue call n (t ++ r) h = tell call h v.writeTo r
  | .elements values => ∀ n r h, 2 * t.length + 2 ≤ n →
      parseArray call n (t ++ chr ']' :: r) h =
        tell call h (Value.writeToValues values ++ [.endArray]) r
  | .members members => ∀ n r h, 2 * t.length + 2 ≤ n →
      parseObject call n (t ++ chr '}' :: r) h =
        tell call h (Value.writeToMembers members ++ [.endObject]) r

theorem reads_number {v : Value} (number : Number t v) : Reads call t (.value v) := by
  intro n r h enough ends
  obtain ⟨n, rfl⟩ := Nat.exists_eq_succ_of_ne_zero (Nat.ne_of_gt (Nat.zero_lt_of_lt enough))
  obtain ⟨ne, first⟩ := number.start
  have stops : Stops r := by
    have scalar := scalar_parseNumber (parseNumber_complete number stops_nil)
    rcases ends with array | object | stops
    · exact absurd (of_decide_eq_true array) scalar.1
    · exact absurd (of_decide_eq_true object) scalar.2
    · exact stops
  have other : ∀ c, isDigit c = false → c ≠ chr 'N' → c ≠ chr 'I' → c ≠ chr '-' →
      peek (t ++ r) ≠ c := by
    rintro c noDigit notN notI noSign same
    rw [peek_append ne] at same
    rw [same] at first
    rcases first with h | h | h | h
    · exact notN h
    · exact notI h
    · exact noSign h
    · rw [noDigit] at h
      cases h
  have someText : t ++ r ≠ [] := List.append_ne_nil_of_left_ne_nil ne r
  rw [parseValue, if_neg someText]
  simp only [if_neg (other (chr 'n') (by decide) (by decide) (by decide) (by decide)),
    if_neg (other (chr 't') (by decide) (by decide) (by decide) (by decide)),
    if_neg (other (chr 'f') (by decide) (by decide) (by decide) (by decide)),
    if_neg (other (chr '"') (by decide) (by decide) (by decide) (by decide)),
    if_neg (other (chr '[') (by decide) (by decide) (by decide) (by decide)),
    if_neg (other (chr '{') (by decide) (by decide) (by decide) (by decide)),
    parseNumber_complete number stops]
  rfl

theorem reads_literal {literal : String} {v : Value}
    (here : ∀ n r h, parseValue call (n + 1) (ascii literal ++ r) h =
      scalar call h (some (parseLiteral literal v (ascii literal ++ r)))) :
    Reads call (ascii literal) (.value v) := by
  intro n r h enough _
  obtain ⟨n, rfl⟩ := Nat.exists_eq_succ_of_ne_zero (Nat.ne_of_gt (Nat.zero_lt_of_lt enough))
  rw [here, parseLiteral_iff.mpr ⟨rfl, rfl⟩]
  rfl

theorem reads_string {chars : Bytes} (quoted : Quoted t chars) :
    Reads call t (.value (.string chars)) := by
  intro n r h enough _
  obtain ⟨n, rfl⟩ := Nat.exists_eq_succ_of_ne_zero (Nat.ne_of_gt (Nat.zero_lt_of_lt enough))
  obtain ⟨quote, parsed⟩ := parseString_complete quoted r
  have someText : t ++ r ≠ [] := by
    obtain ⟨body⟩ := quoted
    exact List.cons_ne_nil _ _
  rw [parseValue, if_neg someText, quote, if_neg (by decide), if_neg (by decide),
    if_neg (by decide), if_pos rfl, parsed]
  rfl

/-- An opening bracket, and what is read behind it. -/
theorem parseValue_array (n : Nat) (s : Bytes) (h : σ) :
    parseValue call (n + 1) (chr '[' :: s) h =
      andThen (tell call h [.startArray] s) fun (s, h) =>
        let s := parseWhitespace s
        if peek s = chr ']' then tell call h [.endArray] s.tail else parseArray call n s h := by
  rw [parseValue, peek_cons, if_neg (List.cons_ne_nil _ _), if_neg (by decide), if_neg (by decide),
    if_neg (by decide), if_neg (by decide), if_pos rfl]
  rfl

theorem parseValue_object (n : Nat) (s : Bytes) (h : σ) :
    parseValue call (n + 1) (chr '{' :: s) h =
      andThen (tell call h [.startObject] s) fun (s, h) =>
        let s := parseWhitespace s
        if peek s = chr '}' then tell call h [.endObject] s.tail else parseObject call n s h := by
  rw [parseValue, peek_cons, if_neg (List.cons_ne_nil _ _), if_neg (by decide), if_neg (by decide),
    if_neg (by decide), if_neg (by decide), if_neg (by decide), if_pos rfl]
  rfl

/-- The opening bracket of an array that is not empty, and what follows it. -/
theorem reads_array {w : Bytes} {values : List Value} (blank : Blank w)
    (start : t ≠ [] ∧ Start t (.elements values)) (inside : Reads call t (.elements values)) :
    Reads call (chr '[' :: (w ++ t ++ [chr ']'])) (.value (.array values)) := by
  intro n r h enough _
  obtain ⟨n, rfl⟩ := Nat.exists_eq_succ_of_ne_zero (Nat.ne_of_gt (Nat.zero_lt_of_lt enough))
  obtain ⟨ne, noSpace, noEnd⟩ := start
  have text : chr '[' :: (w ++ t ++ [chr ']']) ++ r = chr '[' :: (w ++ (t ++ chr ']' :: r)) := by
    simp only [List.cons_append, List.append_assoc, List.nil_append]
  have front : parseWhitespace (w ++ (t ++ chr ']' :: r)) = t ++ chr ']' :: r := by
    rw [parseWhitespace_blank blank]
    exact parseWhitespace_of_peek ((congrArg isSpace (peek_append ne _)).trans noSpace)
  have calls : tell call h (Value.array values).writeTo r =
      andThen (tell call h [.startArray] r) fun p =>
        tell call p.2 (Value.writeToValues values ++ [.endArray]) r :=
    tell_append [.startArray] _
  simp only [List.length_cons, List.length_append] at enough
  rw [text, parseValue_array, calls]
  refine andThen_tell fun h => ?_
  dsimp only
  rw [front, peek_append ne, if_neg noEnd]
  exact inside n r h (by omega)

theorem reads_object {w : Bytes} {ms : List (Bytes × Value)} (blank : Blank w)
    (start : t ≠ [] ∧ Start t (.members ms)) (inside : Reads call t (.members ms)) :
    Reads call (0x7B :: (w ++ t ++ [0x7D])) (.value (.object ms)) := by
  intro n r h enough _
  obtain ⟨n, rfl⟩ := Nat.exists_eq_succ_of_ne_zero (Nat.ne_of_gt (Nat.zero_lt_of_lt enough))
  obtain ⟨ne, quote⟩ := start
  rw [Start] at quote
  have text : 0x7B :: (w ++ t ++ [0x7D]) ++ r = chr '{' :: (w ++ (t ++ chr '}' :: r)) := by
    simp only [List.cons_append, List.append_assoc, List.nil_append]
    rfl
  have front : parseWhitespace (w ++ (t ++ chr '}' :: r)) = t ++ chr '}' :: r := by
    rw [parseWhitespace_blank blank]
    refine parseWhitespace_of_peek ?_
    rw [peek_append ne, quote]
    decide
  have calls : tell call h (Value.object ms).writeTo r =
      andThen (tell call h [.startObject] r) fun p =>
        tell call p.2 (Value.writeToMembers ms ++ [.endObject]) r :=
    tell_append [.startObject] _
  simp only [List.length_cons, List.length_append] at enough
  rw [text, parseValue_object, calls]
  refine andThen_tell fun h => ?_
  dsimp only
  rw [front, peek_append ne, quote, if_neg (by decide)]
  exact inside n r h (by omega)

/-- The separator or the bracket behind a blank. -/
theorem parseWhitespace_mark {w : Bytes} (blank : Blank w) {c : UInt8} (mark : isSpace c = false)
    (s : Bytes) : parseWhitespace (w ++ c :: s) = c :: s := by
  rw [parseWhitespace_blank blank]
  exact parseWhitespace_of_peek mark

theorem stops_mark {w : Bytes} (blank : Blank w) {c : UInt8}
    (mark : c = chr ',' ∨ c = chr ']' ∨ c = chr '}') (s : Bytes) : Stops (w ++ c :: s) := by
  refine Stops.blank ?_ blank
  rcases mark with rfl | rfl | rfl <;> exact ⟨by rfl, by rw [peek_cons]; decide,
    by rw [peek_cons]; decide, by rw [peek_cons]; decide⟩

theorem reads_emptyArray {w : Bytes} (blank : Blank w) :
    Reads call (chr '[' :: (w ++ [chr ']'])) (.value (.array [])) := by
  intro n r h enough _
  obtain ⟨n, rfl⟩ := Nat.exists_eq_succ_of_ne_zero (Nat.ne_of_gt (Nat.zero_lt_of_lt enough))
  have text : chr '[' :: (w ++ [chr ']']) ++ r = chr '[' :: (w ++ chr ']' :: r) := by
    simp only [List.cons_append, List.append_assoc, List.nil_append]
  have calls : tell call h (Value.array []).writeTo r =
      andThen (tell call h [.startArray] r) fun p => tell call p.2 [.endArray] r :=
    tell_append [.startArray] _
  rw [text, parseValue_array, calls]
  refine andThen_tell fun h => ?_
  dsimp only
  rw [parseWhitespace_mark blank (by decide), peek_cons, if_pos rfl, List.tail_cons]

theorem reads_emptyObject {w : Bytes} (blank : Blank w) :
    Reads call (0x7B :: (w ++ [0x7D])) (.value (.object [])) := by
  intro n r h enough _
  obtain ⟨n, rfl⟩ := Nat.exists_eq_succ_of_ne_zero (Nat.ne_of_gt (Nat.zero_lt_of_lt enough))
  have text : 0x7B :: (w ++ [0x7D]) ++ r = chr '{' :: (w ++ chr '}' :: r) := by
    simp only [List.cons_append, List.append_assoc, List.nil_append]
    rfl
  have calls : tell call h (Value.object []).writeTo r =
      andThen (tell call h [.startObject] r) fun p => tell call p.2 [.endObject] r :=
    tell_append [.startObject] _
  rw [text, parseValue_object, calls]
  refine andThen_tell fun h => ?_
  dsimp only
  rw [parseWhitespace_mark blank (by decide), peek_cons, if_pos rfl, List.tail_cons]

/-! An element or a member, up to the separator or the bracket behind it. -/

theorem parseArray_element {w : Bytes} {v : Value} (first : Reads call t (.value v))
    (blank : Blank w) {c : UInt8} (mark : c = chr ',' ∨ c = chr ']') {n : Nat}
    (enough : 2 * t.length < n) (r : Bytes) (h : σ) :
    parseArray call (n + 1) (t ++ (w ++ c :: r)) h =
      andThen (tell call h v.writeTo r) fun p =>
        if c = chr ',' then parseArray call n (parseWhitespace r) p.2
        else tell call p.2 [.endArray] r := by
  have noSpace : isSpace c = false := by rcases mark with rfl | rfl <;> rfl
  have stops : Stops (w ++ c :: r) := stops_mark blank (mark.imp_right .inl) r
  rw [parseArray, first n _ h enough (.inr (.inr stops))]
  refine andThen_tell fun h => ?_
  dsimp only
  rw [parseWhitespace_mark blank noSpace, next, List.headD_cons, List.tail_cons]
  rcases mark with rfl | rfl
  · rw [if_pos rfl, if_pos rfl]
  · rw [if_neg (show chr ']' ≠ chr ',' by decide), if_pos rfl, if_neg (by decide)]

theorem reads_lastElement {w : Bytes} {v : Value} (first : Reads call t (.value v))
    (blank : Blank w) : Reads call (t ++ w) (.elements [v]) := by
  intro n r h enough
  obtain ⟨n, rfl⟩ := Nat.exists_eq_add_of_le' (Nat.le_of_add_left_le enough)
  rw [List.length_append] at enough
  rw [List.append_assoc, parseArray_element first blank (.inr rfl) (by omega),
    Value.writeToValues, Value.writeToValues, List.append_nil, tell_append (s := r)]
  rfl

theorem reads_element {w w' ts : Bytes} {v : Value} {values : List Value}
    (first : Reads call t (.value v)) (blank : Blank w) (blank' : Blank w')
    (start : ts ≠ [] ∧ Start ts (.elements values)) (rest : Reads call ts (.elements values)) :
    Reads call (t ++ w ++ chr ',' :: (w' ++ ts)) (.elements (v :: values)) := by
  intro n r h enough
  obtain ⟨n, rfl⟩ := Nat.exists_eq_add_of_le' (Nat.le_of_add_left_le enough)
  have text : t ++ w ++ chr ',' :: (w' ++ ts) ++ chr ']' :: r =
      t ++ (w ++ chr ',' :: (w' ++ (ts ++ chr ']' :: r))) := by
    simp only [List.cons_append, List.append_assoc]
  have front : parseWhitespace (w' ++ (ts ++ chr ']' :: r)) = ts ++ chr ']' :: r := by
    rw [parseWhitespace_blank blank']
    exact parseWhitespace_of_peek ((congrArg isSpace (peek_append start.1 _)).trans start.2.1)
  simp only [List.length_cons, List.length_append] at enough
  rw [text, parseArray_element first blank (.inl rfl) (by omega), front,
    Value.writeToValues, List.append_assoc, tell_append (s := r)]
  exact andThen_tell fun h => (if_pos rfl).trans (rest (n + 1) r h (by omega))

theorem parseObject_member {k w₁ w₂ w key : Bytes} {v : Value} (name : Quoted k key)
    (blank₁ : Blank w₁) (blank₂ : Blank w₂) (start : t ≠ [] ∧ Start t (.value v))
    (first : Reads call t (.value v)) (blank : Blank w) {c : UInt8}
    (mark : c = chr ',' ∨ c = chr '}') {n : Nat} (enough : 2 * t.length < n) (r : Bytes) (h : σ) :
    parseObject call (n + 1) (k ++ (w₁ ++ chr ':' :: (w₂ ++ (t ++ (w ++ c :: r))))) h =
      andThen (tell call h (.key key :: v.writeTo) r) fun p =>
        if c = chr ',' then parseObject call n (parseWhitespace r) p.2
        else tell call p.2 [.endObject] r := by
  obtain ⟨quote, parsed⟩ := parseString_complete name
    (w₁ ++ chr ':' :: (w₂ ++ (t ++ (w ++ c :: r))))
  have noSpace : isSpace c = false := by rcases mark with rfl | rfl <;> rfl
  have stops : Stops (w ++ c :: r) := stops_mark blank (mark.imp_right .inr) r
  have front : parseWhitespace (w₂ ++ (t ++ (w ++ c :: r))) = t ++ (w ++ c :: r) := by
    rw [parseWhitespace_blank blank₂]
    exact parseWhitespace_of_peek ((congrArg isSpace (peek_append start.1 _)).trans start.2.1)
  have calls : tell call h (.key key :: v.writeTo) r =
      andThen (tell call h [.key key] r) fun p => tell call p.2 v.writeTo r :=
    tell_append [.key key] _
  rw [parseObject, quote, if_neg (not_not.mpr rfl), parsed, calls, andThen_assoc]
  show andThen (tell call h [.key key] _) _ = _
  refine andThen_tell fun h => ?_
  dsimp only
  rw [parseWhitespace_mark blank₁ (by decide), next, List.headD_cons, List.tail_cons,
    if_neg (not_not.mpr rfl), front, first n _ h enough (.inr (.inr stops))]
  refine andThen_tell fun h => ?_
  dsimp only
  rw [parseWhitespace_mark blank noSpace, next, List.headD_cons, List.tail_cons]
  rcases mark with rfl | rfl
  · rw [if_pos rfl, if_pos rfl]
  · rw [if_neg (show chr '}' ≠ chr ',' by decide), if_pos rfl, if_neg (by decide)]

theorem reads_lastMember {k w₁ w₂ w key : Bytes} {v : Value} (name : Quoted k key)
    (blank₁ : Blank w₁) (blank₂ : Blank w₂) (start : t ≠ [] ∧ Start t (.value v))
    (first : Reads call t (.value v)) (blank : Blank w) :
    Reads call (k ++ w₁ ++ chr ':' :: (w₂ ++ t ++ w)) (.members [(key, v)]) := by
  intro n r h enough
  obtain ⟨n, rfl⟩ := Nat.exists_eq_add_of_le' (Nat.le_of_add_left_le enough)
  have text : k ++ w₁ ++ chr ':' :: (w₂ ++ t ++ w) ++ chr '}' :: r =
      k ++ (w₁ ++ chr ':' :: (w₂ ++ (t ++ (w ++ chr '}' :: r)))) := by
    simp only [List.cons_append, List.append_assoc]
  have calls : Value.writeToMembers [(key, v)] ++ [.endObject] =
      (.key key :: v.writeTo) ++ [.endObject] := by
    rw [Value.writeToMembers, Value.writeToMembers, List.append_nil]
  simp only [List.length_cons, List.length_append] at enough
  rw [text, parseObject_member name blank₁ blank₂ start first blank (.inr rfl) (by omega), calls,
    tell_append (s := r)]
  rfl

theorem reads_member {k w₁ w₂ w w' ts key : Bytes} {v : Value} {ms : List (Bytes × Value)}
    (name : Quoted k key) (blank₁ : Blank w₁) (blank₂ : Blank w₂)
    (start : t ≠ [] ∧ Start t (.value v)) (first : Reads call t (.value v)) (blank : Blank w)
    (blank' : Blank w') (start' : ts ≠ [] ∧ Start ts (.members ms))
    (rest : Reads call ts (.members ms)) :
    Reads call (k ++ w₁ ++ chr ':' :: (w₂ ++ t ++ w ++ chr ',' :: (w' ++ ts)))
      (.members ((key, v) :: ms)) := by
  intro n r h enough
  obtain ⟨n, rfl⟩ := Nat.exists_eq_add_of_le' (Nat.le_of_add_left_le enough)
  have text : k ++ w₁ ++ chr ':' :: (w₂ ++ t ++ w ++ chr ',' :: (w' ++ ts)) ++ chr '}' :: r =
      k ++ (w₁ ++ chr ':' :: (w₂ ++ (t ++ (w ++ chr ',' :: (w' ++ (ts ++ chr '}' :: r)))))) := by
    simp only [List.cons_append, List.append_assoc]
  have front : parseWhitespace (w' ++ (ts ++ chr '}' :: r)) = ts ++ chr '}' :: r := by
    rw [parseWhitespace_blank blank']
    refine parseWhitespace_of_peek ?_
    rw [peek_append start'.1, show peek ts = chr '"' from start'.2]
    decide
  have calls : Value.writeToMembers ((key, v) :: ms) ++ [.endObject] =
      (.key key :: v.writeTo) ++ (Value.writeToMembers ms ++ [.endObject]) := by
    rw [Value.writeToMembers, List.cons_append, List.append_assoc, List.cons_append]
  simp only [List.length_cons, List.length_append] at enough
  rw [text, parseObject_member name blank₁ blank₂ start first blank (.inl rfl) (by omega), front,
    calls, tell_append (s := r)]
  exact andThen_tell fun h => (if_pos rfl).trans (rest (n + 1) r h (by omega))

/-- By induction on the text: one case for each way of writing an item. -/
theorem reads_denotes {item : Item} (d : Denotes t item) : Reads call t item := by
  induction d with
  | null => exact reads_literal fun n r h => rfl
  | true => exact reads_literal fun n r h => rfl
  | false => exact reads_literal fun n r h => rfl
  | number number => exact reads_number number
  | string quoted => exact reads_string quoted
  | emptyArray blank => exact reads_emptyArray blank
  | array blank inside ih => exact reads_array blank inside.start ih
  | emptyObject blank => exact reads_emptyObject blank
  | object blank inside ih => exact reads_object blank inside.start ih
  | lastElement first blank ih => exact reads_lastElement ih blank
  | element first blank blank' rest ih ih' =>
      exact reads_element ih blank blank' rest.start ih'
  | lastMember name blank₁ blank₂ first blank ih =>
      exact reads_lastMember name blank₁ blank₂ first.start ih blank
  | member name blank₁ blank₂ first blank blank' rest ih ih' =>
      exact reads_member name blank₁ blank₂ first.start ih blank blank' rest.start ih'

/-- The whole text, between blanks: the calls of `writeTo`, and nothing else. -/
theorem parse_denotes {pre post : Bytes} {v : Value} (d : Denotes t (.value v))
    (blank : Blank pre) (blank' : Blank post) :
    parse call (pre ++ t ++ post) h = andThen (tell call h v.writeTo []) fun p => ok p.2 := by
  obtain ⟨ne, noSpace, -⟩ := d.start
  have front : parseWhitespace (pre ++ t ++ post) = t ++ post := by
    rw [List.append_assoc, parseWhitespace_blank blank]
    exact parseWhitespace_of_peek ((congrArg isSpace (peek_append ne _)).trans noSpace)
  have back : parseWhitespace post = [] := by
    rw [← List.append_nil post, parseWhitespace_blank blank']
    rfl
  have stops : Stops post := by
    rw [← List.append_nil post]
    exact stops_nil.blank blank'
  have enough : 2 * t.length < 2 * (pre ++ t ++ post).length + 1 := by
    simp only [List.length_append]
    omega
  rw [parse, front, reads_denotes d _ _ h enough (.inr (.inr stops))]
  refine andThen_tell fun h => ?_
  dsimp only
  rw [back, if_pos rfl]

end Read

end Sax

end LaliRpc.Jackson
