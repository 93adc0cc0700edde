/-
# Jackson.RoundTrip — what is written is read back

The text the writers put for a value is a text of the value in the reader's grammar, with
integers narrowed (`Value.reparse`), where the names need no escape, which `Key` does not
write, and the text of every double is read as that double (`Readable`). A writer may put
blanks around what `Writer` puts: `Spaces` says so of its calls, and `Spaces.writeTo` is
by induction on the value.
-/
import LaliRpc.Jackson.PrettyWriter

namespace LaliRpc.Jackson

open Reader Theory Theory.Fueled Grammar

set_option autoImplicit false

namespace Writer

/-! ## Scalars -/

theorem whole_toDecimal (n : Nat) : Whole (toDecimal n) := by
  rcases Nat.eq_zero_or_pos n with rfl | pos
  · exact .zero
  · obtain ⟨d, ds, text, lead⟩ := toDecimal_pos pos
    rw [text]
    exact .digits lead fun c hc => isDigit_of_mem_toDecimal (text ▸ List.mem_cons_of_mem d hc)

theorem takeWhile_toDecimal (n : Nat) : (toDecimal n).takeWhile isDigit = toDecimal n := by
  have all : (toDecimal n ++ []).takeWhile isDigit = toDecimal n :=
    takeWhile_digits (whole_toDecimal n).isDigit rfl
  rwa [List.append_nil] at all

theorem itoa_spelled (i : Int) : NumberText .null (itoa i) := by
  rw [itoa]
  split
  · exact List.append_nil (chr '-' :: toDecimal _) ▸
      NumberText.integer (.inr rfl) (whole_toDecimal _) .none
  · exact List.append_nil (toDecimal _) ▸ NumberText.integer (.inl rfl) (whole_toDecimal _) .none

theorem strtol_itoa {i : Int} (range : -2 ^ 63 ≤ i ∧ i < 2 ^ 63) : strtol (itoa i) = some i := by
  by_cases negative : i < 0
  · rw [itoa, if_pos negative, strtol, List.headD_cons, if_pos rfl, List.tail_cons,
      takeWhile_toDecimal, digitsValue_toDecimal, Int.ofNat_natAbs_of_nonpos (by omega), Int.neg_neg]
    exact if_pos range
  · have noSign : (toDecimal i.natAbs).headD 0 ≠ chr '-' := by
      have digit := (whole_toDecimal i.natAbs).peek []
      rw [List.append_nil] at digit
      exact ne_of_isDigit digit (by decide)
    rw [itoa, if_neg negative, strtol, if_neg noSign, takeWhile_toDecimal, digitsValue_toDecimal,
      Int.natAbs_of_nonneg (by omega)]
    exact if_pos range

theorem number_int32 (i : Int32) : Number (itoa i.toInt) (.int32 i) := by
  have low := Int32.le_toInt i
  have high := Int32.toInt_lt i
  refine .converted (itoa_spelled _) ?_
  rw [convertNumber, strtol_itoa ⟨by omega, by omega⟩]
  · simp only [reduceCtorEq, if_false, if_pos (And.intro low high), Int32.ofInt_toInt]
  · intro equal
    cases equal

theorem number_int64 (i : Int64) : Number (itoa i.toInt) (Value.int64 i).reparse := by
  have low := Int64.le_toInt i
  have high := Int64.toInt_lt i
  refine .converted (itoa_spelled _) ?_
  rw [convertNumber, strtol_itoa ⟨low, high⟩]
  · by_cases fits : Fits32 i
    · rw [Value.reparse_narrow fits, ← Int32.ofInt_int64ToInt]
      exact if_pos fits
    · rw [Value.reparse_wide fits]
      simp only [reduceCtorEq, if_false, Int64.ofInt_toInt]
      exact if_neg fits
  · intro equal
    cases equal

theorem stringBody_plain {s : Bytes} (plain : ∀ c ∈ s, Plain c) : StringBody s s := by
  induction s with
  | nil => exact .nil
  | cons c s ih =>
      obtain ⟨first, others⟩ := List.forall_mem_cons.mp plain
      exact .char first (ih others)

theorem quoted_key {s : Bytes} (plain : ∀ c ∈ s, Plain c) : Quoted (key s) s :=
  .quoted (stringBody_plain plain)

/-- Below the space: four hexadecimal digits. -/
theorem parseEscape_control : ∀ n : Fin 32, parseEscape (chr 'u' :: (ascii "00" ++
    [hexDigit ((UInt8.ofNat n).toNat / 16), hexDigit ((UInt8.ofNat n).toNat % 16)])) =
      .ok ([UInt8.ofNat n], []) := by decide

/-- The text of a character in a string is read as the character. -/
theorem stringBody_escape (c : UInt8) {t s : Bytes} (rest : StringBody t s) :
    StringBody (escape c ++ t) (c :: s) := by
  have simple : ∀ e : UInt8, simpleEscapes.lookup e = some c →
      StringBody (chr '\\' :: ([e] ++ t)) ([c] ++ s) := fun e listed =>
    .escape (.simple listed) rest
  unfold escape
  split
  · rename_i same
    subst same
    exact simple (chr '"') (by decide)
  split
  · rename_i same
    subst same
    exact simple (chr 'b') (by decide)
  split
  · rename_i same
    subst same
    exact simple (chr 'f') (by decide)
  split
  · rename_i same
    subst same
    exact simple (chr 'n') (by decide)
  split
  · rename_i same
    subst same
    exact simple (chr 'r') (by decide)
  split
  · rename_i same
    subst same
    exact simple (chr 't') (by decide)
  split
  · rename_i same
    subst same
    exact simple (chr '\\') (by decide)
  split
  · rename_i control
    have small : c.toNat < 32 := UInt8.lt_iff_toNat_lt.mp control
    have parsed := parseEscape_control ⟨c.toNat, small⟩
    simp only [UInt8.ofNat_toNat] at parsed
    obtain ⟨e, text, escaped⟩ := parseEscape_iff.mp parsed
    rw [List.append_nil] at text
    have body := StringBody.escape escaped rest
    rw [← text] at body
    exact body
  · rename_i noQuote _ _ _ _ _ noBackslash high
    refine .char ⟨noQuote, noBackslash, fun low => high ?_⟩ rest
    exact UInt8.lt_iff_toNat_lt.mpr (Nat.lt_succ_of_le (UInt8.le_iff_toNat_le.mp low.2))

theorem quoted_string (s : Bytes) : Quoted (quoted s) s := by
  have body : StringBody (s.flatMap escape) s := by
    induction s with
    | nil => exact .nil
    | cons c s ih => exact stringBody_escape c ih
  exact .quoted body

end Writer

/-! ## Values -/

/-- Names without a character that needs an escape, and doubles whose text is read as the
double. -/
inductive Readable (sprintf : Double → Bytes) : Value → Prop where
  | null : Readable sprintf .null
  | bool (b : Bool) : Readable sprintf (.bool b)
  | int32 (i : Int32) : Readable sprintf (.int32 i)
  | int64 (i : Int64) : Readable sprintf (.int64 i)
  | double {d : Double} (text : Number (Writer.double sprintf d) (.double d)) :
      Readable sprintf (.double d)
  | string (s : Bytes) : Readable sprintf (.string s)
  | array {values : List Value} (all : ∀ v ∈ values, Readable sprintf v) :
      Readable sprintf (.array values)
  | object {members : List (Bytes × Value)} (plain : ∀ m ∈ members, ∀ c ∈ m.1, Plain c)
      (all : ∀ m ∈ members, Readable sprintf m.2) : Readable sprintf (.object members)

theorem Value.WellKeyed.reparse {v : Value} (keyed : v.WellKeyed) : v.reparse.WellKeyed := by
  induction keyed with
  | null => exact .null
  | bool b => exact .bool b
  | int32 i => exact .int32 i
  | int64 i =>
      by_cases fits : Fits32 i
      · rw [Value.reparse_narrow fits]
        exact .int32 _
      · rw [Value.reparse_wide fits]
        exact .int64 i
  | double d => exact .double d
  | string s => exact .string s
  | @array values all ih =>
      have same : ∀ values : List Value, (∀ v ∈ values, v.reparse.WellKeyed) →
          ∀ v ∈ Value.reparseValues values, v.WellKeyed := by
        intro values ih
        induction values with
        | nil => exact fun v mem => absurd mem List.not_mem_nil
        | cons v values more =>
            obtain ⟨first, others⟩ := List.forall_mem_cons.mp ih
            rw [Value.reparseValues]
            exact List.forall_mem_cons.mpr ⟨first, more others⟩
      rw [Value.reparse]
      exact .array (same values ih)
  | @object members distinct all ih =>
      rw [Value.reparse_object]
      refine .object ?_ ?_
      · rw [List.map_map]
        exact distinct
      · intro m mem
        obtain ⟨m', mem', rfl⟩ := List.mem_map.mp mem
        exact ih m' mem'

/-- The calls put what the calls of `Writer` put, with blanks around it. -/
def Spaces {σ : Type} (call : σ → Event → Except Thrown (σ × Bytes)) (sprintf : Double → Bytes)
    (R : σ → Writer → Prop) : Prop :=
  ∀ p w e w' text, R p w → w.call sprintf e = .ok (w', text) →
    ∃ p' b b', call p e = .ok (p', b ++ text ++ b') ∧ R p' w' ∧ Blank b ∧ Blank b'

namespace Spaces

variable {σ : Type} {call : σ → Event → Except Thrown (σ × Bytes)} {sprintf : Double → Bytes}
  {R : σ → Writer → Prop} {p : σ}

/-- A scalar is one call. -/
theorem scalar (spaces : Spaces call sprintf R) {v u : Value} {e : Event} {w w' : Writer}
    {separator text : Bytes} (rel : R p w) (called : w.call sprintf e = .ok (w', separator ++ text))
    (one : v.writeTo = [e]) (d : Denotes text (.value u)) :
    ∃ p' b t b', emit call p v.writeTo = .ok (p', b ++ separator ++ t ++ b') ∧ R p' w' ∧
      Blank b ∧ Blank b' ∧ Denotes t (.value u) := by
  obtain ⟨p', b, b', put_text, rel', blank, blank'⟩ := spaces p w e w' _ rel called
  refine ⟨p', b, text, b', ?_, rel', blank, blank', d⟩
  rw [one, emit_singleton put_text, ← List.append_assoc]

mutual

/-- What is put for a value, where a value may come, is a text of it behind the separator. -/
theorem writeTo (spaces : Spaces call sprintf R) : ∀ (v : Value) (p : σ) (w w' : Writer)
    (separator : Bytes), R p w → (∀ type, w.beforeValue type = .ok (w', separator)) →
    Readable sprintf v →
      ∃ p' b t b', emit call p v.writeTo = .ok (p', b ++ separator ++ t ++ b') ∧ R p' w' ∧
        Blank b ∧ Blank b' ∧ Denotes t (.value v.reparse)
  | .null, p, w, w', separator, rel, ready, _ =>
      spaces.scalar rel (by rw [Writer.call, Writer.value, ready]; rfl) rfl .null
  | .bool true, p, w, w', separator, rel, ready, _ =>
      spaces.scalar rel (by rw [Writer.call, Writer.value, ready]; rfl) rfl .true
  | .bool false, p, w, w', separator, rel, ready, _ =>
      spaces.scalar rel (by rw [Writer.call, Writer.value, ready]; rfl) rfl .false
  | .int32 i, p, w, w', separator, rel, ready, _ =>
      spaces.scalar rel (by rw [Writer.call, Writer.value, ready]; rfl) rfl
        (.number (Writer.number_int32 i))
  | .int64 i, p, w, w', separator, rel, ready, _ =>
      spaces.scalar rel (by rw [Writer.call, Writer.value, ready]; rfl) rfl
        (.number (Writer.number_int64 i))
  | .double d, p, w, w', separator, rel, ready, .double text =>
      spaces.scalar rel (by rw [Writer.call, Writer.value, ready]; rfl) rfl (.number text)
  | .string s, p, w, w', separator, rel, ready, _ =>
      spaces.scalar rel (by rw [Writer.call, Writer.value, ready]; rfl) rfl
        (.string (Writer.quoted_string s))
  | .array [], p, w, w', separator, rel, ready, _ => by
      obtain ⟨p₁, b₁, b₂, opened, rel₁, blank₁, blank₂⟩ :=
        spaces p w .startArray _ _ rel (Writer.call_start ready).1
      obtain ⟨p₂, b₃, b₄, closed, rel₂, blank₃, blank₄⟩ :=
        spaces p₁ _ .endArray ⟨w'.stack, true⟩ [chr ']'] rel₁ rfl
      refine ⟨p₂, b₁, chr '[' :: ((b₂ ++ b₃) ++ [chr ']']), b₄, ?_, ?_, blank₁, blank₄,
        .emptyArray (blank_append blank₂ blank₃)⟩
      · rw [Value.writeTo, Value.writeToValues, List.nil_append,
          emit_cons opened (emit_singleton closed)]
        simp only [List.append_assoc, List.cons_append, List.nil_append]
      · rwa [← Writer.beforeValue_seen (ready .array)] at rel₂
  | .array (v :: values), p, w, w', separator, rel, ready, .array all => by
      obtain ⟨p₁, b₁, b₂, opened, rel₁, blank₁, blank₂⟩ :=
        spaces p w .startArray _ _ rel (Writer.call_start ready).1
      obtain ⟨p₂, b₃, ts, inside, rel₂, blank₃, d⟩ :=
        spaces.writeToValues (v :: values) p₁ 0 w'.stack rel₁ (List.cons_ne_nil _ _) all
      obtain ⟨p₃, b₄, b₅, closed, rel₃, blank₄, blank₅⟩ :=
        spaces p₂ _ .endArray ⟨w'.stack, true⟩ [chr ']'] rel₂ rfl
      refine ⟨p₃, b₁, chr '[' :: ((b₂ ++ b₃) ++ (ts ++ b₄) ++ [chr ']']), b₅, ?_, ?_, blank₁, blank₅,
        .array (blank_append blank₂ blank₃) (d b₄ blank₄)⟩
      · rw [Value.writeTo, emit_cons opened (emit_append inside (emit_singleton closed))]
        simp only [List.append_assoc, List.cons_append, List.nil_append]
        rfl
      · rwa [← Writer.beforeValue_seen (ready .array)] at rel₃
  | .object [], p, w, w', separator, rel, ready, _ => by
      obtain ⟨p₁, b₁, b₂, opened, rel₁, blank₁, blank₂⟩ :=
        spaces p w .startObject _ _ rel (Writer.call_start ready).2
      obtain ⟨p₂, b₃, b₄, closed, rel₂, blank₃, blank₄⟩ :=
        spaces p₁ _ .endObject ⟨w'.stack, true⟩ [chr '}'] rel₁ rfl
      refine ⟨p₂, b₁, 0x7B :: ((b₂ ++ b₃) ++ [0x7D]), b₄, ?_, ?_, blank₁, blank₄,
        .emptyObject (blank_append blank₂ blank₃)⟩
      · rw [Value.writeTo, Value.writeToMembers, List.nil_append,
          emit_cons opened (emit_singleton closed)]
        simp only [List.append_assoc, List.cons_append, List.nil_append]
        rfl
      · rwa [← Writer.beforeValue_seen (ready .object)] at rel₂
  | .object (m :: members), p, w, w', separator, rel, ready, .object plain all => by
      obtain ⟨p₁, b₁, b₂, opened, rel₁, blank₁, blank₂⟩ :=
        spaces p w .startObject _ _ rel (Writer.call_start ready).2
      obtain ⟨p₂, b₃, ts, inside, rel₂, blank₃, d⟩ :=
        spaces.writeToMembers (m :: members) p₁ 0 w'.stack rfl rel₁ (List.cons_ne_nil _ _) plain all
      obtain ⟨p₃, b₄, b₅, closed, rel₃, blank₄, blank₅⟩ :=
        spaces p₂ _ .endObject ⟨w'.stack, true⟩ [chr '}'] rel₂ rfl
      refine ⟨p₃, b₁, 0x7B :: ((b₂ ++ b₃) ++ (ts ++ b₄) ++ [0x7D]), b₅, ?_, ?_, blank₁, blank₅,
        .object (blank_append blank₂ blank₃) (d b₄ blank₄)⟩
      · rw [Value.writeTo, emit_cons opened (emit_append inside (emit_singleton closed))]
        simp only [List.append_assoc, List.cons_append, List.nil_append]
        rfl
      · rwa [← Writer.beforeValue_seen (ready .object)] at rel₃

/-- Elements, of which there are some. -/
theorem writeToValues (spaces : Spaces call sprintf R) : ∀ (values : List Value) (p : σ)
    (count : Nat) (stack : List Writer.Level), R p ⟨⟨true, count⟩ :: stack, true⟩ →
    values ≠ [] → (∀ v ∈ values, Readable sprintf v) →
      ∃ p' b ts, emit call p (Value.writeToValues values) =
          .ok (p', b ++ Writer.comma count ++ ts) ∧
        R p' ⟨⟨true, count + values.length⟩ :: stack, true⟩ ∧ Blank b ∧
        ∀ b', Blank b' → Denotes (ts ++ b') (.elements (Value.reparseValues values))
  | [], p, count, stack, rel, ne, readable => absurd rfl ne
  | [v], p, count, stack, rel, ne, readable => by
      obtain ⟨p₁, b₁, t, b₂, first, rel₁, blank₁, blank₂, d⟩ := spaces.writeTo v p
        ⟨⟨true, count⟩ :: stack, true⟩ ⟨⟨true, count + 1⟩ :: stack, true⟩ (Writer.comma count) rel
        (fun type => rfl) (readable v List.mem_cons_self)
      refine ⟨p₁, b₁, t ++ b₂, ?_, rel₁, blank₁, fun b' blank' => ?_⟩
      · rw [Value.writeToValues, Value.writeToValues, List.append_nil, first, List.append_assoc]
      · rw [List.append_assoc]
        exact .lastElement d (blank_append blank₂ blank')
  | v :: u :: values, p, count, stack, rel, ne, readable => by
      obtain ⟨p₁, b₁, t, b₂, first, rel₁, blank₁, blank₂, d⟩ := spaces.writeTo v p
        ⟨⟨true, count⟩ :: stack, true⟩ ⟨⟨true, count + 1⟩ :: stack, true⟩ (Writer.comma count) rel
        (fun type => rfl) (readable v List.mem_cons_self)
      obtain ⟨p₂, b₃, ts, others, rel₂, blank₃, d'⟩ := spaces.writeToValues (u :: values) p₁
        (count + 1) stack rel₁ (List.cons_ne_nil _ _) fun w mem =>
          readable w (List.mem_cons_of_mem v mem)
      refine ⟨p₂, b₁, t ++ (b₂ ++ b₃) ++ chr ',' :: ([] ++ ts), ?_, ?_, blank₁, fun b' blank' => ?_⟩
      · rw [Value.writeToValues, emit_append first others]
        simp only [Writer.comma, Nat.succ_pos, if_true, List.append_assoc, List.cons_append,
          List.nil_append]
      · rwa [List.length_cons, Nat.add_comm _ 1, ← Nat.add_assoc]
      · have more := Denotes.element d (blank_append blank₂ blank₃) blank_nil (d' b' blank')
        rw [Value.reparseValues]
        simpa only [List.append_assoc, List.cons_append, List.nil_append] using more

/-- Members, of which there are some. -/
theorem writeToMembers (spaces : Spaces call sprintf R) : ∀ (members : List (Bytes × Value))
    (p : σ) (count : Nat) (stack : List Writer.Level), count % 2 = 0 →
    R p ⟨⟨false, count⟩ :: stack, true⟩ → members ≠ [] → (∀ m ∈ members, ∀ c ∈ m.1, Plain c) →
    (∀ m ∈ members, Readable sprintf m.2) →
      ∃ p' b ts, emit call p (Value.writeToMembers members) =
          .ok (p', b ++ Writer.comma count ++ ts) ∧
        R p' ⟨⟨false, count + 2 * members.length⟩ :: stack, true⟩ ∧ Blank b ∧
        ∀ b', Blank b' → Denotes (ts ++ b') (.members (Value.reparseMembers members))
  | [], p, count, stack, even, rel, ne, plain, readable => absurd rfl ne
  | [m], p, count, stack, even, rel, ne, plain, readable => by
      have name := Writer.quoted_key (plain m List.mem_cons_self)
      obtain ⟨p₁, b₁, b₂, named, rel₁, blank₁, blank₂⟩ :=
        spaces p _ (.key m.1) _ _ rel (Writer.call_key m.1 stack even)
      obtain ⟨p₂, b₃, t, b₄, first, rel₂, blank₃, blank₄, d⟩ := spaces.writeTo m.2 p₁
        ⟨⟨false, count + 1⟩ :: stack, true⟩ ⟨⟨false, count + 2⟩ :: stack, true⟩ [chr ':'] rel₁
        (Writer.beforeValue_odd stack even) (readable m List.mem_cons_self)
      refine ⟨p₂, b₁, Writer.key m.1 ++ (b₂ ++ b₃) ++ chr ':' :: ([] ++ t ++ b₄), ?_, rel₂, blank₁,
        fun b' blank' => ?_⟩
      · rw [Value.writeToMembers, Value.writeToMembers, List.append_nil, emit_cons named first]
        simp only [List.append_assoc, List.cons_append, List.nil_append]
      · have last := Denotes.lastMember name (blank_append blank₂ blank₃) blank_nil d
          (blank_append blank₄ blank')
        rw [Value.reparseMembers, Value.reparseMembers]
        simpa only [List.append_assoc, List.cons_append, List.nil_append] using last
  | m :: m' :: members, p, count, stack, even, rel, ne, plain, readable => by
      have name := Writer.quoted_key (plain m List.mem_cons_self)
      obtain ⟨p₁, b₁, b₂, named, rel₁, blank₁, blank₂⟩ :=
        spaces p _ (.key m.1) _ _ rel (Writer.call_key m.1 stack even)
      obtain ⟨p₂, b₃, t, b₄, first, rel₂, blank₃, blank₄, d⟩ := spaces.writeTo m.2 p₁
        ⟨⟨false, count + 1⟩ :: stack, true⟩ ⟨⟨false, count + 2⟩ :: stack, true⟩ [chr ':'] rel₁
        (Writer.beforeValue_odd stack even) (readable m List.mem_cons_self)
      obtain ⟨p₃, b₅, ts, others, rel₃, blank₅, d'⟩ := spaces.writeToMembers (m' :: members) p₂
        (count + 2) stack (by omega) rel₂ (List.cons_ne_nil _ _)
        (fun n mem => plain n (List.mem_cons_of_mem m mem))
        fun n mem => readable n (List.mem_cons_of_mem m mem)
      have length : count + 2 + 2 * (m' :: members).length =
          count + 2 * (m :: m' :: members).length := by
        simp only [List.length_cons]
        omega
      refine ⟨p₃, b₁, Writer.key m.1 ++ (b₂ ++ b₃) ++
        chr ':' :: ([] ++ t ++ (b₄ ++ b₅) ++ chr ',' :: ([] ++ ts)), ?_, length ▸ rel₃, blank₁,
        fun b' blank' => ?_⟩
      · rw [Value.writeToMembers, emit_cons named (emit_append first others)]
        simp only [Writer.comma, Nat.succ_pos, if_true, List.append_assoc, List.cons_append,
          List.nil_append]
      · have more := Denotes.member name (blank_append blank₂ blank₃) blank_nil d
          (blank_append blank₄ blank₅) blank_nil (d' b' blank')
        rw [Value.reparseMembers]
        simpa only [List.append_assoc, List.cons_append, List.nil_append] using more

end

/-- The text of a value from a fresh writer is parsed as the value. -/
theorem parse_writeTo (spaces : Spaces call sprintf R) (rel : R p Writer.fresh) {v : Value}
    (readable : Readable sprintf v) (keyed : v.WellKeyed) :
    ∃ p' text, emit call p v.writeTo = .ok (p', text) ∧ R p' ⟨[], true⟩ ∧
      parse text = .ok v.reparse := by
  obtain ⟨p', b, t, b', put_text, rel', blank, blank', d⟩ :=
    spaces.writeTo v p Writer.fresh ⟨[], true⟩ [] rel (fun type => rfl) readable
  rw [List.append_nil] at put_text
  exact ⟨p', b ++ t ++ b', put_text, rel', parse_of_denotes d blank blank' keyed.reparse⟩

end Spaces

/-! ## The two writers -/

section Writers

variable {sprintf : Double → Bytes}

theorem Writer.spaces : Spaces (Writer.call sprintf) sprintf Eq := by
  rintro w _ e w' text rfl called
  exact ⟨w', [], [], by rw [called, List.nil_append, List.append_nil], rfl, blank_nil, blank_nil⟩

/-- A pretty writer around the writer: as deep as its stack, with a blank to indent by. -/
structure Pretty (p : PrettyWriter) (w : Writer) : Prop where
  writer : p.writer = w
  depth : p.indentDepth = w.stack.length
  blank : Blank p.indent

theorem Pretty.newline {p : PrettyWriter} (blank : Blank p.indent) : Blank p.newline := by
  refine List.forall_mem_cons.mpr ⟨rfl, fun c mem => ?_⟩
  obtain ⟨piece, one, inside⟩ := List.mem_flatten.mp mem
  rw [List.eq_of_mem_replicate one] at inside
  exact blank c inside

section Pass

variable {p : PrettyWriter} {w w' : Writer} {e : Event} {text : Bytes}

theorem Pretty.pass (pretty : Pretty p w) (called : w.call sprintf e = .ok (w', text)) :
    p.pass sprintf e = .ok ({ p with writer := w' }, text) := by
  rw [PrettyWriter.pass, pretty.writer, called]
  rfl

/-- A scalar, and a new line inside a container. -/
theorem Pretty.scalar {type : ValueType} {scalar : Bytes} (pretty : Pretty p w)
    (called : w.value type scalar = .ok (w', text)) (passed : p.pass sprintf e =
      .ok ({ p with writer := w' }, text)) :
    ∃ p' b b', ((p.pass sprintf e).map fun q => q.1.keepIndent q.2) = .ok (p', b ++ text ++ b') ∧
      Pretty p' w' ∧ Blank b ∧ Blank b' := by
  rw [passed]
  refine ⟨_, [], _, rfl,
    ⟨rfl, pretty.depth.trans (Writer.length_value called).symm, pretty.blank⟩, blank_nil, ?_⟩
  split
  · exact Pretty.newline pretty.blank
  · exact blank_nil

theorem Pretty.start {type : ValueType} {bracket : UInt8} (pretty : Pretty p w)
    (called : w.start type bracket = .ok (w', text)) (passed : p.pass sprintf e =
      .ok ({ p with writer := w' }, text)) :
    ∃ p' b b', ((p.pass sprintf e).map fun q => q.1.incrIndent q.2) = .ok (p', b ++ text ++ b') ∧
      Pretty p' w' ∧ Blank b ∧ Blank b' := by
  rw [passed]
  refine ⟨_, [], _, rfl, ⟨rfl, ?_, pretty.blank⟩, blank_nil, Pretty.newline pretty.blank⟩
  exact (congrArg (· + 1) pretty.depth).trans (Writer.length_start called).symm

theorem Pretty.finish {inArray : Bool} {bracket : UInt8} (pretty : Pretty p w)
    (called : w.finish inArray bracket = .ok (w', text))
    (same : w.call sprintf e = w.finish inArray bracket) :
    ∃ p' b b', (do
        let (p, blank) ← p.decrIndent
        (p.pass sprintf e).map fun q => (q.1, blank ++ q.2) : Except Thrown (PrettyWriter × Bytes)) =
          .ok (p', b ++ text ++ b') ∧
      Pretty p' w' ∧ Blank b ∧ Blank b' := by
  have deep : 0 < p.indentDepth := by
    rw [pretty.depth, Writer.length_finish called]
    exact Nat.succ_pos _
  have passed : ({ p with indentDepth := p.indentDepth - 1, expectObjectValue := false } :
      PrettyWriter).pass sprintf e = .ok (⟨p.indent, p.indentDepth - 1, false, w'⟩, text) := by
    rw [PrettyWriter.pass, pretty.writer, same, called]
    rfl
  rw [PrettyWriter.decrIndent, if_pos deep]
  simp only [except_ok_bind, passed]
  refine ⟨⟨p.indent, p.indentDepth - 1, false, w'⟩,
    ({ p with indentDepth := p.indentDepth - 1 } : PrettyWriter).newline, [], ?_,
    ⟨rfl, ?_, pretty.blank⟩, Pretty.newline pretty.blank, blank_nil⟩
  · rw [List.append_nil]
    rfl
  · show p.indentDepth - 1 = _
    rw [pretty.depth, Writer.length_finish called]
    rfl

end Pass

theorem PrettyWriter.spaces : Spaces (PrettyWriter.call sprintf) sprintf Pretty := by
  intro p w e w' text pretty called
  have passed := pretty.pass called
  cases e with
  | null | bool | int32 | int64 | double | string => exact pretty.scalar called passed
  | startObject | startArray => exact pretty.start called passed
  | endObject | endArray => exact pretty.finish called rfl
  | key s =>
      have named : Pretty { p with expectObjectValue := true } w :=
        ⟨pretty.writer, pretty.depth, pretty.blank⟩
      refine ⟨⟨p.indent, p.indentDepth, true, w'⟩, [], [], ?_,
        ⟨rfl, pretty.depth.trans (Writer.length_value called).symm, pretty.blank⟩, blank_nil, blank_nil⟩
      rw [List.nil_append, List.append_nil]
      exact named.pass called

/-- **The writer's text is read back**, with integers in the narrowest width. -/
theorem parse_write {v : Value} (readable : Readable sprintf v) (keyed : v.WellKeyed) :
    parse (Writer.write sprintf v) = .ok v.reparse := by
  obtain ⟨w, text, put_text, -, parsed⟩ := Writer.spaces.parse_writeTo rfl readable keyed
  rw [Writer.emit_writeTo v Writer.fresh ⟨[], true⟩ [] fun type => rfl] at put_text
  cases put_text
  exact parsed

/-- An array of a 64-bit number that fits 32 bits and a string with a line feed. -/
def mixed : Value := .array [.int64 7, .string (ascii "a\n")]

theorem mixed_readable : Readable Writer.noDoubles mixed :=
  .array (by simpa using ⟨.int64 7, .string (ascii "a\n")⟩)

theorem mixed_read_back : parse (Writer.write Writer.noDoubles mixed) = .ok mixed.reparse :=
  parse_write mixed_readable (.array (by simpa using ⟨.int64 7, .string (ascii "a\n")⟩))

/-- **From reader to writer.** The reader over a writer puts down the text of the value it
reads, and the pretty writer, for any blank to indent by, a text that is read as the same
value; neither fails an assertion. -/
theorem rewrite_text {s : Bytes} {v : Value} (parsed : parse s = .ok v)
    (readable : Readable sprintf v) {indent : Bytes} (blank : Blank indent) :
    Sax.parse (put (Writer.call sprintf)) s (Writer.fresh, []) =
        ok (⟨[], true⟩, Writer.write sprintf v) ∧
      ∃ p text, Sax.parse (put (PrettyWriter.call sprintf)) s (PrettyWriter.fresh indent, []) =
          ok (p, text) ∧ p.indentDepth = 0 ∧ parse text = .ok v.reparse := by
  obtain ⟨pre, t, post, rfl, blank', blank'', d⟩ := denotes_of_parse parsed
  constructor
  · have put_text : emit (Writer.call sprintf) Writer.fresh v.writeTo =
        .ok (⟨[], true⟩, [] ++ Writer.write sprintf v) :=
      Writer.emit_writeTo v Writer.fresh ⟨[], true⟩ [] fun type => rfl
    rw [Sax.parse_denotes d blank' blank'', Sax.tell, foldlM_put put_text []]
    rfl
  · obtain ⟨p, text, put_text, pretty, again⟩ := PrettyWriter.spaces.parse_writeTo
      (p := PrettyWriter.fresh indent) ⟨rfl, rfl, blank⟩ readable (parse_wellKeyed parsed)
    refine ⟨p, text, ?_, pretty.depth, again⟩
    rw [Sax.parse_denotes d blank' blank'', Sax.tell, foldlM_put put_text []]
    rfl

/-- An array indented by four blanks. -/
theorem array_rewritten :
    let s := ascii " [ null , 7 ] "
    let v := Value.array [.null, .int32 7]
    Sax.parse (put (Writer.call Writer.noDoubles)) s (Writer.fresh, []) =
        ok (⟨[], true⟩, Writer.write Writer.noDoubles v) ∧
      ∃ p text, Sax.parse (put (PrettyWriter.call Writer.noDoubles)) s
          (PrettyWriter.fresh (ascii "    "), []) = ok (p, text) ∧
        p.indentDepth = 0 ∧ parse text = .ok v.reparse :=
  rewrite_text (by decide +kernel) (.array (by simpa using ⟨.null, .int32 7⟩))
    (List.all_eq_true.mp (by decide))

end Writers

end LaliRpc.Jackson
