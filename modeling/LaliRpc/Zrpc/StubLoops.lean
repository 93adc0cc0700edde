/-
# Zrpc.StubLoops — where the loops of the generators end

`replaceAll` begins to search at the front again after every replacement, so it
goes through what it has put in. For a name that contains a placeholder the loops
may not end (`replaceAll_diverges`).

A text put in by one loop is searched by that loop and the later ones of the same
template, and then, as part of the argument of another template, by the loops
there. Which placeholders these are is known for each kind of name; that no name
has one of them is `ClearNames`, and then every loop ends, with its argument in the
holes that are spelled for it (`Service.settles_getStub`,
`Client.settles_getStub`).
-/
import LaliRpc.Zrpc.StubText

namespace LaliRpc.Zrpc.StubText

open LaliRpc.Jackson LaliRpc.Theory LaliRpc.Theory.Substitution StubTemplate

set_option autoImplicit false

/-! ## Texts without placeholders -/

/-- The placeholder is not found in the text. -/
abbrev Lacks (p : Placeholder) (s : Bytes) : Prop := Free p.spelling s

/-- None of the placeholders is. -/
abbrev LacksAll (ps : List Placeholder) (s : Bytes) : Prop := ∀ p ∈ ps, Lacks p s

variable {p : Placeholder} {ps qs : List Placeholder} {s t : Bytes}

theorem LacksAll.mono (lacks : LacksAll qs s) (sub : ∀ p ∈ ps, p ∈ qs) : LacksAll ps s :=
  fun p mem => lacks p (sub p mem)

theorem lacksAll_append :
    LacksAll (qs ++ ps) s ↔ LacksAll qs s ∧ LacksAll ps s :=
  List.forall_mem_append

theorem lacks_append (border : Border Placeholder.isFence s t) (left : Lacks p s)
    (right : Lacks p t) : Lacks p (s ++ t) :=
  free_append (Placeholder.words.foreign p) border left right

theorem lacks_nil : Lacks p [] := free_nil (List.cons_ne_nil _ _)

/-- A text without an opening bracket. -/
theorem lacks_of_not_mem (none : chr '[' ∉ s) : Lacks p s :=
  fun occurs => none (occurs.subset List.mem_cons_self)

/-- A literal that is checked by its characters. -/
theorem lacks_ascii {literal : String} {l : List Char} (same : literal = String.ofList l)
    (none : chr '[' ∉ l.map chr) : Lacks p (ascii literal) := by
  rw [ascii_ofList same]
  exact lacks_of_not_mem none

theorem begins_ascii {literal : String} {l : List Char} (same : literal = String.ofList l)
    (opens : (l.map chr).head?.any Placeholder.isFence = true) :
    (ascii literal).head?.any Placeholder.isFence = true := by
  rw [ascii_ofList same]
  exact opens

/-- What is put behind a name, without a closing bracket, completes no placeholder. -/
theorem lacks_suffix (none : chr ']' ∉ t) (lacks : Lacks p s) : Lacks p (s ++ t) := by
  induction t using List.reverseRecOn with
  | nil =>
      rw [List.append_nil]
      exact lacks
  | append_singleton t c ih =>
      intro occurs
      rw [← List.append_assoc] at occurs
      rcases List.infix_concat_iff.mp occurs with ends | earlier
      · rcases List.suffix_concat_iff.mp ends with empty | ⟨u, same, -⟩
        · exact List.cons_ne_nil _ _ empty
        · have last := List.append_inj_right' same rfl
          rw [List.singleton_inj] at last
          exact none (List.mem_append_right t (last ▸ List.mem_cons_self))
      · exact ih (fun mem => none (List.mem_append_left _ mem)) earlier

theorem opens_append (opens : s.head?.any Placeholder.isFence = true) (t : Bytes) :
    (s ++ t).head?.any Placeholder.isFence = true := by
  cases s with
  | nil => cases opens
  | cons c s => exact opens

theorem closes_append (closes : t.getLast?.any Placeholder.isFence = true) (s : Bytes) :
    (s ++ t).getLast?.any Placeholder.isFence = true := by
  cases t with
  | nil => cases closes
  | cons c t =>
      rw [List.getLast?_append_of_ne_nil _ (List.cons_ne_nil _ _)]
      exact closes

theorem lacks_quoted (lacks : Lacks p s) : Lacks p (quoted s) := by
  have mark : Lacks p [chr '"'] := lacks_of_not_mem (by decide)
  exact lacks_append (.inr rfl) (lacks_append (.inl rfl) mark lacks) mark

/-- Texts that each begin with a fence, one behind the other. -/
theorem lacks_flatten_opens {blocks : List Bytes}
    (each : ∀ b ∈ blocks, Lacks p b ∧ b.head?.any Placeholder.isFence = true) :
    Lacks p blocks.flatten := by
  induction blocks with
  | nil => exact lacks_nil
  | cons b blocks ih =>
      have rest := ih fun c mem => each c (List.mem_cons_of_mem b mem)
      have first := (each b List.mem_cons_self).1
      cases blocks with
      | nil =>
          rw [List.flatten_cons, List.flatten_nil, List.append_nil]
          exact first
      | cons c blocks =>
          exact lacks_append (.inr (opens_append (each c (by simp)).2 _)) first rest

/-- Texts that each end with one. -/
theorem lacks_flatten_closes {blocks : List Bytes}
    (each : ∀ b ∈ blocks, Lacks p b ∧ b.getLast?.any Placeholder.isFence = true) :
    Lacks p blocks.flatten := by
  induction blocks with
  | nil => exact lacks_nil
  | cons b blocks ih =>
      obtain ⟨first, closes⟩ := each b List.mem_cons_self
      exact lacks_append (.inl closes) first (ih fun c mem => each c (List.mem_cons_of_mem b mem))

/-! ## Template functions -/

/-- The placeholders of a template. -/
def holes (T : StubTemplate) : List Placeholder :=
  T.filterMap fun
    | .text _ => none
    | .hole p => some p

theorem mem_holes {T : StubTemplate} {p : Placeholder} (mem : Piece.hole p ∈ T) : p ∈ holes T :=
  List.mem_filterMap.mpr ⟨.hole p, mem, rfl⟩

/-- The loops for the placeholders fill the template, but for the misspelled one. -/
def Fits (T : StubTemplate) (keys : List Placeholder) : Prop :=
  keys.Nodup ∧ ∀ p ∈ holes T, p ∈ keys ∨ p = .NotifyName

instance (T : StubTemplate) (keys : List Placeholder) : Decidable (Fits T keys) :=
  inferInstanceAs (Decidable (_ ∧ _))

/-- Every argument lacks its placeholder, and those that are searched for later. -/
def LacksLater : List (Placeholder × Bytes) → Prop
  | [] => True
  | r :: rs => LacksAll (r.1 :: rs.map Prod.fst) r.2 ∧ LacksLater rs

theorem clear_of_lacksLater (T : StubTemplate) : ∀ {rs : List (Placeholder × Bytes)},
    LacksLater rs → Placeholder.words.Clear T rs
  | [], _ => ⟨fun _ mem => absurd mem List.not_mem_nil, .nil⟩
  | r :: rs, ⟨here, later⟩ => by
      obtain ⟨own, earlier⟩ := clear_of_lacksLater T later
      constructor
      · rintro q mem hole
        rcases List.mem_cons.mp mem with rfl | mem
        · exact here q.1 List.mem_cons_self
        · exact own q mem hole
      · refine .cons (fun q mem _ => ?_) earlier
        exact here q.1 (List.mem_cons_of_mem _ (List.mem_map_of_mem mem))

/-- A loop for a placeholder that the template does not have puts nothing in. -/
theorem clear_cons_absent {T : StubTemplate} {r : Placeholder × Bytes}
    {rs : List (Placeholder × Bytes)} (absent : r.1 ∉ holes T)
    (clear : Placeholder.words.Clear T rs) : Placeholder.words.Clear T (r :: rs) := by
  constructor
  · rintro q mem hole
    rcases List.mem_cons.mp mem with rfl | mem
    · exact absurd (mem_holes hole) absent
    · exact clear.own q mem hole
  · exact .cons (fun q _ hole => absurd (mem_holes hole) absent) clear.earlier

/-- The text of a filled template lacks what its arguments lack. -/
theorem lacks_fill {T : StubTemplate} (mem : T ∈ templates) {rs : List (Placeholder × Bytes)}
    (fits : Fits T (rs.map Prod.fst)) (misspelled : .NotifyName ∈ holes T → .NotifyName ∉ ps)
    (values : ∀ r ∈ rs, LacksAll ps r.2) :
    LacksAll ps (fill (subst rs Placeholder.spelling) T) := by
  intro p searched
  have tidy := tidy mem
  apply free_fill (Placeholder.words.foreign p) (List.cons_ne_nil _ _) _ tidy.fenced (tidy.texts p)
  intro h inside
  unfold subst
  cases found : rs.lookup h with
  | some v =>
      exact values (h, v) (mem_of_lookup found) p searched
  | none =>
      apply Placeholder.words.apart
      rintro rfl
      rcases fits.2 p (mem_holes inside) with key | rfl
      · exact lookup_eq_none_iff.mp found key
      · exact misspelled (mem_holes inside) searched

/-- What the loops of a template function come to. -/
theorem settles_of_loops {T : StubTemplate} {rs : List (Placeholder × Bytes)} {P : Bytes → Prop}
    (loops : ∃ N, ∀ fuel, N ≤ fuel →
      Placeholder.words.replaceEach rs fuel (fill Placeholder.words.spell T) =
        some (fill (subst rs Placeholder.words.spell) T))
    (value : P (fill (subst rs Placeholder.spelling) T)) :
    Settles .running (fun fuel => sequential fuel T rs) (asSpelled T rs) P := by
  obtain ⟨N, same⟩ := loops
  refine ⟨⟨N, fun fuel le => ?_⟩, nofun, fun str eq => Except.ok.inj eq ▸ value⟩
  have filled := same fuel le
  unfold sequential
  rw [show fill Placeholder.spelling T = fill Placeholder.words.spell T from rfl, filled]
  rfl

/-- **A template function ends**, with its arguments where they are spelled. -/
theorem settles_clear {T : StubTemplate} (mem : T ∈ templates) {rs : List (Placeholder × Bytes)}
    (fits : Fits T (rs.map Prod.fst)) (clear : Placeholder.words.Clear T rs)
    (misspelled : .NotifyName ∈ holes T → .NotifyName ∉ ps)
    (values : rs.Forall fun r => LacksAll ps r.2) :
    Settles .running (fun fuel => sequential fuel T rs) (asSpelled T rs) (LacksAll ps) :=
  settles_of_loops (Words.replaceEach_clear (tidy mem) fits.1 clear)
    (lacks_fill mem fits misspelled (List.forall_iff_forall_mem.mp values))

/-- The text of a template that begins with a fence begins with it too. -/
theorem settles_opens {T : StubTemplate} {rs : List (Placeholder × Bytes)}
    (opens : s.head?.any Placeholder.isFence = true)
    (settles : Settles .running (fun fuel => sequential fuel (.text s :: T) rs)
      (asSpelled (.text s :: T) rs) (LacksAll ps)) :
    Settles .running (fun fuel => sequential fuel (.text s :: T) rs) (asSpelled (.text s :: T) rs)
      fun b => LacksAll ps b ∧ b.head?.any Placeholder.isFence = true := by
  refine ⟨settles.same, settles.done, fun b eq => ⟨settles.value b eq, ?_⟩⟩
  obtain rfl := Except.ok.inj eq
  exact opens_append opens _

/-! ## Accessors -/

/-- An index: digits, or a name in quotation marks. -/
structure Solid (s : Bytes) : Prop where
  opens : s.head?.any Placeholder.isFence = true
  closes : s.getLast?.any Placeholder.isFence = true

theorem solid_quoted (s : Bytes) : Solid (quoted s) := by
  refine ⟨rfl, ?_⟩
  rw [quoted, List.getLast?_append_of_ne_nil _ (List.cons_ne_nil _ _)]
  rfl

theorem digit_fence {c : UInt8} (digit : isDigit c = true) : Placeholder.isFence c = true := by
  obtain ⟨-, most⟩ := (isDigit_iff c).mp digit
  have small : c < 65 := UInt8.lt_iff_toNat_lt.mpr (show c.toNat < 65 by omega)
  simp [Placeholder.isFence, small]

theorem solid_toDecimal (i : Nat) : Solid (toDecimal i) := by
  have fences : ∀ c ∈ toDecimal i, Placeholder.isFence c = true := fun c mem =>
    digit_fence (isDigit_of_mem_toDecimal mem)
  have nonempty := toDecimal_ne_nil i
  constructor
  · rw [List.head?_eq_some_head nonempty]
    exact fences _ (List.head_mem nonempty)
  · rw [List.getLast?_eq_some_getLast nonempty]
    exact fences _ (List.getLast_mem nonempty)

theorem lacks_toDecimal (i : Nat) : Lacks p (toDecimal i) := by
  apply lacks_of_not_mem
  intro mem
  have digit := isDigit_of_mem_toDecimal mem
  revert digit
  decide

section

variable {g : Placeholder → Bytes}

theorem lacks_method (opens : g .method = [] ∨ (g .method).head?.any Placeholder.isFence = true)
    (method : Lacks p (g .method)) :
    Lacks p (fill g [text "]", hole .method, text ";"]) := by
  have closing : Lacks p (ascii "]") := lacks_ascii rfl (by decide)
  have semicolon : ascii ";" = [chr ';'] := ascii_ofList rfl
  have front : Lacks p (ascii "]" ++ g .method) := by
    rcases opens with empty | opens
    · rw [empty, List.append_nil]
      exact closing
    · exact lacks_append (.inr opens) closing method
  show Lacks p (ascii "]" ++ (g .method ++ (ascii ";" ++ [])))
  rw [List.append_nil, ← List.append_assoc, semicolon]
  exact lacks_append (.inr rfl) front (lacks_of_not_mem (by decide))

theorem lacks_index (solid : Solid (g .index)) (index : Lacks p (g .index))
    (rest : Lacks p (fill g [text "]", hole .method, text ";"])) :
    Lacks p (fill g [text " = params[", hole .index, text "]", hole .method, text ";"]) := by
  have front : Lacks p (ascii " = params[") := by
    apply Placeholder.free_of_noOpening
    rw [ascii_ofList rfl]
    decide
  show Lacks p (ascii " = params[" ++ (g .index ++ fill g [text "]", hole .method, text ";"]))
  exact lacks_append (.inr (opens_append solid.opens _)) front
    (lacks_append (.inl solid.closes) index rest)

theorem lacks_arg (arg : Lacks p (g .arg)) (rest : Lacks p
    (fill g [text " = params[", hole .index, text "]", hole .method, text ";"])) :
    Lacks p (fill g argsDefine) := by
  have auto : ascii "auto " = [chr 'a', chr 'u', chr 't', chr 'o', chr ' '] := ascii_ofList rfl
  have space : (ascii " = params[").head?.any Placeholder.isFence = true := by
    rw [ascii_ofList rfl]
    rfl
  show Lacks p (ascii "auto " ++ (g .arg ++
    fill g [text " = params[", hole .index, text "]", hole .method, text ";"]))
  rw [auto]
  exact lacks_append (.inl rfl) (lacks_of_not_mem (by decide))
    (lacks_append (.inr (opens_append space _)) arg rest)

end

theorem index_tail : Lacks .arg (fill Placeholder.spelling
    [text " = params[", hole .index, text "]", hole .method, text ";"]) :=
  find_eq_none_iff.mp (by decide +kernel)

theorem method_tail : Lacks .index (fill Placeholder.spelling [text "]", hole .method, text ";"]) :=
  find_eq_none_iff.mp (by decide +kernel)

/-- The text of a getter: nothing, or it begins with a dot. -/
def IsGetter (method : Bytes) : Prop :=
  (method = [] ∨ method.head?.any Placeholder.isFence = true) ∧ ∀ p, Lacks p method

theorem isGetter_ascii {literal : String} {l : List Char} (same : literal = String.ofList l)
    (opens : (l.map chr).head?.any Placeholder.isFence = true) (none : chr '[' ∉ l.map chr) :
    IsGetter (ascii literal) := by
  refine ⟨.inr ?_, fun p => lacks_ascii same none⟩
  rw [ascii_ofList same]
  exact opens

theorem settles_getterText (type : ValueType) :
    Settles .running (fun _ => Service.getterText type) (Service.getterText type) IsGetter := by
  cases type with
  | null => exact settles_error (by decide) _
  | bool | int32 | int64 | double | string =>
      exact settles_ok (isGetter_ascii rfl (by decide) (by decide))
  | object | array => exact settles_ok ⟨.inl rfl, fun p => lacks_nil⟩

/-- The loops of an accessor. -/
theorem settles_argsDefine {arg index : Bytes} (argClear : LacksAll [.arg, .index, .method] arg)
    (solid : Solid index) (indexClear : LacksAll [.index, .method] index)
    (argLacks : LacksAll ps arg) (indexLacks : LacksAll ps index) (type : ValueType) :
    Settles .running (fun fuel => Service.argsDefineTemplate (sequential fuel) arg index type)
      (Service.argsDefineTemplate asSpelled arg index type) (LacksAll ps) := by
  refine (settles_getterText type).bind fun method getter => ?_
  let rs : List (Placeholder × Bytes) := [(.arg, arg), (.index, index), (.method, method)]
  have free : Placeholder.words.FreeEach argsDefine Placeholder.spelling rs := by
    refine ⟨?_, ?_, ?_, trivial⟩
    · exact lacks_arg (argClear .arg (by decide)) index_tail
    · exact lacks_arg (argClear .index (by decide))
        (lacks_index solid (indexClear .index (by decide)) method_tail)
    · exact lacks_arg (argClear .method (by decide))
        (lacks_index solid (indexClear .method (by decide)) (lacks_method getter.1 (getter.2 _)))
  have distinct : (rs.map Prod.fst).Nodup := show [Placeholder.arg, .index, .method].Nodup by decide
  apply settles_of_loops (Words.replaceEach_fill (W := Placeholder.words) (fun _ _ => rfl) distinct
    free)
  intro p searched
  exact lacks_arg (argLacks p searched) (lacks_index solid (indexLacks p searched)
    (lacks_method getter.1 (getter.2 p)))

/-! ## Lists of texts -/

/-- Texts that each end with a fence, one behind the other. -/
def Lines (ps : List Placeholder) (s : Bytes) : Prop :=
  ∃ blocks : List Bytes, s = blocks.flatten ∧
    ∀ b ∈ blocks, LacksAll ps b ∧ b.getLast?.any Placeholder.isFence = true

theorem Lines.lacks (lines : Lines ps s) : LacksAll ps s := by
  obtain ⟨blocks, rfl, each⟩ := lines
  intro p searched
  exact lacks_flatten_closes fun b mem => ⟨(each b mem).1 p searched, (each b mem).2⟩

theorem Lines.append (first : Lines ps s) (second : Lines ps t) : Lines ps (s ++ t) := by
  obtain ⟨blocks, rfl, each⟩ := first
  obtain ⟨others, rfl, all⟩ := second
  refine ⟨blocks ++ others, List.flatten_append.symm, fun b mem => ?_⟩
  rcases List.mem_append.mp mem with early | late
  · exact each b early
  · exact all b late

/-- A text ended by a line break is a line. -/
theorem closes_newline (lacks : LacksAll ps s) :
    LacksAll ps (s ++ newline) ∧ (s ++ newline).getLast?.any Placeholder.isFence = true := by
  constructor
  · intro p searched
    exact lacks_append (.inr rfl) (lacks p searched) (lacks_of_not_mem (by decide))
  · rw [newline, List.getLast?_concat]
    rfl

theorem settles_newline {x : Nat → Except Stop Bytes} {y : Except Stop Bytes}
    (settles : Settles .running x y (LacksAll ps)) :
    Settles .running (fun n => x n >>= fun str => pure (str ++ newline))
      (y >>= fun str => pure (str ++ newline))
      fun b => LacksAll ps b ∧ b.getLast?.any Placeholder.isFence = true :=
  settles.bind fun _ lacks => settles_ok (closes_newline lacks)

theorem settles_lines {α : Type} {as : List α} {f : Nat → α → Except Stop Bytes}
    {g : α → Except Stop Bytes}
    (each : ∀ a ∈ as, Settles .running (fun n => f n a) (g a) fun b =>
      LacksAll ps b ∧ b.getLast?.any Placeholder.isFence = true) :
    Settles .running (fun n => as.mapM (f n) >>= fun bs => pure bs.flatten)
      (as.mapM g >>= fun bs => pure bs.flatten) (Lines ps) :=
  (settles_mapM each).bind fun blocks all => settles_ok ⟨blocks, rfl, all⟩

theorem settles_blocks {α : Type} {as : List α} {f : Nat → α → Except Stop Bytes}
    {g : α → Except Stop Bytes}
    (each : ∀ a ∈ as, Settles .running (fun n => f n a) (g a) fun b =>
      LacksAll ps b ∧ b.head?.any Placeholder.isFence = true) :
    Settles .running (fun n => as.mapM (f n) >>= fun bs => pure bs.flatten)
      (as.mapM g >>= fun bs => pure bs.flatten) (LacksAll ps) :=
  (settles_mapM each).bind fun _ all => settles_ok fun p searched =>
    lacks_flatten_opens fun b mem => ⟨(all b mem).1 p searched, (all b mem).2⟩

/-! ## Names -/

/-- The names of the parameters lack the placeholders. -/
def NamesLack (ps : List Placeholder) (params : Value) : Prop :=
  ∀ declared, params = .object declared → ∀ m ∈ declared, LacksAll ps m.1

theorem NamesLack.mono {params : Value} (lack : NamesLack qs params) (sub : ∀ p ∈ ps, p ∈ qs) :
    NamesLack ps params :=
  fun declared shape m mem => (lack declared shape m mem).mono sub

theorem NamesLack.append {params : Value} (first : NamesLack qs params)
    (second : NamesLack ps params) : NamesLack (qs ++ ps) params :=
  fun declared shape m mem =>
    lacksAll_append.mpr ⟨first declared shape m mem, second declared shape m mem⟩

theorem settles_getObject (params : Value) :
    Settles .running (fun _ => getObject params) (getObject params)
      fun declared => params = .object declared := by
  cases params with
  | object declared => exact settles_ok rfl
  | null | bool _ | int32 _ | int64 _ | double _ | string _ | array _ =>
      exact settles_error (by decide) _

theorem lacksAll_suffix (lacks : LacksAll ps s) {literal : String} {l : List Char}
    (same : literal = String.ofList l) (none : chr ']' ∉ l.map chr) :
    LacksAll ps (s ++ ascii literal) := by
  rw [ascii_ofList same]
  exact fun p searched => lacks_suffix none (lacks p searched)

/-- A letter stays, or becomes one between `A` and `Z`. -/
theorem toupper_cases (c : UInt8) : ¬ (97 ≤ c ∧ c ≤ 122) ∧ toupper c = c ∨
    65 ≤ (toupper c).toNat ∧ (toupper c).toNat ≤ 90 := by
  unfold toupper
  by_cases small : 97 ≤ c ∧ c ≤ 122
  · right
    rw [if_pos small]
    have least : 97 ≤ c.toNat := UInt8.le_iff_toNat_le.mp small.1
    have most : c.toNat ≤ 122 := UInt8.le_iff_toNat_le.mp small.2
    have shifted : (c - 32).toNat = c.toNat - 32 :=
      UInt8.toNat_sub_of_le c 32 (UInt8.le_iff_toNat_le.mpr (show 32 ≤ c.toNat by omega))
    omega
  · rw [if_neg small]
    exact .inl ⟨small, rfl⟩

theorem toupper_ne {c d : UInt8} (lower : 97 ≤ d ∧ d ≤ 122) : toupper c ≠ d := by
  have bound : 97 ≤ d.toNat := UInt8.le_iff_toNat_le.mp lower.1
  rintro rfl
  rcases toupper_cases c with ⟨other, same⟩ | ⟨-, most⟩
  · rw [same] at lower
    exact other lower
  · omega

/-- Every placeholder but the misspelled one begins with a small letter. -/
theorem name_lower (ne : p ≠ .NotifyName) : ∃ c w, p.name = c :: w ∧ 97 ≤ c ∧ c ≤ 122 := by
  cases p with
  | NotifyName => exact absurd rfl ne
  | _ => exact ⟨_, _, ascii_ofList rfl, by decide, by decide⟩

theorem lacks_upper (ne : p ≠ .NotifyName) (s : Bytes) : Lacks p (s.map toupper) := by
  obtain ⟨c, w, named, lower⟩ := name_lower ne
  intro occurs
  have small : c ∈ p.spelling := by
    rw [Placeholder.spelling, named]
    simp
  obtain ⟨d, -, upper⟩ := List.mem_map.mp (occurs.subset small)
  exact toupper_ne lower upper

theorem lacks_macroName (lower : .NotifyName ∉ qs) : LacksAll qs (s.map toupper) :=
  fun _ searched => lacks_upper (fun same => lower (same ▸ searched)) s

/-! ## Where the names are searched -/

/-- The placeholders that are searched for in texts that have the name of the
service in them. -/
def searchedInService : List Placeholder :=
  [.userClassName, .stubClassName, .serviceName, .stubProcedureBindings, .stubProcedureDefinitions,
    .procedureDefinitions, .notifyDefinitions]

/-- More of them, when there are procedures. -/
def searchedWithProcedures : List Placeholder :=
  [.stubProcedureName, .procedureParams, .procedureName, .procedureArgs, .paramMembers]

/-- More of them, when there are notifications. -/
def searchedWithNotifications : List Placeholder := [.stubNotifyName, .notifyParams]

/-- Those for the name of a procedure. -/
def searchedInProcedure : List Placeholder :=
  [.procedureName, .stubClassName, .stubProcedureName, .procedureParams, .procedureArgs,
    .paramMembers, .stubProcedureBindings, .stubProcedureDefinitions, .procedureDefinitions,
    .notifyDefinitions]

/-- Those for the name of a parameter of a procedure. -/
def searchedInProcedureParam : List Placeholder :=
  [.arg, .index, .method, .paramsFromJsonArray, .paramsFromJsonObject, .stubProcedureName,
    .procedureName, .procedureArgs, .procedureParams, .stubProcedureBindings,
    .stubProcedureDefinitions, .argName, .paramName, .paramMembers, .procedureDefinitions,
    .notifyDefinitions]

/-- Those for the name of a notification. -/
def searchedInNotify : List Placeholder :=
  [.notifyName, .stubClassName, .stubNotifyName, .notifyParams, .notifyArgs, .paramMembers,
    .stubProcedureBindings, .stubProcedureDefinitions, .notifyDefinitions]

/-- More of them, when it has parameters. -/
def searchedWithNotifyParams : List Placeholder := [.paramsFromJsonArray, .paramsFromJsonObject]

/-- Those for the name of a parameter of a notification. -/
def searchedInNotifyParam : List Placeholder :=
  [.arg, .index, .method, .notifyArgs, .paramsFromJsonArray, .paramsFromJsonObject, .notifyParams,
    .stubProcedureBindings, .stubProcedureDefinitions, .argName, .paramName, .paramMembers,
    .notifyDefinitions]

/-- No name has a placeholder that is searched for where the name is. -/
structure ClearNames (info : ServiceInfo) : Prop where
  service : LacksAll searchedInService info.name
  withProcedures : info.rpcReturn ≠ [] → LacksAll searchedWithProcedures info.name
  withNotifications : info.rpcNotify ≠ [] → LacksAll searchedWithNotifications info.name
  procedures : ∀ r ∈ info.rpcReturn, LacksAll searchedInProcedure r.name
  procedureParams : ∀ r ∈ info.rpcReturn, NamesLack searchedInProcedureParam r.params
  notifications : ∀ r ∈ info.rpcNotify, LacksAll searchedInNotify r.name
  withParams : ∀ r ∈ info.rpcNotify, r.params.getSize > 0 →
    LacksAll searchedWithNotifyParams r.name
  notifyParams : ∀ r ∈ info.rpcNotify, NamesLack searchedInNotifyParam r.params

/-- The placeholders are in no name at all. -/
structure AllLack (ps : List Placeholder) (info : ServiceInfo) : Prop where
  service : LacksAll ps info.name
  macroName : LacksAll ps (info.name.map toupper)
  procedures : ∀ r ∈ info.rpcReturn, LacksAll ps r.name ∧ NamesLack ps r.params
  notifications : ∀ r ∈ info.rpcNotify, LacksAll ps r.name ∧ NamesLack ps r.params

section

variable {info : ServiceInfo}

theorem ClearNames.serviceOfReturn (clear : ClearNames info) {r : RpcReturn}
    (mem : r ∈ info.rpcReturn) : LacksAll (searchedInService ++ searchedWithProcedures) info.name :=
  lacksAll_append.mpr ⟨clear.service, clear.withProcedures (List.ne_nil_of_mem mem)⟩

theorem ClearNames.serviceOfNotify (clear : ClearNames info) {r : RpcNotify}
    (mem : r ∈ info.rpcNotify) :
    LacksAll (searchedInService ++ searchedWithNotifications) info.name :=
  lacksAll_append.mpr ⟨clear.service, clear.withNotifications (List.ne_nil_of_mem mem)⟩

theorem ClearNames.notifyWithParams (clear : ClearNames info) {r : RpcNotify}
    (mem : r ∈ info.rpcNotify) (some : r.params.getSize > 0) :
    LacksAll (searchedInNotify ++ searchedWithNotifyParams) r.name :=
  lacksAll_append.mpr ⟨clear.notifications r mem, clear.withParams r mem some⟩

/-! ## Names without brackets -/

def Plain (s : Bytes) : Prop := chr '[' ∉ s ∧ chr ']' ∉ s

instance (s : Bytes) : Decidable (Plain s) := inferInstanceAs (Decidable (_ ∧ _))

/-- The names of the service, its entries and their parameters. -/
structure PlainNames (info : ServiceInfo) : Prop where
  service : Plain info.name
  procedures : ∀ r ∈ info.rpcReturn, Plain r.name ∧
    ∀ declared, r.params = .object declared → ∀ m ∈ declared, Plain m.1
  notifications : ∀ r ∈ info.rpcNotify, Plain r.name ∧
    ∀ declared, r.params = .object declared → ∀ m ∈ declared, Plain m.1

theorem Plain.lacks (plain : Plain s) (ps : List Placeholder) : LacksAll ps s :=
  fun _ _ => lacks_of_not_mem plain.1

theorem Plain.lacks_toupper (plain : Plain s) (ps : List Placeholder) :
    LacksAll ps (s.map toupper) := by
  intro p _
  apply lacks_of_not_mem
  intro mem
  obtain ⟨c, inside, upper⟩ := List.mem_map.mp mem
  rcases toupper_cases c with ⟨-, same⟩ | ⟨-, most⟩
  · rw [same] at upper
    exact plain.1 (upper ▸ inside)
  · rw [upper] at most
    exact absurd most (by decide)

theorem PlainNames.clear (plain : PlainNames info) : ClearNames info where
  service := plain.service.lacks _
  withProcedures _ := plain.service.lacks _
  withNotifications _ := plain.service.lacks _
  procedures r mem := (plain.procedures r mem).1.lacks _
  procedureParams r mem declared shape m listed :=
    ((plain.procedures r mem).2 declared shape m listed).lacks _
  notifications r mem := (plain.notifications r mem).1.lacks _
  withParams r mem _ := (plain.notifications r mem).1.lacks _
  notifyParams r mem declared shape m listed :=
    ((plain.notifications r mem).2 declared shape m listed).lacks _

theorem PlainNames.allLack (plain : PlainNames info) (ps : List Placeholder) : AllLack ps info where
  service := plain.service.lacks _
  macroName := plain.service.lacks_toupper _
  procedures r mem := ⟨(plain.procedures r mem).1.lacks _, fun declared shape m listed =>
    ((plain.procedures r mem).2 declared shape m listed).lacks _⟩
  notifications r mem := ⟨(plain.notifications r mem).1.lacks _, fun declared shape m listed =>
    ((plain.notifications r mem).2 declared shape m listed).lacks _⟩

end

end LaliRpc.Zrpc.StubText
