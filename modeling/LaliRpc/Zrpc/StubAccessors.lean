/-
# Zrpc.StubAccessors — what the accessors of a generated server read

Four generators go over the parameters of an entry: one for the list that the
constructor registers, two for the accessors of a stub function, one for the
names it passes on. Here is that they fit together. A request that
`validateGeneric` accepts against the registered list has an element for every
accessor, of the type that its getter asserts (`reads_all`), and the user's
method gets the elements in the order of the declaration (`passed_all`).

The accessors declare variables with the names of the parameters, in the block whose
statements use `params`, `convert` and more. A parameter of such a name hides what is
meant, and one called `S` is not declared at all (`resolves_block_iff`).

The call at the end of a stub function is its own template. The one for a
notification with parameters has a misspelled placeholder for the method, which
stays, and an argument more than there are parameters (`accessors_safe_iff`).
-/
import LaliRpc.Zrpc.StubChecks

namespace LaliRpc.Zrpc

open LaliRpc.Jackson LaliRpc.Theory

set_option autoImplicit false

namespace ServiceStubGenerator

/-! ## The call of the user's method -/

/-- A name that a statement uses. `asValue`: a variable of this name that is a
`json::Value` does as well. -/
structure Use where
  name : Bytes
  asValue : Bool

/-- `convert().[method]([args]);`, with the expressions between the commas. Of the
callback that a procedure gets behind them there are the names it uses. -/
structure CallStatement where
  method : Bytes
  args : List Bytes
  uses : List Use

/-- The names in the call of a procedure. -/
def callUses : List Use :=
  [⟨ascii "convert", false⟩, ⟨ascii "UserDoneCallback", false⟩, ⟨ascii "request", true⟩,
    ⟨ascii "done", false⟩]

/-- `[procedureName]([procedureArgs] UserDoneCallback(request, done))` -/
def ProcedureDefine.statement (d : ProcedureDefine) : CallStatement where
  method := d.procedureName
  args :=
    match d.body with
    | .direct => []
    | .fromJson _ _ args => args
  uses := callUses

/-- `[NotifyName]([notifyArgs])`. Every name is followed by a comma, and behind the
last one there is nothing. -/
def NotifyDefine.statement (d : NotifyDefine) : CallStatement where
  method := d.notifyName
  args :=
    match d.body with
    | .direct => []
    | .fromJson _ _ args => args ++ [[]]
  uses := [⟨ascii "convert", false⟩]

/-- The accessors that run on a request. -/
def StubBody.accessors (body : StubBody) (request : Value) : Except Thrown (List ArgsDefine) :=
  match body with
  | .direct => .ok []
  | .fromJson fromArray fromObject _ => do
      let params ← request.member (ascii "params")
      return if params.isArray then fromArray else fromObject

/-- The variables that they declare. -/
def StubBody.locals (body : StubBody) (request : Value) :
    Except Thrown (List (Bytes × CppValue)) :=
  match body with
  | .direct => .ok []
  | .fromJson fromArray fromObject _ => do
      let params ← request.member (ascii "params")
      (if params.isArray then fromArray else fromObject).mapM (ArgsDefine.run params)

/-- The arguments that the user's method is called with. -/
def CallStatement.passed (call : CallStatement) (body : StubBody) (request : Value) :
    Except Thrown (List CppValue) := do
  let locals ← body.locals request
  call.args.mapM (readLocal locals)

/-- The arguments of a procedure are those of its stub function. -/
theorem ProcedureDefine.passed_eq (d : ProcedureDefine) (request : Value) :
    d.statement.passed d.body request = d.body.args request := by
  rw [CallStatement.passed, ProcedureDefine.statement]
  cases d.body with
  | direct => rfl
  | fromJson fromArray fromObject args =>
      cases found : request.member (ascii "params") with
      | error t => simp only [StubBody.locals, StubBody.args, found]; rfl
      | ok params => simp only [StubBody.locals, StubBody.args, found]; rfl

/-! ## The names of a block -/

/-- A variable of the block, with the getter it is initialized by. -/
abbrev Variable : Type := Bytes × Getter

/-- The variable has the name, and is not what the name is used for. -/
def Use.HiddenBy (u : Use) (v : Variable) : Prop :=
  v.1 = u.name ∧ ¬ (u.asValue = true ∧ v.2 = .value)

/-- A statement of a block, by the variable it declares and the names it uses. -/
structure Statement where
  declares : Option Variable
  uses : List Use

/-- `template <typename S>`: nothing that is declared in the class can be called `S` too. -/
def templateParameter : Bytes := ascii "S"

/-- No name that is used is hidden by a variable, and none is taken twice. A variable is in
scope from its own initializer on. -/
def Resolves (scope : List Variable) : List Statement → Prop
  | [] => True
  | s :: rest =>
      let scope := s.declares.toList ++ scope
      (∀ v ∈ s.declares, v.1 ≠ templateParameter) ∧ (∀ u ∈ s.uses, ∀ v ∈ scope, ¬ u.HiddenBy v) ∧
        Resolves scope rest

def ArgsDefine.declares (d : ArgsDefine) : Variable := (d.arg, d.method)

def ArgsDefine.statement (d : ArgsDefine) : Statement :=
  ⟨some d.declares, [⟨ascii "params", false⟩]⟩

/-- Accessors, and the call behind them. -/
def block (defines : List ArgsDefine) (call : CallStatement) : List Statement :=
  defines.map ArgsDefine.statement ++ [⟨none, call.uses⟩]

def StubBody.blocks (call : CallStatement) : StubBody → List (List Statement)
  | .direct => [block [] call]
  | .fromJson fromArray fromObject _ => [block fromArray call, block fromObject call]

/-- **A block is as it reads** if no variable is called `params` or `S`, and none is called
like something that the call uses. -/
theorem resolves_block_iff {call : CallStatement} {scope : List Variable}
    (outside : ∀ v ∈ scope, v.1 ≠ ascii "params") {defines : List ArgsDefine} :
    Resolves scope (block defines call) ↔
      (∀ d ∈ defines, d.arg ≠ ascii "params" ∧ d.arg ≠ templateParameter) ∧
      ∀ u ∈ call.uses, ∀ v, v ∈ scope ∨ v ∈ defines.map ArgsDefine.declares → ¬ u.HiddenBy v := by
  induction defines generalizing scope with
  | nil =>
      show (∀ v ∈ none, _) ∧ (∀ u ∈ call.uses, ∀ v ∈ scope, ¬ u.HiddenBy v) ∧ True ↔ _
      simp
  | cons d defines ih =>
      have own : (∀ u ∈ d.statement.uses, ∀ v ∈ d.declares :: scope, ¬ u.HiddenBy v) ↔
          d.arg ≠ ascii "params" := by
        simp only [ArgsDefine.statement, List.forall_mem_singleton, List.forall_mem_cons,
          Use.HiddenBy, Bool.false_eq_true, false_and, not_false_iff, and_true]
        exact and_iff_left outside
      have new : (∀ v ∈ some d.declares, v.1 ≠ templateParameter) ↔ d.arg ≠ templateParameter := by
        simp [ArgsDefine.declares]
      show (∀ v ∈ some d.declares, v.1 ≠ templateParameter) ∧
        (∀ u ∈ d.statement.uses, ∀ v ∈ d.declares :: scope, ¬ u.HiddenBy v) ∧
        Resolves (d.declares :: scope) (block defines call) ↔ _
      rw [own, new, List.forall_mem_cons, and_left_comm, and_assoc, and_assoc]
      refine and_congr_right fun named => and_congr_right fun _ => ?_
      rw [ih (List.forall_mem_cons.mpr ⟨named, outside⟩)]
      simp only [List.mem_cons, List.map_cons]
      grind

/-! ## Safety of an entry -/

/-- What a request has for a parameter: by its position, or by its name. -/
def supplied (request : Value) (m : (Bytes × Value) × Nat) : Except Thrown Value := do
  let params ← request.member (ascii "params")
  if params.isArray then params.element m.2 else params.member m.1.1

/-- The accessor of a parameter: it addresses an element that exists, of the
declared type, with the getter for that type, and leaves it in the variable of
the parameter. -/
structure Reads (request : Value) (m : (Bytes × Value) × Nat) (d : ArgsDefine) : Prop where
  getter : ServiceStubGenerator.getter m.1.2.getType = .ok d.method
  run : ∃ params v arg, request.member (ascii "params") = .ok params ∧
    d.index.read params = .ok v ∧ supplied request m = .ok v ∧
    v.getType = m.1.2.getType ∧ d.run params = .ok (m.1.1, arg) ∧ arg.toValue = v

/-- No parameter is called like something that is used, unless it is a `json::Value` where
any does; and none like the class's own parameter. -/
def Unhidden (uses : List Use) (declared : List (Bytes × Value)) : Prop :=
  ∀ m ∈ declared, (m.1 ≠ ascii "params" ∧ m.1 ≠ templateParameter) ∧ ∀ u ∈ uses, m.1 = u.name →
    u.asValue = true ∧ (m.2.getType = .object ∨ m.2.getType = .array)

instance (uses : List Use) : DecidablePred (Unhidden uses) := fun declared =>
  inferInstanceAs (Decidable (∀ m ∈ declared, (_ ∧ _) ∧ ∀ u ∈ uses, _ → _))

/-- The request passes the check against the registered parameters. -/
def Validated (params : List Param) (request : Value) : Prop :=
  (⟨(), params⟩ : Procedure Unit).validateGeneric request = .ok true

/-- The stub function generated for an entry is safe. Its names are the ones that are
meant. -/
structure Safe (name : Bytes) (declared : List (Bytes × Value)) (params : List Param)
    (body : StubBody) (call : CallStatement) : Prop where
  untouched : declared = [] → body = .direct
  accessors : ∀ request, Validated params request → ∃ defines,
    body.accessors request = .ok defines ∧
      List.Forall₂ (Reads request) declared.zipIdx defines
  method : call.method = name
  resolved : ∀ b ∈ body.blocks call, Resolves [] b
  passed : ∀ request, Validated params request → ∃ args,
    call.passed body request = .ok args ∧
      List.Forall₂ (fun m arg => supplied request m = .ok arg.toValue) declared.zipIdx args

/-! ## Accepted requests -/

theorem stubBody_nil {body : StubBody} (ok : stubBody (.object []) = .ok body) :
    body = .direct := by
  exact (Except.ok.inj ok).symm

theorem stubBody_cons {declared : List (Bytes × Value)} (some : declared ≠ []) {body : StubBody}
    (ok : stubBody (.object declared) = .ok body) :
    ∃ fromArray fromObject, body = .fromJson fromArray fromObject (declared.map Prod.fst) ∧
      getParamsFromJsonArray (.object declared) = .ok fromArray ∧
      getParamsFromJsonObject (.object declared) = .ok fromObject := by
  have positive : (Value.object declared).getSize > 0 := List.length_pos_iff.mpr some
  rw [stubBody, if_pos positive] at ok
  obtain ⟨fromArray, array, ok⟩ := except_bind_eq_ok.mp ok
  obtain ⟨fromObject, object, ok⟩ := except_bind_eq_ok.mp ok
  obtain ⟨args, names, ok⟩ := except_bind_eq_ok.mp ok
  obtain rfl := Except.ok.inj ok
  obtain rfl := Except.ok.inj names
  exact ⟨fromArray, fromObject, rfl, array, object⟩

theorem getter_eq_value_iff {type : ValueType} {g : Getter} (ok : getter type = .ok g) :
    g = .value ↔ type = .object ∨ type = .array := by
  cases type with
  | null => cases ok
  | bool | int32 | int64 | double | string | array | object =>
      obtain rfl := Except.ok.inj ok
      simp

/-- The accessor is the one of this parameter. -/
def Made (m : Bytes × Value) (d : ArgsDefine) : Prop :=
  d.arg = m.1 ∧ getter m.2.getType = .ok d.method

theorem made_of_template {m : Bytes × Value} {index : Index} {d : ArgsDefine}
    (ok : argsDefineTemplate m.1 index m.2.getType = .ok d) : Made m d := by
  obtain ⟨g, picked, ok⟩ := except_bind_eq_ok.mp ok
  obtain rfl := Except.ok.inj ok
  exact ⟨rfl, picked⟩

theorem made_array {declared : List (Bytes × Value)} {fromArray : List ArgsDefine}
    (array : getParamsFromJsonArray (.object declared) = .ok fromArray) :
    List.Forall₂ Made declared fromArray := by
  have made : List.Forall₂ (fun m d => Made (Prod.fst m) d) declared.zipIdx fromArray :=
    (mapM_ok_iff.mp array).imp fun _ _ ok => made_of_template ok
  rw [← List.forall₂_map_left_iff, List.zipIdx_map_fst] at made
  exact made

theorem made_object {declared : List (Bytes × Value)} {fromObject : List ArgsDefine}
    (object : getParamsFromJsonObject (.object declared) = .ok fromObject) :
    List.Forall₂ Made declared fromObject :=
  (mapM_ok_iff.mp object).imp fun _ _ ok => made_of_template ok

/-- The names of the parameters alone decide whether a block is as it reads. -/
theorem resolves_iff_unhidden {declared : List (Bytes × Value)} {defines : List ArgsDefine}
    (made : List.Forall₂ Made declared defines) {call : CallStatement} :
    Resolves [] (block defines call) ↔ Unhidden call.uses declared := by
  rw [resolves_block_iff fun v mem => absurd mem List.not_mem_nil, Unhidden]
  simp only [List.not_mem_nil, false_or]
  induction made with
  | nil => simp
  | @cons m d declared defines first rest ih =>
      obtain ⟨named, typed⟩ := first
      have value := getter_eq_value_iff typed
      have own : (∀ u ∈ call.uses, ¬ u.HiddenBy d.declares) ↔ ∀ u ∈ call.uses, m.1 = u.name →
          u.asValue = true ∧ (m.2.getType = .object ∨ m.2.getType = .array) := by
        refine forall₂_congr fun u _ => ?_
        simp only [Use.HiddenBy, ArgsDefine.declares, named, value]
        rw [not_and, not_not]
      rw [List.forall_mem_cons, List.forall_mem_cons, ← ih, ← own, named]
      simp only [List.map_cons, List.forall_mem_cons]
      grind

/-- Only an object passes the check. -/
theorem Validated.object {params : List Param} {request : Value}
    (valid : Validated params request) : ∃ members, request = .object members := by
  cases request with
  | object members => exact ⟨members, rfl⟩
  | null | bool _ | int32 _ | int64 _ | double _ | string _ | array _ => cases valid

variable {declared : List (Bytes × Value)} {request : Value}

/-- What a request has for a parameter when it passes the check: an element of the
declared type. -/
theorem supplied_of_validated (distinct : (declared.map Prod.fst).Nodup)
    (valid : Validated (declared.map fun m => ⟨m.1, m.2.getType⟩) request) (some : declared ≠ []) :
    ∃ params, request.member (ascii "params") = .ok params ∧
      ∀ m ∈ declared.zipIdx, ∃ v, v.getType = m.1.2.getType ∧ supplied request m = .ok v ∧
        if params.isArray then params.element m.2 = .ok v else params.member m.1.1 = .ok v := by
  obtain ⟨members, rfl⟩ := valid.object
  have names : ((declared.map fun m => (⟨m.1, m.2.getType⟩ : Param)).map Param.paramName).Nodup := by
    rw [List.map_map]
    exact distinct
  have fits := (@Procedure.validateGeneric_iff _ ⟨(), _⟩ _ names).mp valid
  cases found : members.lookup (ascii "params") with
  | none =>
      rw [found] at fits
      exact absurd (List.map_eq_nil_iff.mp fits) some
  | some params =>
      have member : (Value.object members).member (ascii "params") = .ok params := by
        rw [Value.member, found]
      refine ⟨params, member, ?_⟩
      rw [found] at fits
      intro m mem
      rw [supplied, member, except_ok_bind]
      have listed := List.mk_mem_zipIdx_iff_getElem?.mp mem
      cases params with
      | array values =>
          obtain ⟨-, types⟩ := fits
          rw [List.map_map] at types
          have at_m := congrArg (fun l => l[m.2]?) types
          rw [List.getElem?_map, List.getElem?_map, listed] at at_m
          obtain ⟨v, inside, typed⟩ := Option.map_eq_some_iff.mp at_m
          have element : (Value.array values).element m.2 = .ok v := by
            rw [Value.element, inside]
          exact ⟨v, typed, element, element⟩
      | object inner =>
          obtain ⟨-, -, types⟩ := fits
          have declares := List.mem_map_of_mem (f := fun m => (⟨m.1, m.2.getType⟩ : Param))
            (List.mem_of_getElem? listed)
          obtain ⟨v, inside, typed⟩ := Option.map_eq_some_iff.mp (types _ declares)
          have member : (Value.object inner).member m.1.1 = .ok v := by
            rw [Value.member, inside]
          exact ⟨v, typed, member, member⟩
      | null | bool _ | int32 _ | int64 _ | double _ | string _ => cases fits

/-- The getter for the type of a value succeeds on it. -/
theorem getter_reads {v : Value} {g : Getter} (ok : getter v.getType = .ok g) :
    ∃ arg, g.read v = .ok arg ∧ arg.toValue = v := by
  cases v with
  | null => cases ok
  | bool _ | int32 _ | int64 _ | double _ | string _ | array _ | object _ =>
      obtain rfl := Except.ok.inj ok
      exact ⟨_, rfl, rfl⟩

theorem reads_of_made {m : (Bytes × Value) × Nat} {index : Index} {d : ArgsDefine}
    (made : argsDefineTemplate m.1.1 index m.1.2.getType = .ok d) {params v : Value}
    (member : request.member (ascii "params") = .ok params) (typed : v.getType = m.1.2.getType)
    (has : supplied request m = .ok v) (addressed : index.read params = .ok v) :
    Reads request m d := by
  obtain ⟨g, picked, ok⟩ := except_bind_eq_ok.mp made
  obtain rfl := Except.ok.inj ok
  obtain ⟨arg, read, carries⟩ := getter_reads (typed ▸ picked)
  refine ⟨picked, params, v, arg, member, addressed, has, typed, ?_, carries⟩
  show (index.read params >>= fun v => g.read v >>= fun value => pure (m.1.1, value)) = _
  rw [addressed, except_ok_bind, read]
  rfl

/-- **Every accessor of an accepted request reads what was declared**, in both
forms of the parameters. -/
theorem reads_all (distinct : (declared.map Prod.fst).Nodup)
    (valid : Validated (declared.map fun m => ⟨m.1, m.2.getType⟩) request) (some : declared ≠ [])
    {fromArray fromObject : List ArgsDefine} {args : List Bytes}
    (array : getParamsFromJsonArray (.object declared) = .ok fromArray)
    (object : getParamsFromJsonObject (.object declared) = .ok fromObject) :
    ∃ defines, (StubBody.fromJson fromArray fromObject args).accessors request = .ok defines ∧
      List.Forall₂ (Reads request) declared.zipIdx defines := by
  obtain ⟨params, member, elements⟩ := supplied_of_validated distinct valid some
  refine ⟨if params.isArray then fromArray else fromObject, ?_, ?_⟩
  · rw [StubBody.accessors, member]
    rfl
  · by_cases isArray : params.isArray = true
    · simp only [if_pos isArray] at elements ⊢
      refine ((List.forall₂_and_left _ _).mpr ⟨elements, mapM_ok_iff.mp array⟩).imp ?_
      rintro m d ⟨⟨v, typed, has, element⟩, made⟩
      exact reads_of_made made member typed has element
    · simp only [if_neg isArray] at elements ⊢
      have made : List.Forall₂ (fun (m : Bytes × Value) d =>
          argsDefineTemplate m.1 (.member m.1) m.2.getType = .ok d) (declared.zipIdx.map Prod.fst)
          fromObject := by
        rw [List.zipIdx_map_fst]
        exact mapM_ok_iff.mp object
      rw [List.forall₂_map_left_iff] at made
      refine ((List.forall₂_and_left _ _).mpr ⟨elements, made⟩).imp ?_
      rintro m d ⟨⟨v, typed, has, element⟩, made⟩
      exact reads_of_made made member typed has element

/-- The variables after the accessors have run. -/
theorem locals_of_reads {params : Value} (member : request.member (ascii "params") = .ok params)
    {ms : List ((Bytes × Value) × Nat)} {defines : List ArgsDefine}
    (reads : List.Forall₂ (Reads request) ms defines) :
    ∃ locals, defines.mapM (ArgsDefine.run params) = .ok locals ∧
      locals.map Prod.fst = ms.map (fun m => m.1.1) ∧
      List.Forall₂ (fun m arg => supplied request m = .ok arg.toValue) ms
        (locals.map Prod.snd) := by
  induction reads with
  | nil => exact ⟨[], rfl, rfl, .nil⟩
  | @cons m d ms defines first rest ih =>
      obtain ⟨locals, ran, names, has⟩ := ih
      obtain ⟨params', v, arg, member', -, supplies, -, run, carries⟩ := first.run
      obtain rfl := Except.ok.inj (member.symm.trans member')
      refine ⟨(m.1.1, arg) :: locals, ?_, ?_, ?_⟩
      · exact mapM_ok_iff.mpr (.cons run (mapM_ok_iff.mp ran))
      · rw [List.map_cons, List.map_cons, names]
      · rw [← carries] at supplies
        exact .cons supplies has

/-- **The user's method gets the elements of an accepted request**, in the order
of the declaration. -/
theorem passed_all (distinct : (declared.map Prod.fst).Nodup)
    (valid : Validated (declared.map fun m => ⟨m.1, m.2.getType⟩) request) (some : declared ≠ [])
    {fromArray fromObject : List ArgsDefine}
    (array : getParamsFromJsonArray (.object declared) = .ok fromArray)
    (object : getParamsFromJsonObject (.object declared) = .ok fromObject)
    {call : CallStatement} (names : call.args = declared.map Prod.fst) :
    ∃ args, call.passed (.fromJson fromArray fromObject (declared.map Prod.fst)) request = .ok args ∧
      List.Forall₂ (fun m arg => supplied request m = .ok arg.toValue) declared.zipIdx args := by
  obtain ⟨params, member, -⟩ := supplied_of_validated distinct valid some
  obtain ⟨defines, accessors, reads⟩ :=
    @reads_all _ _ distinct valid some _ _ (declared.map Prod.fst) array object
  rw [StubBody.accessors, member] at accessors
  obtain rfl := Except.ok.inj accessors
  obtain ⟨locals, ran, named, has⟩ := locals_of_reads member reads
  have keys : locals.map Prod.fst = declared.map Prod.fst := by
    calc locals.map Prod.fst
        = (declared.zipIdx.map Prod.fst).map Prod.fst := by rw [named, List.map_map]; rfl
      _ = declared.map Prod.fst := by rw [List.zipIdx_map_fst]
  refine ⟨locals.map Prod.snd, ?_, has⟩
  rw [CallStatement.passed, StubBody.locals, member, except_ok_bind, ran, except_ok_bind, names,
    ← keys]
  exact readLocals_eq (keys ▸ distinct)

/-- A stub function is safe that passes on all its variables and calls the method
of the entry. -/
theorem safe_of_call {name : Bytes} (distinct : (declared.map Prod.fst).Nodup)
    {params : List Param} (listed : getGenericParams (.object declared) = .ok params)
    {body : StubBody} (made : stubBody (.object declared) = .ok body) {call : CallStatement}
    (method : call.method = name) (names : call.args = declared.map Prod.fst)
    (unhidden : Unhidden call.uses declared) : Safe name declared params body call := by
  obtain rfl := getGenericParams_ok listed
  by_cases none : declared = []
  · subst none
    obtain rfl := stubBody_nil made
    refine ⟨fun _ => rfl, fun _ _ => ⟨[], rfl, .nil⟩, method, ?_, fun request _ => ⟨[], ?_, .nil⟩⟩
    · exact List.forall_mem_singleton.mpr ((resolves_iff_unhidden .nil).mpr unhidden)
    · rw [CallStatement.passed, names]
      rfl
  · obtain ⟨fromArray, fromObject, rfl, array, object⟩ := stubBody_cons none made
    refine ⟨fun empty => absurd empty none, ?_, method, ?_, ?_⟩
    · intro request valid
      exact reads_all distinct valid none array object
    · refine List.forall_mem_cons.mpr ⟨?_, List.forall_mem_singleton.mpr ?_⟩
      · exact (resolves_iff_unhidden (made_array array)).mpr unhidden
      · exact (resolves_iff_unhidden (made_object object)).mpr unhidden
    · intro request valid
      exact passed_all distinct valid none array object names

/-- The declaration is itself a request that passes the check. -/
theorem validated_declared (distinct : (declared.map Prod.fst).Nodup) (some : declared ≠ []) :
    Validated (declared.map fun m => ⟨m.1, m.2.getType⟩)
      (.object [(ascii "params", .object declared)]) := by
  have names : ((declared.map fun m => (⟨m.1, m.2.getType⟩ : Param)).map Param.paramName) =
      declared.map Prod.fst := by
    rw [List.map_map]
    rfl
  refine (@Procedure.validateGeneric_iff _ ⟨(), _⟩ _ (names ▸ distinct)).mpr ?_
  refine ⟨some, names ▸ .refl _, ?_⟩
  rw [List.forall_mem_map]
  intro m mem
  rw [lookup_of_mem distinct (show (m.1, m.2) ∈ declared from mem)]
  rfl

/-- A call with an argument too many is not safe. -/
theorem not_safe_of_count {name : Bytes} (distinct : (declared.map Prod.fst).Nodup)
    (some : declared ≠ []) {params : List Param}
    (listed : getGenericParams (.object declared) = .ok params) {body : StubBody}
    {call : CallStatement} (count : call.args.length ≠ declared.length) :
    ¬ Safe name declared params body call := by
  intro safe
  obtain rfl := getGenericParams_ok listed
  obtain ⟨args, passed, has⟩ := safe.passed _ (validated_declared distinct some)
  obtain ⟨locals, -, read⟩ := except_bind_eq_ok.mp passed
  have sameAsArgs := (mapM_ok_iff.mp read).length_eq
  have sameAsDeclared := has.length_eq
  rw [List.length_zipIdx] at sameAsDeclared
  omega

/-! ## Entries -/

/-- The stub function of a procedure is safe if its parameters hide nothing. -/
theorem procedure_safe_iff {r : RpcReturn} (declares : Declares r.params declared) {b : Binding}
    {d : ProcedureDefine} (bound : binding r.name r.params = .ok b)
    (defined : procedureDefine r = .ok d) :
    Safe r.name declared b.params d.body d.statement ↔ Unhidden callUses declared := by
  obtain ⟨-, -, listed⟩ := binding_ok bound
  obtain ⟨body, made, same⟩ := except_bind_eq_ok.mp defined
  obtain rfl := Except.ok.inj same
  rw [declares.1] at listed made
  by_cases none : declared = []
  · subst none
    obtain rfl := stubBody_nil made
    have nothing : Unhidden callUses [] := fun m mem => absurd mem List.not_mem_nil
    exact iff_of_true (safe_of_call declares.2 listed made rfl rfl nothing) nothing
  · obtain ⟨fromArray, fromObject, rfl, array, -⟩ := stubBody_cons none made
    refine ⟨fun safe => ?_, fun unhidden => safe_of_call declares.2 listed made rfl rfl unhidden⟩
    have first := safe.resolved _ List.mem_cons_self
    exact (resolves_iff_unhidden (made_array array)).mp first

/-- The stub function of a notification is safe if it has no parameters. -/
theorem notify_safe_iff {r : RpcNotify} (declares : Declares r.params declared) {b : Binding}
    {d : NotifyDefine} (bound : binding r.name r.params = .ok b)
    (defined : notifyDefine r = .ok d) :
    Safe r.name declared b.params d.body d.statement ↔ declared = [] := by
  obtain ⟨-, -, listed⟩ := binding_ok bound
  obtain ⟨body, made, same⟩ := except_bind_eq_ok.mp defined
  rw [declares.1] at listed made
  by_cases none : declared = []
  · subst none
    obtain rfl := stubBody_nil made
    obtain rfl := Except.ok.inj same
    have nothing : Unhidden [⟨ascii "convert", false⟩] [] := fun m mem => absurd mem List.not_mem_nil
    exact iff_of_true (safe_of_call declares.2 listed made rfl rfl nothing) rfl
  · obtain ⟨fromArray, fromObject, rfl, -, -⟩ := stubBody_cons none made
    obtain rfl := Except.ok.inj same
    refine iff_of_false (not_safe_of_count declares.2 none listed ?_) none
    show (declared.map Prod.fst ++ [[]]).length ≠ _
    rw [List.length_append, List.length_map, List.length_singleton]
    omega

/-- An entry of a description. -/
inductive Entry where
  | procedure (r : RpcReturn)
  | notify (r : RpcNotify)

namespace Entry

def params : Entry → Value
  | .procedure r => r.params
  | .notify r => r.params

/-- The entry has a `"returns"`. -/
def Returns : Entry → Prop
  | .procedure _ => True
  | .notify _ => False

/-- Its place among the entries of its kind. -/
def At (info : ServiceInfo) (i : Nat) : Entry → Prop
  | .procedure r => info.rpcReturn[i]? = some r
  | .notify r => info.rpcNotify[i]? = some r

/-- What the generated server has for the entry is safe. -/
def SafeIn (code : Code) (i : Nat) (declared : List (Bytes × Value)) : Entry → Prop
  | .procedure r => ∃ b d, code.procedureBindings[i]? = some b ∧
      code.procedureDefinitions[i]? = some d ∧
      Safe r.name declared b.params d.body d.statement
  | .notify r => ∃ b d, code.notifyBindings[i]? = some b ∧
      code.notifyDefinitions[i]? = some d ∧
      Safe r.name declared b.params d.body d.statement

theorem safeIn_iff {info : ServiceInfo} {code : Code} (generated : Generated info code) {i : Nat} :
    ∀ {entry : Entry}, entry.At info i → Declares entry.params declared →
      (entry.SafeIn code i declared ↔
        declared = [] ∨ entry.Returns ∧ Unhidden callUses declared)
  | .procedure r, listed, declares => by
      obtain ⟨b, bindings, bound⟩ := mapM_ok_getElem? generated.procedureBindings listed
      obtain ⟨d, definitions, defined⟩ := mapM_ok_getElem? generated.procedureDefinitions listed
      have safe := procedure_safe_iff declares bound defined
      constructor
      · rintro ⟨b', d', bindings', definitions', safe'⟩
        obtain rfl := Option.some.inj (bindings.symm.trans bindings')
        obtain rfl := Option.some.inj (definitions.symm.trans definitions')
        exact .inr ⟨trivial, safe.mp safe'⟩
      · rintro (rfl | ⟨-, unhidden⟩)
        · exact ⟨b, d, bindings, definitions, safe.mpr fun m mem => absurd mem List.not_mem_nil⟩
        · exact ⟨b, d, bindings, definitions, safe.mpr unhidden⟩
  | .notify r, listed, declares => by
      obtain ⟨b, bindings, bound⟩ := mapM_ok_getElem? generated.notifyBindings listed
      obtain ⟨d, definitions, defined⟩ := mapM_ok_getElem? generated.notifyDefinitions listed
      have safe := notify_safe_iff declares bound defined
      constructor
      · rintro ⟨b', d', bindings', definitions', safe'⟩
        obtain rfl := Option.some.inj (bindings.symm.trans bindings')
        obtain rfl := Option.some.inj (definitions.symm.trans definitions')
        exact .inl (safe.mp safe')
      · rintro (none | ⟨impossible, -⟩)
        · exact ⟨b, d, bindings, definitions, safe.mpr none⟩
        · exact impossible.elim

theorem declares {info : ServiceInfo} (described : StubGenerator.Described info) {i : Nat} :
    ∀ {entry : Entry}, entry.At info i → entry.params = .object declared →
      Declares entry.params declared
  | .procedure r, listed, shape => by
      obtain ⟨members, object, distinct⟩ := described.rpcReturn r (List.mem_of_getElem? listed)
      obtain rfl := Value.object.inj (shape.symm.trans object)
      exact ⟨shape, distinct⟩
  | .notify r, listed, shape => by
      obtain ⟨members, object, distinct⟩ := described.rpcNotify r (List.mem_of_getElem? listed)
      obtain rfl := Value.object.inj (shape.symm.trans object)
      exact ⟨shape, distinct⟩

end Entry

/-- **The accessors of a generated server are safe** for every entry without parameters, and
for every procedure whose parameters hide nothing that its stub function uses. -/
theorem accessors_safe_iff {proto : Value} {info : ServiceInfo}
    (accepted : StubGenerator.parseProto proto = .ok info)
    (returns : ∀ r ∈ info.rpcReturn, StubChecks.Typed r.params)
    (notifies : ∀ r ∈ info.rpcNotify, StubChecks.Typed r.params) {entry : Entry} {i : Nat}
    (listed : entry.At info i) (shape : entry.params = .object declared) :
    ∃ code, getStub info = .ok code ∧
      (entry.SafeIn code i declared ↔
        declared = [] ∨ entry.Returns ∧ Unhidden callUses declared) := by
  obtain ⟨code, server⟩ := StubChecks.service_total returns notifies
  have described := StubGenerator.described_parseProto accepted
  exact ⟨code, server, Entry.safeIn_iff (getStub_ok server) listed
    (Entry.declares described listed shape)⟩

/-- A procedure with an integer and a string. -/
def pairEntry : RpcReturn :=
  ⟨ascii "f", .object [(ascii "a", .int32 0), (ascii "b", .string [])], .int32 0⟩

theorem pair_safe :
    ∃ code, getStub ⟨ascii "S", [pairEntry], []⟩ = .ok code ∧
      (Entry.procedure pairEntry).SafeIn code 0
        [(ascii "a", .int32 0), (ascii "b", .string [])] := by
  have accepted : StubGenerator.parseProto (StubChecks.service [.object [(ascii "name",
      .string pairEntry.name), (ascii "params", pairEntry.params), (ascii "returns", .int32 0)]]) =
        .ok ⟨ascii "S", [pairEntry], []⟩ := rfl
  have returns : ∀ r ∈ [pairEntry], StubChecks.Typed r.params := by
    intro r mem
    obtain rfl := List.mem_singleton.mp mem
    exact ⟨_, rfl, by decide⟩
  obtain ⟨code, server, safe⟩ := @accessors_safe_iff _ _ _ accepted returns
    (fun r mem => absurd mem List.not_mem_nil) (.procedure pairEntry) 0 rfl rfl
  exact ⟨code, server, safe.mpr (.inr ⟨trivial, by decide⟩)⟩

/-- A notification with an integer. -/
def oneNotify : RpcNotify := ⟨ascii "f", .object [(ascii "x", .int32 0)]⟩

/-- A procedure with an integer called `params`. -/
def paramsEntry : RpcReturn := ⟨ascii "f", .object [(ascii "params", .int32 0)], .int32 0⟩

/-- Its stub function calls `[NotifyName]` with an argument too many; and that of the
procedure has `auto params = params[0].getInt32();` in it. -/
theorem notify_with_params_unsafe :
    StubGenerator.parseProto (StubChecks.service [StubChecks.entryWith oneNotify.params]) =
        .ok ⟨ascii "S", [], [oneNotify]⟩ ∧
      StubChecks.Typed oneNotify.params ∧
      (∃ code, getStub ⟨ascii "S", [], [oneNotify]⟩ = .ok code ∧
        ¬ (Entry.notify oneNotify).SafeIn code 0 [(ascii "x", .int32 0)]) ∧
      StubChecks.Typed paramsEntry.params ∧
      ∃ code, getStub ⟨ascii "S", [paramsEntry], []⟩ = .ok code ∧
        ¬ (Entry.procedure paramsEntry).SafeIn code 0 [(ascii "params", .int32 0)] := by
  obtain ⟨code, server⟩ : ∃ code, getStub ⟨ascii "S", [], [oneNotify]⟩ = .ok code := ⟨_, rfl⟩
  obtain ⟨code', server'⟩ : ∃ code, getStub ⟨ascii "S", [paramsEntry], []⟩ = .ok code := ⟨_, rfl⟩
  refine ⟨rfl, ⟨_, rfl, by decide⟩, ⟨code, server, fun safe => ?_⟩, ⟨_, rfl, by decide⟩,
    code', server', fun safe => ?_⟩
  · have listed : (Entry.notify oneNotify).At ⟨ascii "S", [], [oneNotify]⟩ 0 := rfl
    rcases (Entry.safeIn_iff (getStub_ok server) listed ⟨rfl, List.nodup_singleton _⟩).mp safe with
      none | ⟨impossible, -⟩
    · cases none
    · exact impossible
  · have listed : (Entry.procedure paramsEntry).At ⟨ascii "S", [paramsEntry], []⟩ 0 := rfl
    rcases (Entry.safeIn_iff (getStub_ok server') listed ⟨rfl, List.nodup_singleton _⟩).mp safe with
      none | ⟨-, unhidden⟩
    · cases none
    · exact absurd unhidden (by decide)

end ServiceStubGenerator

end LaliRpc.Zrpc
