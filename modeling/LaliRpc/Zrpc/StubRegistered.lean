/-
# Zrpc.StubRegistered — the names in the generated constructor

The constructor that `getStub` writes registers every procedure and every
notification under a name in quotation marks. It is the name of the description,
unless that has placeholders in it: the loops that fill the rest of the binding and
the class go through the name as well. A quotation mark is a fence, so what becomes
of the name does not depend on the text around it (`registered`), and it stands in
the file that is written (`registered_of_getStub`).
-/
import LaliRpc.Zrpc.StubCriterion

namespace LaliRpc.Zrpc.StubText

open LaliRpc.Jackson LaliRpc.Theory LaliRpc.Theory.Substitution StubTemplate

set_option autoImplicit false

namespace Service

section

variable (engine : Engine)

/-- What `procedureBinding` makes of `[procedureName]`. -/
def procedureLiteral (serviceInfo : ServiceInfo) (p : RpcReturn) : Except Stop Bytes := do
  let procedureParams ← getGenericParams p.params
  engine [hole .procedureName] [(.procedureName, p.name),
    (.stubClassName, getStubClassName serviceInfo),
    (.stubProcedureName, getStubGenericName p.name), (.procedureParams, procedureParams)]

/-- What `notifyBinding` makes of `[notifyName]`. -/
def notifyLiteral (serviceInfo : ServiceInfo) (p : RpcNotify) : Except Stop Bytes := do
  let notifyParams ← getGenericParams p.params
  engine [hole .notifyName] [(.notifyName, p.name),
    (.stubClassName, getStubClassName serviceInfo),
    (.stubNotifyName, getStubGenericName p.name), (.notifyParams, notifyParams)]

/-- The names that the generated constructor registers, of the procedures and of
the notifications. The bindings are put into the class by the loop for
`[stubProcedureBindings]`, and that one and the next one go through them. -/
def registered (serviceInfo : ServiceInfo) : Except Stop (List Bytes × List Bytes) := do
  let procedureBindings ← getStubProcedureBindings engine serviceInfo
  let notifyBindings ← getStubNotifyBindings engine serviceInfo
  let procedureDefinitions ← getStubProcedureDefinitions engine serviceInfo
  let notifyDefinitions ← getStubNotifyDefinitions engine serviceInfo
  let inClass := fun literal => engine [.text literal]
    [(.stubProcedureBindings, procedureBindings ++ notifyBindings),
      (.stubProcedureDefinitions, procedureDefinitions ++ notifyDefinitions)]
  let procedures ← serviceInfo.rpcReturn.mapM fun p =>
    procedureLiteral engine serviceInfo p >>= inClass
  let notifies ← serviceInfo.rpcNotify.mapM fun p =>
    notifyLiteral engine serviceInfo p >>= inClass
  return (procedures, notifies)

end

theorem limit_registered {e : Nat → Engine} {e' : Engine} (approaches : Approaches e e')
    (info : ServiceInfo) :
    Limit .running (fun n => registered (e n) info) (registered e' info) := by
  refine (limit_steps (fun p => limit_procedureBinding approaches info p) _).bind fun _ => ?_
  refine (limit_steps (fun p => limit_notifyBinding approaches info p) _).bind fun _ => ?_
  refine (limit_steps (fun r => limit_procedureDefinition approaches r) _).bind fun _ => ?_
  refine (limit_steps (fun r => limit_notifyDefinition approaches r) _).bind fun _ => ?_
  refine (limit_mapM (fun p => ?_) _).bind fun _ => (limit_mapM (fun p => ?_) _).bind fun _ =>
    limit_const _ _
  · refine Limit.bind ?_ fun _ => approaches _ _
    exact (limit_const _ (getGenericParams p.params)).bind fun _ => approaches _ _
  · refine Limit.bind ?_ fun _ => approaches _ _
    exact (limit_const _ (getGenericParams p.params)).bind fun _ => approaches _ _

/-! ## They stand in the file -/

variable {info : ServiceInfo} {fuel : Nat} {str : Bytes}

/-- What the loops of a template function leave. -/
theorem sequential_ok {T : StubTemplate} {rs : List (Placeholder × Bytes)} :
    sequential fuel T rs = .ok str ↔
      Placeholder.words.replaceEach rs fuel (fill Placeholder.spelling T) = some str := by
  rw [sequential_eq]
  cases Placeholder.words.replaceEach rs fuel (fill Placeholder.spelling T) with
  | none => exact ⟨nofun, nofun⟩
  | some t => exact ⟨fun same => congrArg some (Except.ok.inj same), fun same =>
      congrArg Except.ok (Option.some.inj same)⟩

/-- The statement that registers under the name. -/
def registration (add name : Bytes) : Bytes := add ++ quoted name

/-- A binding is written with its literal by itself between quotation marks. -/
theorem binding_literal {add opening closing rest b : Bytes} {p : Placeholder} {T : StubTemplate}
    {rs : List (Placeholder × Bytes)} (opens : opening = chr '\n' :: (add ++ [chr '"']))
    (closes : closing = chr '"' :: rest) (plain : ∀ q, Lacks q add)
    (made : sequential fuel (.text opening :: .hole p :: .text closing :: T) rs = .ok b) :
    ∃ literal, sequential fuel [hole p] rs = .ok literal ∧
      chr '\n' :: registration add literal <:+: b := by
  have shape : fill Placeholder.spelling (.text opening :: .hole p :: .text closing :: T) =
      chr '\n' :: (add ++ chr '"' :: (p.spelling ++ chr '"' ::
        (rest ++ fill Placeholder.spelling T))) := by
    rw [fill_text, fill_hole, fill_text, opens, closes]
    simp only [List.append_assoc, List.cons_append, List.nil_append]
  rw [sequential_ok, shape] at made
  obtain ⟨before, b', rfl, -, made⟩ :=
    Words.replaceEach_across (a := []) (c := chr '\n') rfl made
  obtain ⟨add', b', rfl, front, made⟩ := Words.replaceEach_across (c := chr '"') rfl made
  obtain ⟨literal, behind, rfl, own, -⟩ := Words.replaceEach_across (c := chr '"') rfl made
  obtain rfl := Words.replaceEach_eq (fun r _ => plain r.1) front
  refine ⟨literal, sequential_ok.mpr ?_, before, behind, by simp [registration, quoted]⟩
  show Placeholder.words.replaceEach rs fuel (p.spelling ++ []) = some literal
  rw [List.append_nil]
  exact own

/-- Around the bindings in the class are a space and a line break. -/
theorem class_shape : ∃ front behind, fill Placeholder.spelling servicesStub =
    front ++ chr ' ' :: (Placeholder.stubProcedureBindings.spelling ++ chr '\n' :: behind) := by
  obtain ⟨front, before⟩ : ∃ front,
      ascii "'\");\n\n        auto service = new RpcService;\n\n        " = front ++ [chr ' '] := by
    apply List.getLast?_eq_some_iff.mp
    rw [ascii_ofList rfl]
    decide
  obtain ⟨behind, after⟩ : ∃ behind,
      ascii "\n\n        server.addService(\"" = chr '\n' :: behind := by
    apply List.head?_eq_some_iff.mp
    rw [ascii_ofList rfl]
    decide
  obtain ⟨T, U, split⟩ : ∃ T U, servicesStub = T ++
      (.text (ascii "'\");\n\n        auto service = new RpcService;\n\n        ") ::
        .hole .stubProcedureBindings :: .text (ascii "\n\n        server.addService(\"") :: U) :=
    ⟨servicesStub.take 22, servicesStub.drop 25, rfl⟩
  refine ⟨fill Placeholder.spelling T ++ front, behind ++ fill Placeholder.spelling U, ?_⟩
  rw [split, fill, List.flatMap_append]
  show fill Placeholder.spelling T ++ fill Placeholder.spelling (_ :: _) = _
  rw [fill_text, fill_hole, fill_text, before, after]
  simp only [List.append_assoc, List.cons_append, List.nil_append]

variable {bindings definitions : Bytes}

/-- The bindings are put in as they are, and the loop for the definitions goes
through them. -/
theorem class_bindings
    (made : sequential fuel servicesStub [(.macroName, getMacroName info),
      (.userClassName, getUserClassName info), (.stubClassName, getStubClassName info),
      (.serviceName, info.name), (.stubProcedureBindings, bindings),
      (.stubProcedureDefinitions, definitions)] = .ok str) :
    ∃ written, written <:+: str ∧ Lacks .stubProcedureBindings bindings ∧
      replaceAll Placeholder.stubProcedureDefinitions.spelling definitions fuel bindings =
        some written := by
  obtain ⟨front, behind, shape⟩ := class_shape
  rw [sequential_ok, shape] at made
  obtain ⟨front', rest, rfl, -, made⟩ := Words.replaceEach_across (c := chr ' ') rfl made
  obtain ⟨written, behind', rfl, made, -⟩ := Words.replaceEach_across (c := chr '\n') rfl made
  have first : [(Placeholder.macroName, getMacroName info),
      (.userClassName, getUserClassName info), (.stubClassName, getStubClassName info),
      (.serviceName, info.name), (.stubProcedureBindings, bindings),
      (.stubProcedureDefinitions, definitions)] = [(.macroName, getMacroName info),
      (.userClassName, getUserClassName info), (.stubClassName, getStubClassName info),
      (.serviceName, info.name)] ++ [(.stubProcedureBindings, bindings),
      (.stubProcedureDefinitions, definitions)] := rfl
  rw [first, Words.replaceEach_append] at made
  obtain ⟨s, others, made⟩ := Option.bind_eq_some_iff.mp made
  have apart : ∀ r ∈ [(Placeholder.macroName, getMacroName info),
      (.userClassName, getUserClassName info), (.stubClassName, getStubClassName info),
      (.serviceName, info.name)], r.1 ≠ .stubProcedureBindings := by
    simp only [List.forall_mem_cons]
    refine ⟨?_, ?_, ?_, ?_, fun r none => absurd none List.not_mem_nil⟩
    all_goals
      intro same
      cases same
  obtain rfl := Words.replaceEach_eq (fun r mem => Placeholder.words.apart r.1 _ (apart r mem))
    others
  obtain ⟨s, own, rest⟩ := Option.bind_eq_some_iff.mp made
  obtain ⟨rfl, lacks⟩ := replaceAll_self (List.cons_ne_nil _ _) own
  obtain ⟨s, last, done⟩ := Option.bind_eq_some_iff.mp rest
  obtain rfl := Option.some.inj done
  exact ⟨s, ⟨front' ++ [chr ' '], chr '\n' :: behind', by simp⟩, lacks, last⟩

/-- A literal in the bindings, as it is in the class. -/
theorem literal_inClass {add literal written : Bytes} (plain : ∀ q, Lacks q add)
    (inside : chr '\n' :: registration add literal <:+: bindings)
    (lacks : Lacks .stubProcedureBindings bindings)
    (made : replaceAll Placeholder.stubProcedureDefinitions.spelling definitions fuel bindings =
      some written) :
    ∃ name, sequential fuel [.text literal] [(.stubProcedureBindings, bindings),
        (.stubProcedureDefinitions, definitions)] = .ok name ∧
      registration add name <:+: written := by
  obtain ⟨p, q, rfl⟩ := inside
  have shape : p ++ chr '\n' :: registration add literal ++ q =
      p ++ chr '\n' :: (add ++ chr '"' :: (literal ++ chr '"' :: q)) := by
    simp [registration, quoted]
  have own : Lacks .stubProcedureBindings literal := fun occurs =>
    lacks (occurs.trans ⟨p ++ chr '\n' :: (add ++ [chr '"']), chr '"' :: q, by simp [shape]⟩)
  have across : ∀ {c : UInt8} {a b t : Bytes}, Placeholder.isFence c = true →
      replaceAll Placeholder.stubProcedureDefinitions.spelling definitions fuel (a ++ c :: b) =
        some t → ∃ a' b', t = a' ++ c :: b' ∧
        replaceAll Placeholder.stubProcedureDefinitions.spelling definitions fuel a = some a' ∧
        replaceAll Placeholder.stubProcedureDefinitions.spelling definitions fuel b = some b' := by
    intro c a b t isFence done
    refine replaceAll_across (fun mem => ?_) (List.cons_ne_nil _ _) done
    have letter := Placeholder.words.foreign .stubProcedureDefinitions c mem
    exact Bool.false_ne_true (letter.symm.trans isFence)
  rw [shape] at made
  obtain ⟨before, rest, rfl, -, made⟩ := across (c := chr '\n') rfl made
  obtain ⟨add', rest, rfl, front, made⟩ := across (c := chr '"') rfl made
  obtain ⟨name, behind, rfl, done, -⟩ := across (c := chr '"') rfl made
  obtain rfl := replaceAll_eq (plain _) front
  refine ⟨name, sequential_ok.mpr ?_, before ++ [chr '\n'], behind, by
    simp [registration, quoted]⟩
  rw [fill_text, fill_nil, List.append_nil]
  cases fuel with
  | zero => cases done
  | succ n =>
      refine Option.bind_eq_some_iff.mpr ⟨literal, replaceAll_free own _ n, ?_⟩
      exact Option.bind_eq_some_iff.mpr ⟨name, done, rfl⟩

def addReturn : Bytes := ascii "service->addProcedureReturn("

def addNotify : Bytes := ascii "service->addProcedureNotify("

theorem procedureBinding_literal {p : RpcReturn} {b : Bytes}
    (ok : procedureBinding (sequential fuel) info p = .ok b) :
    ∃ literal, procedureLiteral (sequential fuel) info p = .ok literal ∧
      chr '\n' :: registration addReturn literal <:+: b := by
  obtain ⟨params, fields, made⟩ := except_bind_eq_ok.mp ok
  obtain ⟨binding, filled, same⟩ := except_bind_eq_ok.mp made
  obtain rfl := Except.ok.inj same
  have opens : ascii "\nservice->addProcedureReturn(\"" =
      chr '\n' :: (addReturn ++ [chr '"']) := by
    rw [addReturn, ascii_ofList rfl, ascii_ofList rfl]
    rfl
  have closes : ascii "\", new ProcedureReturn(\n        std::bind(&" = chr '"' :: _ :=
    ascii_ofList rfl
  obtain ⟨literal, own, inside⟩ := binding_literal opens closes
    (fun q => lacks_ascii rfl (by decide)) filled
  refine ⟨literal, except_bind_eq_ok.mpr ⟨params, fields, own⟩, ?_⟩
  exact List.infix_append_of_infix_left inside

theorem notifyBinding_literal {p : RpcNotify} {b : Bytes}
    (ok : notifyBinding (sequential fuel) info p = .ok b) :
    ∃ literal, notifyLiteral (sequential fuel) info p = .ok literal ∧
      chr '\n' :: registration addNotify literal <:+: b := by
  obtain ⟨params, fields, made⟩ := except_bind_eq_ok.mp ok
  obtain ⟨binding, filled, same⟩ := except_bind_eq_ok.mp made
  obtain rfl := Except.ok.inj same
  have opens : ascii "\nservice->addProcedureNotify(\"" =
      chr '\n' :: (addNotify ++ [chr '"']) := by
    rw [addNotify, ascii_ofList rfl, ascii_ofList rfl]
    rfl
  have closes : ascii "\", new ProcedureNotify(\n        std::bind(&" = chr '"' :: _ :=
    ascii_ofList rfl
  obtain ⟨literal, own, inside⟩ := binding_literal opens closes
    (fun q => lacks_ascii rfl (by decide)) filled
  refine ⟨literal, except_bind_eq_ok.mpr ⟨params, fields, own⟩, ?_⟩
  exact List.infix_append_of_infix_left inside

/-- The registrations of one kind. -/
theorem registrations (add : Bytes) {α : Type} {as : List α}
    {bind literal : α → Except Stop Bytes} {written blocks : Bytes} (plain : ∀ q, Lacks q add)
    (each : ∀ a b, bind a = .ok b → ∃ l, literal a = .ok l ∧ chr '\n' :: registration add l <:+: b)
    (made : (as.mapM bind >>= fun bs => pure bs.flatten) = .ok blocks)
    (inside : blocks <:+: bindings) (lacks : Lacks .stubProcedureBindings bindings)
    (done : replaceAll Placeholder.stubProcedureDefinitions.spelling definitions fuel bindings =
      some written) :
    ∃ names, (as.mapM fun a => literal a >>= fun l => sequential fuel [.text l]
        [(.stubProcedureBindings, bindings), (.stubProcedureDefinitions, definitions)]) =
          .ok names ∧ ∀ name ∈ names, registration add name <:+: written := by
  obtain ⟨bs, bound, same⟩ := except_bind_eq_ok.mp made
  obtain rfl := Except.ok.inj same
  have step : ∀ a ∈ as, ∃ name, (literal a >>= fun l => sequential fuel [.text l]
      [(.stubProcedureBindings, bindings), (.stubProcedureDefinitions, definitions)]) =
        .ok name ∧ registration add name <:+: written := by
    intro a mem
    obtain ⟨b, listed, made⟩ := mapM_ok_mem bound mem
    obtain ⟨l, own, stands⟩ := each a b made
    have there := (stands.trans (List.infix_of_mem_flatten listed)).trans inside
    obtain ⟨name, taken, shown⟩ := literal_inClass plain there lacks done
    exact ⟨name, except_bind_eq_ok.mpr ⟨l, own, taken⟩, shown⟩
  obtain ⟨names, taken⟩ := mapM_total_iff.mpr fun a mem => (step a mem).imp fun _ => And.left
  refine ⟨names, taken, fun name mem => ?_⟩
  obtain ⟨a, listed, made⟩ := mapM_ok_source taken mem
  obtain ⟨name', made', shown⟩ := step a listed
  exact Except.ok.inj (made'.symm.trans made) ▸ shown

/-- **The names that are registered stand in the file**, in quotation marks behind
the function that registers. -/
theorem registered_of_getStub (ok : getStub (sequential fuel) info = .ok str) :
    ∃ procedures notifies, registered (sequential fuel) info = .ok (procedures, notifies) ∧
      (∀ name ∈ procedures, registration addReturn name <:+: str) ∧
      ∀ name ∈ notifies, registration addNotify name <:+: str := by
  obtain ⟨procedureBindings, first, ok⟩ := except_bind_eq_ok.mp ok
  obtain ⟨notifyBindings, second, ok⟩ := except_bind_eq_ok.mp ok
  obtain ⟨procedureDefinitions, third, ok⟩ := except_bind_eq_ok.mp ok
  obtain ⟨notifyDefinitions, fourth, ok⟩ := except_bind_eq_ok.mp ok
  obtain ⟨written, inside, lacks, done⟩ := class_bindings ok
  obtain ⟨procedures, taken, shown⟩ := registrations addReturn
    (fun q => lacks_ascii rfl (by decide)) (fun _ _ => procedureBinding_literal) first
    (List.prefix_append _ _).isInfix lacks done
  obtain ⟨notifies, taken', shown'⟩ := registrations addNotify
    (fun q => lacks_ascii rfl (by decide)) (fun _ _ => notifyBinding_literal) second
    (List.suffix_append _ _).isInfix lacks done
  refine ⟨procedures, notifies, ?_, fun name mem => (shown name mem).trans inside,
    fun name mem => (shown' name mem).trans inside⟩
  unfold registered
  rw [first, except_ok_bind, second, except_ok_bind, third, except_ok_bind, fourth,
    except_ok_bind]
  exact except_bind_eq_ok.mpr ⟨procedures, taken, except_bind_eq_ok.mpr ⟨notifies, taken', rfl⟩⟩

/-! ## For clear names they are those of the description -/

theorem kept_literal {p : Placeholder} {name literal : Bytes} {rs : List (Placeholder × Bytes)}
    (ok : sequential fuel [hole p] ((p, name) :: rs) = .ok literal)
    (lacks : ∀ r ∈ rs, Lacks r.1 name) : literal = name := by
  rw [sequential_ok] at ok
  obtain ⟨s, first, rest⟩ := Option.bind_eq_some_iff.mp ok
  have own : fill Placeholder.spelling [hole p] = p.spelling := List.append_nil _
  rw [own] at first
  obtain ⟨rfl, -⟩ := replaceAll_self (List.cons_ne_nil _ _) first
  exact Words.replaceEach_eq lacks rest

theorem kept_inClass {literal name : Bytes} {rs : List (Placeholder × Bytes)}
    (ok : sequential fuel [.text literal] rs = .ok name)
    (lacks : ∀ r ∈ rs, Lacks r.1 literal) : name = literal := by
  rw [sequential_ok, fill_text, fill_nil, List.append_nil] at ok
  exact Words.replaceEach_eq lacks ok

theorem mapM_names {α : Type} {as : List α} {f : α → Except Stop Bytes} {names : List Bytes}
    {name : α → Bytes} (ok : as.mapM f = .ok names)
    (same : ∀ a ∈ as, ∀ b, f a = .ok b → b = name a) : names = as.map name := by
  have each : ∀ a ∈ as, f a = pure (name a) := by
    intro a mem
    obtain ⟨b, -, made⟩ := mapM_ok_mem ok mem
    rw [made, same a mem b made]
    rfl
  rw [mapM_congr each, List.mapM_pure] at ok
  exact (Except.ok.inj ok).symm

/-- The names are those of the entries, and what two loops of the class make of them. -/
theorem registered_ok {engine : Engine} {procedures notifies : List Bytes}
    (ok : registered engine info = .ok (procedures, notifies)) :
    ∃ bindings definitions,
      (info.rpcReturn.mapM fun p => procedureLiteral engine info p >>= fun literal =>
        engine [.text literal] [(.stubProcedureBindings, bindings),
          (.stubProcedureDefinitions, definitions)]) = .ok procedures ∧
      (info.rpcNotify.mapM fun p => notifyLiteral engine info p >>= fun literal =>
        engine [.text literal] [(.stubProcedureBindings, bindings),
          (.stubProcedureDefinitions, definitions)]) = .ok notifies := by
  obtain ⟨_, -, ok⟩ := except_bind_eq_ok.mp ok
  obtain ⟨_, -, ok⟩ := except_bind_eq_ok.mp ok
  obtain ⟨_, -, ok⟩ := except_bind_eq_ok.mp ok
  obtain ⟨_, -, ok⟩ := except_bind_eq_ok.mp ok
  obtain ⟨_, first, ok⟩ := except_bind_eq_ok.mp ok
  obtain ⟨_, second, same⟩ := except_bind_eq_ok.mp ok
  obtain ⟨rfl, rfl⟩ := Prod.mk.inj (Except.ok.inj same)
  exact ⟨_, _, first, second⟩

/-- A name that lacks the placeholders of all these loops is registered as it is. -/
theorem kept_name {p : Placeholder} {name literal written : Bytes}
    {rs rs' : List (Placeholder × Bytes)}
    (own : sequential fuel [hole p] ((p, name) :: rs) = .ok literal)
    (taken : sequential fuel [.text literal] rs' = .ok written)
    (lacks : ∀ r ∈ rs ++ rs', Lacks r.1 name) : written = name := by
  have same := kept_literal own fun r mem => lacks r (List.mem_append_left rs' mem)
  rw [← same] at lacks ⊢
  exact kept_inClass taken fun r mem => lacks r (List.mem_append_right rs mem)

theorem registered_clear (clear : ClearNames info) {procedures notifies : List Bytes}
    (ok : registered (sequential fuel) info = .ok (procedures, notifies)) :
    procedures = info.rpcReturn.map RpcReturn.name ∧
      notifies = info.rpcNotify.map RpcNotify.name := by
  obtain ⟨_, _, first, second⟩ := registered_ok ok
  constructor
  · refine mapM_names first fun p mem name made => ?_
    have lacks := clear.procedures p mem
    obtain ⟨literal, own, taken⟩ := except_bind_eq_ok.mp made
    obtain ⟨_, -, own⟩ := except_bind_eq_ok.mp own
    refine kept_name own taken ?_
    simp only [List.cons_append, List.nil_append, List.forall_mem_cons]
    exact ⟨lacks _ (by decide), lacks _ (by decide), lacks _ (by decide), lacks _ (by decide),
      lacks _ (by decide), List.forall_mem_nil _⟩
  · refine mapM_names second fun p mem name made => ?_
    have lacks := clear.notifications p mem
    obtain ⟨literal, own, taken⟩ := except_bind_eq_ok.mp made
    obtain ⟨_, -, own⟩ := except_bind_eq_ok.mp own
    refine kept_name own taken ?_
    simp only [List.cons_append, List.nil_append, List.forall_mem_cons]
    exact ⟨lacks _ (by decide), lacks _ (by decide), lacks _ (by decide), lacks _ (by decide),
      lacks _ (by decide), List.forall_mem_nil _⟩

end Service

end LaliRpc.Zrpc.StubText
