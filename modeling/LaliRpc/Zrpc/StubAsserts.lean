/-
# Zrpc.StubAsserts — when the generators fail an assertion

The switch over the types of the parameters asserts that there is none but the
seven it has cases for. A null parameter is not among them, and `parseProto` lets
it through.
-/
import LaliRpc.Zrpc.StubChecks
import LaliRpc.Zrpc.StubText

namespace LaliRpc.Zrpc.StubText

open LaliRpc.Jackson LaliRpc.Theory StubChecks

set_option autoImplicit false

/-- No parameter of the description is null. -/
def AllTyped (info : ServiceInfo) : Prop :=
  (∀ r ∈ info.rpcReturn, Typed r.params) ∧ ∀ r ∈ info.rpcNotify, Typed r.params

/-! ## Typed parameters fail none -/

/-- The template functions fail no assertion of their own. -/
def Silent (engine : Engine) : Prop := ∀ T rs, engine T rs ≠ .error .assertion

theorem silent_sequential (fuel : Nat) : Silent (sequential fuel) := by
  intro T rs
  unfold sequential
  cases Placeholder.words.replaceEach rs fuel (Substitution.fill Placeholder.spelling T) with
  | none => exact nofun
  | some str => exact nofun

section

variable {α β : Type} {params : Value} {engine : Engine}

theorem object_ne (typed : Typed params) {k : List (Bytes × Value) → Except Stop β}
    (rest : ∀ declared, (∀ m ∈ declared, m.2.getType ≠ .null) → k declared ≠ .error .assertion) :
    getObject params >>= k ≠ .error .assertion := by
  obtain ⟨declared, rfl, types⟩ := typed
  exact rest declared types

theorem steps_ne {as : List α} {f : α → Except Stop β} {g : List β → Bytes}
    (each : ∀ a ∈ as, f a ≠ .error .assertion) :
    (as.mapM f >>= fun bs => pure (g bs)) ≠ .error .assertion :=
  bind_ne_error (mapM_ne_error each) fun _ _ => nofun

end

/-- A generator that has ended without an assertion has returned a text. -/
theorem text_of_ended {x : Except Stop Bytes} (ended : x ≠ .error .running)
    (passed : x ≠ .error .assertion) : ∃ str, x = .ok str := by
  cases x with
  | ok str => exact ⟨str, rfl⟩
  | error stop =>
      cases stop with
      | running => exact absurd rfl ended
      | assertion => exact absurd rfl passed

namespace Service

variable {params : Value} {engine : Engine} {info : ServiceInfo}

theorem typeName_ne {type : ValueType} (typed : type ≠ .null) :
    typeName type ≠ .error .assertion := by
  cases type with
  | null => exact absurd rfl typed
  | bool | int32 | int64 | double | string | object | array => exact nofun

theorem getterText_ne {type : ValueType} (typed : type ≠ .null) :
    getterText type ≠ .error .assertion := by
  cases type with
  | null => exact absurd rfl typed
  | bool | int32 | int64 | double | string | object | array => exact nofun

theorem getGenericParams_ne (typed : Typed params) :
    getGenericParams params ≠ .error .assertion := by
  refine object_ne typed fun declared types => steps_ne fun m mem => ?_
  exact bind_ne_error (typeName_ne (types m mem)) fun _ _ => nofun

theorem getGenericArgs_ne (typed : Typed params) : getGenericArgs params ≠ .error .assertion :=
  object_ne typed fun _ _ => nofun

theorem argsDefineTemplate_ne (silent : Silent engine) {type : ValueType} (typed : type ≠ .null)
    (arg index : Bytes) : argsDefineTemplate engine arg index type ≠ .error .assertion :=
  bind_ne_error (getterText_ne typed) fun _ _ => silent _ _

theorem getParamsFromJsonArray_ne (silent : Silent engine) (typed : Typed params) :
    getParamsFromJsonArray engine params ≠ .error .assertion := by
  refine object_ne typed fun declared types => steps_ne fun m mem => ?_
  have type := types m.1 (List.fst_mem_of_mem_zipIdx mem)
  exact bind_ne_error (argsDefineTemplate_ne silent type _ _) fun _ _ => nofun

theorem getParamsFromJsonObject_ne (silent : Silent engine) (typed : Typed params) :
    getParamsFromJsonObject engine params ≠ .error .assertion := by
  refine object_ne typed fun declared types => steps_ne fun m mem => ?_
  exact bind_ne_error (argsDefineTemplate_ne silent (types m mem) _ _) fun _ _ => nofun

theorem procedureDefinition_ne (silent : Silent engine) {r : RpcReturn} (typed : Typed r.params) :
    procedureDefinition engine r ≠ .error .assertion := by
  unfold procedureDefinition
  by_cases some : r.params.getSize > 0
  · simp only [if_pos some]
    refine bind_ne_error ?_ fun _ _ => nofun
    refine bind_ne_error (getParamsFromJsonArray_ne silent typed) fun _ _ => ?_
    refine bind_ne_error (getParamsFromJsonObject_ne silent typed) fun _ _ => ?_
    exact bind_ne_error (getGenericArgs_ne typed) fun _ _ => silent _ _
  · simp only [if_neg some]
    exact bind_ne_error (silent _ _) fun _ _ => nofun

theorem notifyDefinition_ne (silent : Silent engine) {r : RpcNotify} (typed : Typed r.params) :
    notifyDefinition engine r ≠ .error .assertion := by
  unfold notifyDefinition
  by_cases some : r.params.getSize > 0
  · simp only [if_pos some]
    refine bind_ne_error ?_ fun _ _ => nofun
    refine bind_ne_error (getParamsFromJsonArray_ne silent typed) fun _ _ => ?_
    refine bind_ne_error (getParamsFromJsonObject_ne silent typed) fun _ _ => ?_
    exact bind_ne_error (getGenericArgs_ne typed) fun _ _ => silent _ _
  · simp only [if_neg some]
    exact bind_ne_error (silent _ _) fun _ _ => nofun

/-- The generator of the server fails no assertion if all parameters are typed. -/
theorem getStub_ne (silent : Silent engine) (typed : AllTyped info) :
    getStub engine info ≠ .error .assertion := by
  refine bind_ne_error (steps_ne fun r mem => ?_) fun _ _ => ?_
  · refine bind_ne_error (getGenericParams_ne (typed.1 r mem)) fun _ _ => ?_
    exact bind_ne_error (silent _ _) fun _ _ => nofun
  refine bind_ne_error (steps_ne fun r mem => ?_) fun _ _ => ?_
  · refine bind_ne_error (getGenericParams_ne (typed.2 r mem)) fun _ _ => ?_
    exact bind_ne_error (silent _ _) fun _ _ => nofun
  refine bind_ne_error (steps_ne fun r mem => ?_) fun _ _ => ?_
  · exact procedureDefinition_ne silent (typed.1 r mem)
  refine bind_ne_error (steps_ne fun r mem => ?_) fun _ _ => silent _ _
  exact notifyDefinition_ne silent (typed.2 r mem)

end Service

namespace Client

variable {params : Value} {engine : Engine} {info : ServiceInfo}

theorem argTypeText_ne {type : ValueType} (typed : type ≠ .null) :
    argTypeText type ≠ .error .assertion := by
  cases type with
  | null => exact absurd rfl typed
  | bool | int32 | int64 | double | string | object | array => exact nofun

theorem getGenericArgs_ne (silent : Silent engine) (typed : Typed params) (append : Bool) :
    getGenericArgs engine params append ≠ .error .assertion := by
  refine object_ne typed fun declared types => steps_ne fun m mem => ?_
  exact bind_ne_error (argTypeText_ne (types m mem)) fun _ _ => silent _ _

theorem getGenericParamMembers_ne (silent : Silent engine) (typed : Typed params) :
    getGenericParamMembers engine params ≠ .error .assertion :=
  object_ne typed fun _ _ => steps_ne fun _ _ => silent _ _

/-- The same for the client. -/
theorem getStub_ne (silent : Silent engine) (typed : AllTyped info) :
    getStub engine info ≠ .error .assertion := by
  refine bind_ne_error (steps_ne fun r mem => ?_) fun _ _ => ?_
  · refine bind_ne_error (getGenericArgs_ne silent (typed.1 r mem) true) fun _ _ => ?_
    exact bind_ne_error (getGenericParamMembers_ne silent (typed.1 r mem)) fun _ _ => silent _ _
  refine bind_ne_error (steps_ne fun r mem => ?_) fun _ _ => silent _ _
  refine bind_ne_error (getGenericArgs_ne silent (typed.2 r mem) false) fun _ _ => ?_
  exact bind_ne_error (getGenericParamMembers_ne silent (typed.2 r mem)) fun _ _ => silent _ _

end Client

/-! ## A text is returned for typed parameters only -/

namespace Service

theorem getGenericParams_typed {params : Value} {s : Bytes}
    (ok : getGenericParams params = .ok s) : Typed params := by
  obtain ⟨declared, object, ok⟩ := except_bind_eq_ok.mp ok
  obtain ⟨fields, made, -⟩ := except_bind_eq_ok.mp ok
  cases params with
  | object members =>
      obtain rfl := Except.ok.inj object
      refine ⟨members, rfl, fun m mem null => ?_⟩
      obtain ⟨field, -, ok⟩ := mapM_ok_mem made mem
      rw [null] at ok
      cases ok
  | null | bool _ | int32 _ | int64 _ | double _ | string _ | array _ => cases object

theorem getStub_typed {engine : Engine} {info : ServiceInfo} {str : Bytes}
    (ok : getStub engine info = .ok str) : AllTyped info := by
  obtain ⟨_, bindings, ok⟩ := except_bind_eq_ok.mp ok
  obtain ⟨_, notifyBindings, -⟩ := except_bind_eq_ok.mp ok
  obtain ⟨_, made, -⟩ := except_bind_eq_ok.mp bindings
  obtain ⟨_, notifyMade, -⟩ := except_bind_eq_ok.mp notifyBindings
  constructor
  · intro r mem
    obtain ⟨_, -, binding⟩ := mapM_ok_mem made mem
    obtain ⟨_, params, -⟩ := except_bind_eq_ok.mp binding
    exact getGenericParams_typed params
  · intro r mem
    obtain ⟨_, -, binding⟩ := mapM_ok_mem notifyMade mem
    obtain ⟨_, params, -⟩ := except_bind_eq_ok.mp binding
    exact getGenericParams_typed params

end Service

end LaliRpc.Zrpc.StubText
