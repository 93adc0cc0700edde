/-
# Zrpc.Dispatch — which requests reach a handler

`IsCall` and `IsNotification` are the grammars of the two kinds of request, each
with the procedure it names. The dispatch of calls accepts exactly its grammar
(`call_dispatch_exact`). The dispatch of notifications accepts nothing: it is
right about an object without an id exactly when the object is not a
notification (`notification_dispatch_iff`).
-/
import LaliRpc.Zrpc.RpcServer

namespace LaliRpc.Zrpc

open LaliRpc.Jackson LaliRpc.Theory

set_option autoImplicit false

/-- The event is a call of a user handler. -/
def Event.isCall {κ ν : Type} : Event κ ν → Bool
  | .callReturn .. => true
  | .callNotify .. => true
  | _ => false

section Calls

variable {κ ν : Type}

/-- No return procedure declares two parameters of one name. -/
def RpcServer.DistinctParams (server : RpcServer κ ν) : Prop :=
  ∀ s service, server.serviceList.find s = some service →
    ∀ m p, service.procedureReturnList.find m = some p → (p.params.map Param.paramName).Nodup

/-- The members are a call of the procedure `p`: its grammar, with `p` registered
under the service and method it names. -/
structure IsCall (server : RpcServer κ ν) (members : List (Bytes × Value))
    (p : Procedure κ) : Prop where
  routed : ∃ service name, Routed server members service name ∧
    service.procedureReturnList.find name = some p
  params : Procedure.ParamsMatch p.params (members.lookup (ascii "params"))

variable {server : RpcServer κ ν} {members : List (Bytes × Value)}

theorem isCall_iff_accepted (declared : server.DistinctParams) {p : Procedure κ} :
    IsCall server members p ↔ Accepted server members p := by
  constructor
  · rintro ⟨⟨service, name, routed, registered⟩, params⟩
    obtain ⟨s, -, -, -, found⟩ := routed.method
    have names := declared s service found name p registered
    exact ⟨⟨service, name, routed, registered⟩, (Procedure.validateGeneric_iff names).mpr params⟩
  · rintro ⟨⟨service, name, routed, registered⟩, params⟩
    obtain ⟨s, -, -, -, found⟩ := routed.method
    have names := declared s service found name p registered
    exact ⟨⟨service, name, routed, registered⟩, (Procedure.validateGeneric_iff names).mp params⟩

/-- **Dispatch accepts exactly its grammar.** A handler is called if and only if
the request is a call, and then it is the handler of the procedure the call
names, once, with the request itself. -/
theorem call_dispatch_exact (server : RpcServer κ ν) (declared : server.DistinctParams)
    (members : List (Bytes × Value)) (distinct : (members.map Prod.fst).Nodup)
    (done : RpcDoneCallback) :
    ((∃ e ∈ (server.handleSingleRequest (.object members) done).events, e.isCall) ↔
      ∃ p, IsCall server members p) ∧
    ∀ p, IsCall server members p →
      (server.handleSingleRequest (.object members) done).events =
        [.callReturn p.callback (.object members) done] := by
  have calls : ∀ p, IsCall server members p →
      (server.handleSingleRequest (.object members) done).events =
        [.callReturn p.callback (.object members) done] := by
    intro p call
    rw [handleSingleRequest_accepted distinct ((isCall_iff_accepted declared).mp call)]
  refine ⟨⟨?_, ?_⟩, calls⟩
  · rintro ⟨e, mem, -⟩
    by_contra none
    have refused : ¬ ∃ p, Accepted server members p := by
      rintro ⟨p, accepted⟩
      exact none ⟨p, (isCall_iff_accepted declared).mpr accepted⟩
    obtain ⟨t, eq⟩ := handleSingleRequest_not_accepted distinct refused done
    rw [eq, Exec.events_raise] at mem
    cases mem
  · rintro ⟨p, call⟩
    exact ⟨_, by rw [calls p call]; exact List.mem_singleton_self _, rfl⟩

end Calls

/-! ### A server with one procedure -/

section Demo

/-- `add(a : int32, b : int32)`. -/
def addProcedure : Procedure Unit := ⟨(), [⟨ascii "a", .int32⟩, ⟨ascii "b", .int32⟩]⟩

def pingProcedure : Procedure Unit := ⟨(), []⟩

def demoService : RpcService Unit Unit where
  procedureReturnList := ⟨[(ascii "add", addProcedure)], by simp⟩
  procedureNotifyList := ⟨[(ascii "ping", pingProcedure)], by simp⟩

/-- Service `s` with the return procedure `add` and the notify procedure `ping`. -/
def demoServer : RpcServer Unit Unit := ⟨⟨[(ascii "s", demoService)], by simp⟩⟩

theorem demoServer_only {s : Bytes} {service : RpcService Unit Unit}
    (found : demoServer.serviceList.find s = some service) : service = demoService := by
  have mem := mem_of_lookup found
  exact congrArg Prod.snd (List.mem_singleton.mp mem)

theorem demoServer_distinctParams : demoServer.DistinctParams := by
  intro s service found m p registered
  obtain rfl := demoServer_only found
  have mem := mem_of_lookup registered
  obtain rfl : p = addProcedure := congrArg Prod.snd (List.mem_singleton.mp mem)
  decide

/-- `s.add(b = 2, a = 1)`, by names. -/
def addCall : List (Bytes × Value) :=
  [(ascii "id", .int32 7), (ascii "jsonrpc", .string (ascii "2.0")),
    (ascii "method", .string (ascii "s.add")),
    (ascii "params", .object [(ascii "b", .int32 2), (ascii "a", .int32 1)])]

theorem addCall_isCall : IsCall demoServer addCall addProcedure := by
  refine ⟨⟨demoService, ascii "add", ⟨⟨.int32 7, by decide, by decide⟩, by decide,
    ⟨ascii "s", by decide, by decide, by decide, rfl⟩, by decide⟩, rfl⟩, ?_⟩
  show Procedure.ParamsMatch _ (some (.object [(ascii "b", .int32 2), (ascii "a", .int32 1)]))
  exact ⟨by decide, by decide, by decide⟩

theorem addCall_accepted : Accepted demoServer addCall addProcedure :=
  (isCall_iff_accepted demoServer_distinctParams).mp addCall_isCall

theorem addCall_dispatched :
    (demoServer.handleSingleRequest (.object addCall) fun _ => []).events =
      [.callReturn () (.object addCall) fun _ => []] :=
  (call_dispatch_exact demoServer demoServer_distinctParams addCall (by decide) fun _ => []).2
    addProcedure addCall_isCall

end Demo

/-! ## Notifications -/

section Notifications

variable {κ ν : Type}

/-- The members are a notification for the procedure `p`. -/
structure IsNotification (server : RpcServer κ ν) (members : List (Bytes × Value))
    (p : Procedure ν) : Prop where
  version : members.lookup (ascii "jsonrpc") = some (.string (ascii "2.0"))
  method : ∃ s m service, members.lookup (ascii "method") = some (.string (s ++ chr '.' :: m)) ∧
    chr '.' ∉ s ∧ m ≠ [] ∧ server.serviceList.find s = some service ∧
    service.procedureNotifyList.find m = some p
  fields : members.map Prod.fst ⊆ [ascii "jsonrpc", ascii "method", ascii "params"]
  params : p.validateGeneric (.object members) = .ok true

/-- The server treats an object without an id as it should: a notification is
delivered once and without a response, and anything else reaches no handler. -/
structure Notified (server : RpcServer κ ν) (json : Bytes) (members : List (Bytes × Value))
    (done : RpcDoneCallback) : Prop where
  delivers : ∀ p, IsNotification server members p →
    (server.handleRequest json done).events = [.callNotify p.callback (.object members)]
  ignores : (¬ ∃ p, IsNotification server members p) →
    ∀ e ∈ (server.handleRequest json done).events, ¬ e.isCall

theorem handleRequest_notify (server : RpcServer κ ν) {json : Bytes}
    {members : List (Bytes × Value)} (parsed : parse json = .ok (.object members))
    (noId : members.lookup (ascii "id") = none) (done : RpcDoneCallback) :
    server.handleRequest json done = Exec.raise (.exception "missing at least one filed") := by
  rw [handleRequest_ok parsed, dispatch_notify noId]

/-- **Only what is no notification is treated right.** -/
theorem notification_dispatch_iff (server : RpcServer κ ν) (json : Bytes)
    (members : List (Bytes × Value)) (parsed : parse json = .ok (.object members))
    (noId : ascii "id" ∉ members.map Prod.fst) (done : RpcDoneCallback) :
    Notified server json members done ↔ ¬ ∃ p, IsNotification server members p := by
  have throws := handleRequest_notify server parsed (lookup_eq_none_iff.mpr noId) done
  constructor
  · rintro ⟨delivers, -⟩ ⟨p, notification⟩
    have delivered := delivers p notification
    rw [throws, Exec.events_raise] at delivered
    cases delivered
  · intro none
    refine ⟨fun p notification => absurd ⟨p, notification⟩ none, fun _ e mem => ?_⟩
    rw [throws, Exec.events_raise] at mem
    cases mem

/-- A notification of `s.ping`. -/
def pingText : Bytes := ascii "\x7b\"jsonrpc\":\"2.0\",\"method\":\"s.ping\"\x7d"

def pingMembers : List (Bytes × Value) :=
  [(ascii "jsonrpc", .string (ascii "2.0")), (ascii "method", .string (ascii "s.ping"))]

theorem parse_pingText : parse pingText = .ok (.object pingMembers) := by
  decide +kernel

theorem ping_isNotification : IsNotification demoServer pingMembers pingProcedure :=
  ⟨by decide, ⟨ascii "s", ascii "ping", demoService, by decide, by decide, by decide, rfl, rfl⟩,
    by decide, by decide⟩

/-- A well-formed notification of a registered procedure is not delivered. -/
theorem ping_not_notified :
    parse pingText = .ok (.object pingMembers) ∧ ascii "id" ∉ pingMembers.map Prod.fst ∧
      ¬ Notified demoServer pingText pingMembers fun _ => [] := by
  refine ⟨parse_pingText, by decide, fun notified => ?_⟩
  have delivered := notified.delivers pingProcedure ping_isNotification
  rw [handleRequest_notify demoServer parse_pingText (by decide)] at delivered
  cases delivered

/-- An object for an unregistered method, which rightly reaches no handler. -/
def strayText : Bytes := ascii "\x7b\"jsonrpc\":\"2.0\",\"method\":\"s.add\"\x7d"

def strayMembers : List (Bytes × Value) :=
  [(ascii "jsonrpc", .string (ascii "2.0")), (ascii "method", .string (ascii "s.add"))]

theorem stray_not_notification : ¬ ∃ p, IsNotification demoServer strayMembers p := by
  rintro ⟨p, -, ⟨s, m, service, method, free, -, found, registered⟩, -, -⟩
  obtain rfl := demoServer_only found
  have name : s ++ chr '.' :: m = ascii "s" ++ chr '.' :: ascii "add" := by
    have given : strayMembers.lookup (ascii "method") = some (.string (ascii "s.add")) := by decide
    have same := Value.string.inj (Option.some.inj (method.symm.trans given))
    exact same.trans (by decide)
  have len := idxOf?_split free m
  rw [name, idxOf?_split (by decide)] at len
  have tails := (List.append_inj name (Option.some.inj len).symm).2
  obtain rfl : m = ascii "add" := (List.cons.inj tails).2
  cases registered

theorem stray_notified : Notified demoServer strayText strayMembers fun _ => [] :=
  (notification_dispatch_iff demoServer strayText strayMembers (by decide +kernel) (by decide)
    fun _ => []).mpr stray_not_notification

end Notifications

end LaliRpc.Zrpc
