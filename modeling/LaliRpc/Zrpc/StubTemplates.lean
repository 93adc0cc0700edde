/-
# Zrpc.StubTemplates — the texts that generated code is made of

The templates of `ServiceStub.cpp` and `ClientStub.cpp`, as text with holes. In
the source a hole is spelled `[name]`, and the templates are raw strings with
these names in them (`Placeholder.spelling`).

All templates but one are `tidy`: no name of a placeholder is in their text, and
at the borders of the holes stand characters that no placeholder has. The one is
`argsDefine`, where the index of an accessor is in brackets of its own.
-/
import LaliRpc.Jackson.Number
import LaliRpc.Theory.Substitution
import Mathlib.Data.List.Forall2

namespace LaliRpc.Zrpc

open LaliRpc.Jackson LaliRpc.Theory.Substitution

set_option autoImplicit false

/-- What is searched for in some template, and `[NotifyName]`, which never is. -/
inductive Placeholder where
  | macroName | userClassName | stubClassName | serviceName
  | stubProcedureBindings | stubProcedureDefinitions
  | procedureName | stubProcedureName | procedureParams | procedureArgs
  | paramsFromJsonArray | paramsFromJsonObject
  | notifyName | stubNotifyName | notifyParams | notifyArgs
  /-- in the template for notifications with parameters -/
  | NotifyName
  | arg | index | method
  | procedureDefinitions | notifyDefinitions | paramMembers | paramName | argType | argName
  deriving DecidableEq, Repr

namespace Placeholder

def name : Placeholder → Bytes
  | macroName => ascii "macroName"
  | userClassName => ascii "userClassName"
  | stubClassName => ascii "stubClassName"
  | serviceName => ascii "serviceName"
  | stubProcedureBindings => ascii "stubProcedureBindings"
  | stubProcedureDefinitions => ascii "stubProcedureDefinitions"
  | procedureName => ascii "procedureName"
  | stubProcedureName => ascii "stubProcedureName"
  | procedureParams => ascii "procedureParams"
  | procedureArgs => ascii "procedureArgs"
  | paramsFromJsonArray => ascii "paramsFromJsonArray"
  | paramsFromJsonObject => ascii "paramsFromJsonObject"
  | notifyName => ascii "notifyName"
  | stubNotifyName => ascii "stubNotifyName"
  | notifyParams => ascii "notifyParams"
  | notifyArgs => ascii "notifyArgs"
  | NotifyName => ascii "NotifyName"
  | arg => ascii "arg"
  | index => ascii "index"
  | method => ascii "method"
  | procedureDefinitions => ascii "procedureDefinitions"
  | notifyDefinitions => ascii "notifyDefinitions"
  | paramMembers => ascii "paramMembers"
  | paramName => ascii "paramName"
  | argType => ascii "argType"
  | argName => ascii "argName"

/-- `[name]` -/
def spelling (p : Placeholder) : Bytes := chr '[' :: p.name ++ [chr ']']

/-- The argument of its template that a placeholder stands for. -/
def meaning : Placeholder → Placeholder
  | NotifyName => notifyName
  | p => p

def all : List Placeholder :=
  [macroName, userClassName, stubClassName, serviceName, stubProcedureBindings,
    stubProcedureDefinitions, procedureName, stubProcedureName, procedureParams, procedureArgs,
    paramsFromJsonArray, paramsFromJsonObject, notifyName, stubNotifyName, notifyParams, notifyArgs,
    NotifyName, arg, index, method, procedureDefinitions, notifyDefinitions, paramMembers,
    paramName, argType, argName]

/-- Anything but a letter or a bracket. -/
def isFence (c : UInt8) : Bool := c < 65 || c == 92 || 93 < c && c < 97 || 122 < c

/-- The letters that placeholders begin with. -/
def initials : List UInt8 :=
  [chr 'm', chr 'u', chr 's', chr 'p', chr 'n', chr 'N', chr 'a', chr 'i']

end Placeholder

/-- The bytes of a literal, from its characters. -/
theorem ascii_ofList {s : String} {l : List Char} (same : s = String.ofList l) :
    ascii s = l.map chr := by
  rw [same, ascii, String.toList_ofList]
  rfl

namespace Placeholder

theorem name_letters (p : Placeholder) : ∃ c w, p.name = c :: w ∧ c ∈ initials ∧
    ((c :: w).all fun c => !isFence c && c != chr '[' && c != chr ']') = true := by
  cases p <;> exact ⟨_, _, ascii_ofList rfl, by decide, by decide⟩

theorem mem_all (p : Placeholder) : p ∈ all := by
  cases p <;> decide

theorem names_distinct : (all.map name).Nodup := by
  have table : ∃ names : List Bytes, List.Forall₂ (fun p w => name p = w) all names ∧
      names.Nodup := by
    apply Exists.intro
    apply And.intro
    · repeat' (first | exact .nil | apply List.Forall₂.cons | exact ascii_ofList rfl)
    · decide +kernel
  obtain ⟨names, same, distinct⟩ := table
  rw [← List.forall₂_map_left_iff (R := fun v w => v = w), List.forall₂_eq_eq_eq] at same
  rw [same]
  exact distinct

theorem name_injective {p q : Placeholder} (same : p.name = q.name) : p = q :=
  List.inj_on_of_nodup_map names_distinct (mem_all p) (mem_all q) same

theorem name_plain {p : Placeholder} {c : UInt8} (mem : c ∈ p.name) :
    isFence c = false ∧ c ≠ chr '[' ∧ c ≠ chr ']' := by
  obtain ⟨d, w, named, -, letters⟩ := p.name_letters
  rw [named] at mem
  have letter := List.all_eq_true.mp letters c mem
  simpa only [Bool.and_eq_true, Bool.not_eq_true', bne_iff_ne, and_assoc] using letter

/-- The placeholders, as words to search for. -/
def words : Words UInt8 Placeholder where
  spell := spelling
  fence := isFence
  nonempty _ := List.cons_ne_nil _ _
  unbordered _ := unbordered_brackets (by decide) fun mem => (name_plain mem).2.2 rfl
  foreign p c mem := by
    rw [spelling, List.cons_append, List.mem_cons, List.mem_append, List.mem_singleton] at mem
    rcases mem with rfl | inside | rfl
    · decide
    · exact (name_plain inside).1
    · decide
  apart p q ne occurs := ne (name_injective (infix_brackets (by decide)
    (fun mem => (name_plain mem).2.1 rfl) (fun mem => (name_plain mem).2.2 rfl) occurs))
  separate p q ne _ := separate_brackets (by decide) (fun mem => (name_plain mem).2.1 rfl)
    (fun mem => (name_plain mem).2.1 rfl) (fun mem => (name_plain mem).2.2 rfl)
    fun same => ne (name_injective same)

/-- No placeholder is in a text whose brackets are not followed by the first letter
of one. -/
theorem free_of_noOpening {s : Bytes} (clear : noOpening (chr '[') initials s = true)
    (p : Placeholder) : Free p.spelling s := by
  obtain ⟨c, w, named, initial, -⟩ := p.name_letters
  rw [spelling, named]
  exact LaliRpc.Theory.Substitution.free_of_noOpening initial clear

end Placeholder

/-! ## Templates -/

abbrev StubTemplate := Template UInt8 Placeholder

def text (s : String) : Piece UInt8 Placeholder := .text (ascii s)

def hole (p : Placeholder) : Piece UInt8 Placeholder := .hole p

namespace StubTemplate

/-! ### `ServiceStub.cpp` -/

def servicesStub : StubTemplate :=
  [text "\n/*\n * This stub is generated by zrpc, DO NOT modify it!\n */\n",
    text "#ifndef ZRPC_", hole .macroName, text "_H\n",
    text "#define ZRPC_", hole .macroName, text "_H\n\n",
    text "#include <jackson/Value.h>\n\n#include <zrpc/util.h>\n",
    text "#include <zrpc/server/Rpcserver.h>\n#include <zrpc/server/RpcService.h>\n\n",
    text "class ", hole .userClassName, text ";\n\ntemplate <typename S>\n",
    text "class ", hole .stubClassName, text "\n\x7b\nprotected:\n    explicit\n    ",
    hole .stubClassName, text "(RpcServer& server)\n    \x7b\n",
    text "        static_assert(std::is_same_v<S, ", hole .userClassName, text ">,\n",
    text "                      \"derived class name should be '", hole .userClassName,
    text "'\");\n\n        auto service = new RpcService;\n\n        ",
    hole .stubProcedureBindings, text "\n\n        server.addService(\"", hole .serviceName,
    text "\", service);\n    \x7d\n\n    ~", hole .stubClassName,
    text "() = default;\n\nprivate:\n    ", hole .stubProcedureDefinitions,
    text "\n\nprivate:\n    S& convert()\n    \x7b\n",
    text "        return static_cast<S&>(*this);\n    \x7d\n\x7d;\n\n",
    text "#endif //ZRPC_", hole .macroName, text "_H\n"]

def stubProcedureBind : StubTemplate :=
  [text "\nservice->addProcedureReturn(\"", hole .procedureName,
    text "\", new ProcedureReturn(\n        std::bind(&", hole .stubClassName, text "::",
    hole .stubProcedureName, text ", this, _1, _2)\n        ", hole .procedureParams,
    text "\n));\n"]

/-- `stubProcedureDefineTemplate` for a procedure with parameters. -/
def stubProcedureDefine : StubTemplate :=
  [text "void ", hole .stubProcedureName,
    text "(json::Value& request, const RpcDoneCallback& done)\n\x7b\n",
    text "    auto& params = request[\"params\"];\n\n    if (params.isArray()) \x7b\n        ",
    hole .paramsFromJsonArray, text "\n        convert().", hole .procedureName, text "(",
    hole .procedureArgs, text " UserDoneCallback(request, done));\n    \x7d\n",
    text "    else \x7b\n        ",
    hole .paramsFromJsonObject, text "\n        convert().", hole .procedureName, text "(",
    hole .procedureArgs, text " UserDoneCallback(request, done));\n    \x7d\n\x7d"]

/-- `stubProcedureDefineTemplate` for one without. -/
def stubProcedureDefineDirect : StubTemplate :=
  [text "\nvoid ", hole .stubProcedureName,
    text "(json::Value& request, const RpcDoneCallback& done)\n\x7b\n    convert().",
    hole .procedureName, text "(UserDoneCallback(request, done));\n\x7d\n"]

def stubNotifyBind : StubTemplate :=
  [text "\nservice->addProcedureNotify(\"", hole .notifyName,
    text "\", new ProcedureNotify(\n        std::bind(&", hole .stubClassName, text "::",
    hole .stubNotifyName, text ", this, _1)\n        ", hole .notifyParams, text "\n));\n"]

/-- `stubNotifyDefineTemplate` for a notification with parameters. -/
def stubNotifyDefine : StubTemplate :=
  [text "\nvoid ", hole .stubNotifyName, text "(json::Value& request)\n\x7b\n",
    text "    auto& params = request[\"params\"];\n\n    if (params.isArray()) \x7b\n        ",
    hole .paramsFromJsonArray, text "\n        convert().", hole .NotifyName, text "(",
    hole .notifyArgs, text ");\n    \x7d\n    else \x7b\n        ",
    hole .paramsFromJsonObject, text "\n        convert().", hole .NotifyName, text "(",
    hole .notifyArgs, text ");\n    \x7d\n\x7d\n"]

/-- `stubNotifyDefineTemplate` for one without. -/
def stubNotifyDefineDirect : StubTemplate :=
  [text "\nvoid ", hole .stubNotifyName, text "(json::Value& request)\n\x7b\n    convert().",
    hole .notifyName, text "();\n\x7d\n"]

def argsDefine : StubTemplate :=
  [text "auto ", hole .arg, text " = params[", hole .index, text "]", hole .method, text ";"]

/-! ### `ClientStub.cpp` -/

def clientStub : StubTemplate :=
  [text "\n/*\n * This stub is generated by zrpc, DO NOT modify it!\n */\n\n",
    text "#ifndef ZRPC_", hole .macroName, text "_H\n",
    text "#define ZRPC_", hole .macroName, text "_H\n\n",
    text "#include <jackson/Value.h>\n\n",
    text "#include <zrpc/util.h>\n#include <zrpc/client/RpcClient.h>\n\n\n",
    text "class ", hole .stubClassName, text "\n\x7b\npublic:\n    ", hole .stubClassName,
    text "(EventLoop* loop, const AddressOps& serverAddress):\n",
    text "            client_(loop, serverAddress)\n    \x7b\n",
    text "        client_.setConnectionCallback([this](const TcpConnectionPtr& conn)\x7b\n",
    text "            if (conn->connected()) \x7b\n                conn_ = conn;\n",
    text "                cb_(conn_);\n            \x7d\n            else \x7b\n",
    text "                assert(conn_ != nullptr);\n                cb_(conn_);\n",
    text "            \x7d\n        \x7d);\n    \x7d\n\n    ~", hole .stubClassName,
    text "() = default;\n\n    void start() \x7b client_.start(); \x7d\n\n",
    text "    void setConnectionCallback(const ConnectionCallback& cb)\n    \x7b\n",
    text "        cb_ = cb;\n    \x7d\n\n    ", hole .procedureDefinitions, text "\n    ",
    hole .notifyDefinitions, text "\n\nprivate:\n    TcpConnectionPtr conn_;\n",
    text "    ConnectionCallback cb_;\n    RpcClient client_;\n\x7d;\n\n",
    text "#endif //ZRPC_", hole .macroName, text "_H\n"]

def procedureDefine : StubTemplate :=
  [text "\nvoid ", hole .procedureName, text "(", hole .procedureArgs,
    text " const ResponseCallback& cb)\n\x7b\n    json::Value params(json::TYPE_OBJECT);\n    ",
    hole .paramMembers, text "\n\n    json::Value call(json::TYPE_OBJECT);\n",
    text "    call.addMember(\"jsonrpc\", \"2.0\");\n    call.addMember(\"method\", \"",
    hole .serviceName, text ".", hole .procedureName, text "\");\n",
    text "    call.addMember(\"params\", params);\n\n    assert(conn_ != nullptr);\n",
    text "    client_.sendCall(conn_, call, cb);\n\x7d\n"]

def notifyDefine : StubTemplate :=
  [text "\nvoid ", hole .notifyName, text "(", hole .notifyArgs,
    text ")\n\x7b\n    json::Value params(json::TYPE_OBJECT);\n    ", hole .paramMembers,
    text "\n\n    json::Value notify(json::TYPE_OBJECT);\n",
    text "    notify.addMember(\"jsonrpc\", \"2.0\");\n",
    text "    notify.addMember(\"method\", \"Hello.Goodbye\");\n\n",
    text "    assert(conn_ != nullptr);\n    client_.sendNotify(conn_, notify);\n\x7d\n"]

def paramMember : StubTemplate :=
  [text "\nparams.addMember(\"", hole .paramName, text "\", ", hole .paramName, text ");\n"]

def arg : StubTemplate := [hole .argType, text " ", hole .argName]

/-! ### They are tidy -/

def templates : List StubTemplate :=
  [servicesStub, stubProcedureBind, stubProcedureDefine, stubProcedureDefineDirect, stubNotifyBind,
    stubNotifyDefine, stubNotifyDefineDirect, clientStub, procedureDefine, notifyDefine,
    paramMember, arg]

/-- The check of a template, to be run on texts given by their characters. -/
def check (T : StubTemplate) : Bool :=
  fenced Placeholder.isFence T && T.all fun
    | .text s => noOpening (chr '[') Placeholder.initials s
    | .hole _ => true

theorem templates_checked : templates.all check = true := by
  have plain : ∃ Ts : List StubTemplate,
      List.Forall₂ (List.Forall₂ Eq) templates Ts ∧ Ts.all check = true := by
    apply Exists.intro
    apply And.intro
    · repeat' (first | exact .nil | apply List.Forall₂.cons |
        exact congrArg Piece.text (ascii_ofList rfl) | exact rfl)
    · decide +kernel
  obtain ⟨Ts, same, checked⟩ := plain
  rw [List.forall₂_eq_eq_eq, List.forall₂_eq_eq_eq] at same
  rw [same]
  exact checked

theorem tidy_of_check {T : StubTemplate} (checked : check T = true) : Placeholder.words.Tidy T := by
  obtain ⟨apart, texts⟩ := Bool.and_eq_true_iff.mp checked
  refine ⟨apart, fun p s mem => ?_⟩
  exact Placeholder.free_of_noOpening (List.all_eq_true.mp texts _ mem) p

theorem tidy {T : StubTemplate} (mem : T ∈ templates) : Placeholder.words.Tidy T :=
  tidy_of_check (List.all_eq_true.mp templates_checked T mem)

end StubTemplate

end LaliRpc.Zrpc
