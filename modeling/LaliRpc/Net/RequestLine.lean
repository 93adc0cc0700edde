/-
# Net.RequestLine — what the parser takes for a request line

`RequestLine` is a line of the grammar: one of the five methods, a blank, a
target without blanks, a blank and one of the two versions. `partOnRequestLine`
answers `true` on exactly these (`partOnRequestLine_text`,
`text_of_partOnRequestLine`), and a line is one of them in one way only
(`text_injective`).

`partOnRequestLineAt` is the same function on two pointers, every byte it looks
at an event; it computes what the one on the line does, and reads nothing outside
the range it is given (`within_partOnRequestLineAt`).
-/
import LaliRpc.Net.HttpContext
import LaliRpc.Theory.RawRange

namespace LaliRpc.Net

set_option autoImplicit false

open Theory (Exec Scanner Walk)
open Theory.Walk (cells Holds Within holds_append within_find within_find_none within_copy
  within_equal within_read)

/-! ## The grammar -/

def HttpRequest.Method.text : HttpRequest.Method → Bytes
  | .get => ascii "GET"
  | .post => ascii "POST"
  | .head => ascii "HEAD"
  | .put => ascii "PUT"
  | .delete => ascii "DELETE"
  | .invaild => []

def HttpRequest.Version.text : HttpRequest.Version → Bytes
  | .http10 => ascii "HTTP/1.0"
  | .http11 => ascii "HTTP/1.1"
  | .unknown => []

/-- The three parts of a request line. -/
structure RequestLine where
  method : HttpRequest.Method
  target : Bytes
  version : HttpRequest.Version
  isMethod : method ≠ .invaild
  isVersion : version ≠ .unknown
  plain : 32 ∉ target

namespace RequestLine

def text (l : RequestLine) : Bytes := l.method.text ++ 32 :: (l.target ++ 32 :: l.version.text)

/-- The target up to its first `?`. -/
def path (l : RequestLine) : Bytes := l.target.takeWhile (· != 63)

/-- The rest of the target, from that `?` on. -/
def query (l : RequestLine) : Bytes := l.target.dropWhile (· != 63)

/-- The request with what the line says; a target without `?` says nothing of the query. -/
def told (l : RequestLine) (request : HttpRequest) : HttpRequest :=
  { request with
    method := l.method
    version := l.version
    path := l.path
    query := if 63 ∈ l.target then l.query else request.query }

end RequestLine

/-! ## Its words -/

section Words

variable {c : UInt8} {line : Bytes}

/-- `std::find` stops at the byte behind a text that does not contain it. -/
theorem idxOf_behind (free : c ∉ line) (rest : Bytes) : (line ++ c :: rest).idxOf c = line.length := by
  rw [List.idxOf_append_of_notMem free, List.idxOf_cons_self, Nat.add_zero]

/-- Where `std::find` stops in front of the end, the byte is, and not before. -/
theorem split_at_idxOf (found : line.idxOf c ≠ line.length) :
    ∃ front rest, line = front ++ c :: rest ∧ c ∉ front := by
  have mem : c ∈ line := List.idxOf_lt_length_iff.mp (Nat.lt_of_le_of_ne List.idxOf_le_length found)
  exact List.eq_append_cons_of_mem mem

/-- A text is cut at its first `c` in one way. -/
theorem cut_unique {line' rest rest' : Bytes} (free : c ∉ line) (free' : c ∉ line')
    (same : line ++ c :: rest = line' ++ c :: rest') : line = line' ∧ rest = rest' := by
  have size : line.length = line'.length := by
    rw [← idxOf_behind free rest, same, idxOf_behind free' rest']
  obtain ⟨front, behind⟩ := List.append_inj same size
  exact ⟨front, List.tail_eq_of_cons_eq behind⟩

theorem method_plain (method : HttpRequest.Method) :
    32 ∉ method.text ∧ 63 ∉ method.text ∧ 13 ∉ method.text := by
  cases method <;> decide

theorem methodOf_text {method : HttpRequest.Method} (known : method ≠ .invaild) :
    HttpRequest.methodOf method.text = method := by
  cases method with
  | invaild => exact absurd rfl known
  | _ => decide

/-- `setMethod` knows the five names and no other. -/
theorem text_methodOf {text : Bytes} (known : HttpRequest.methodOf text ≠ .invaild) :
    (HttpRequest.methodOf text).text = text := by
  unfold HttpRequest.methodOf at known ⊢
  split_ifs at known ⊢ with get post head put delete
  · exact get.symm
  · exact post.symm
  · exact head.symm
  · exact put.symm
  · exact delete.symm
  · exact absurd rfl known

theorem versionOf_text {version : HttpRequest.Version} (known : version ≠ .unknown) :
    HttpContext.versionOf version.text = some version := by
  cases version with
  | unknown => exact absurd rfl known
  | _ => decide

/-- The length, the seven bytes and the last one leave the two versions. -/
theorem text_of_versionOf {text : Bytes} {version : HttpRequest.Version}
    (read : HttpContext.versionOf text = some version) :
    version ≠ .unknown ∧ text = version.text := by
  unfold HttpContext.versionOf at read
  split at read
  · rename_i shape
    have last : text.take 7 ++ text.drop 7 = text := List.take_append_drop 7 text
    have one : (text.drop 7).length = 1 := by rw [List.length_drop, shape.1]
    obtain ⟨digit, behind⟩ := List.length_eq_one_iff.mp one
    rw [behind, shape.2] at last
    have final : text.getLast? = some digit := by simp [← last]
    rw [final] at read
    split_ifs at read with eleven ten
    · cases read
      cases eleven
      exact ⟨by decide, last.symm⟩
    · cases read
      cases ten
      exact ⟨by decide, last.symm⟩
  · cases read

end Words

/-! ## Lines with two blanks -/

section Parts

variable {request : HttpRequest} {word target version : Bytes}

theorem slice_middle {front middle rest line : Bytes} {first last : Nat}
    (shape : line = front ++ middle ++ rest) (begins : first = front.length)
    (ends : last = front.length + middle.length) : slice line first last = middle := by
  subst shape begins ends
  rw [slice, List.take_left' (by simp), List.drop_left' rfl]

theorem unmarked_passes {path : Bytes} (free : 63 ∉ path) : ∀ c ∈ path, (c != 63) = true := by
  intro c mem
  have other : c ≠ 63 := fun same => free (same ▸ mem)
  simpa using other

/-- The path and the query of a target, by its first `?`. -/
theorem takeWhile_mark {path : Bytes} (free : 63 ∉ path) (rest : Bytes) :
    (path ++ 63 :: rest).takeWhile (· != 63) = path ∧
      (path ++ 63 :: rest).dropWhile (· != 63) = 63 :: rest := by
  rw [List.takeWhile_append_of_pos (unmarked_passes free),
    List.dropWhile_append_of_pos (unmarked_passes free)]
  simp

theorem takeWhile_unmarked {path : Bytes} (free : 63 ∉ path) :
    path.takeWhile (· != 63) = path := by
  simpa using @List.takeWhile_append_of_pos _ _ path [] (unmarked_passes free)

/-- The path and the query are assigned from either side of the first `?`, which the
search from the start of the line finds in the target. -/
theorem assigned (free : 63 ∉ word) (rest : Bytes) :
    let line := word ++ 32 :: (target ++ rest)
    let begin := word.length + 1
    let space := begin + target.length
    let question := (line.take space).idxOf 63
    (if question ≠ space then
        (request.setpath (slice line begin question)).setQuery (slice line question space)
      else request.setpath (slice line begin space)) =
      { request with
        path := target.takeWhile (· != 63)
        query := if 63 ∈ target then target.dropWhile (· != 63) else request.query } := by
  intro line begin space question
  have shape : line = (word ++ [32]) ++ target ++ rest := by simp [line]
  have upTo : line.take space = (word ++ [32]) ++ target := by
    rw [shape, List.take_left' (by simp [space, begin]; omega)]
  have inFront : (63 : UInt8) ∉ word ++ [32] := by simp [free]
  have found : question = begin + target.idxOf 63 := by
    simp only [question, upTo, List.idxOf_append_of_notMem inFront]
    simp [begin]
  by_cases mark : 63 ∈ target
  · obtain ⟨path, query, rfl, unmarked⟩ := List.eq_append_cons_of_mem mark
    rw [idxOf_behind unmarked] at found
    have path' : slice line begin question = path :=
      @slice_middle (word ++ [32]) path (63 :: query ++ rest) _ _ _ (by simp [shape])
        (by simp [begin]) (by simp [found, begin])
    have query' : slice line question space = 63 :: query :=
      @slice_middle (word ++ [32] ++ path) (63 :: query) rest _ _ _ (by simp [shape])
        (by simp [found, begin]; omega) (by simp [space, begin]; omega)
    have inside : question ≠ space := by
      simp only [found, space, List.length_append, List.length_cons]
      omega
    rw [if_pos inside, if_pos mark, path', query', (takeWhile_mark unmarked query).1,
      (takeWhile_mark unmarked query).2]
    rfl
  · have atEnd : question = space := by rw [found, List.idxOf_eq_length mark]
    have path' : slice line begin space = target :=
      slice_middle shape (by simp [begin]) (by simp [space, begin])
    rw [if_neg (not_not_intro atEnd), if_neg mark, path', takeWhile_unmarked mark]
    rfl

/-- What is in front of the first blank is given to `setMethod`, which has the field assigned. -/
theorem partOnRequestLine_unknown (one : 32 ∉ word)
    (unknown : HttpRequest.methodOf word = .invaild) (rest : Bytes) :
    HttpContext.partOnRequestLine request (word ++ 32 :: rest) =
      (false, { request with method := .invaild }) := by
  have inFront : (word ++ 32 :: rest).take word.length = word := List.take_left' rfl
  have inside : word.length ≠ (word ++ 32 :: rest).length := by
    simp
  simp only [HttpContext.partOnRequestLine, idxOf_behind one, if_neg inside,
    HttpRequest.setMethod, inFront, unknown]
  rfl

theorem drop_behind (word rest : Bytes) :
    (word ++ 32 :: rest).drop (word.length + 1) = rest := by
  rw [List.append_cons, List.drop_left' (by simp)]

/-- A line with one blank. -/
theorem partOnRequestLine_oneBlank {rest : Bytes} (one : 32 ∉ word) (none : 32 ∉ rest) :
    HttpContext.partOnRequestLine request (word ++ 32 :: rest) =
      (false, { request with method := HttpRequest.methodOf word }) := by
  have inFront : (word ++ 32 :: rest).take word.length = word := List.take_left' rfl
  have size : (word ++ 32 :: rest).length = word.length + 1 + rest.length := by
    simp
    omega
  have inside : word.length ≠ (word ++ 32 :: rest).length := by omega
  simp only [HttpContext.partOnRequestLine, idxOf_behind one, if_neg inside,
    HttpRequest.setMethod, inFront, drop_behind, List.idxOf_eq_length none, ← size, if_true]
  split <;> rfl

/-- A line with two blanks or more, cut at the first two. -/
theorem partOnRequestLine_parts (one : 32 ∉ word) (two : 32 ∉ target)
    (known : HttpRequest.methodOf word ≠ .invaild) :
    HttpContext.partOnRequestLine request (word ++ 32 :: (target ++ 32 :: version)) =
      let request :=
        { request with
          method := HttpRequest.methodOf word
          path := target.takeWhile (· != 63)
          query := if 63 ∈ target then target.dropWhile (· != 63) else request.query }
      match HttpContext.versionOf version with
      | some v => (true, request.setVersion v)
      | none => (false, request) := by
  have first := idxOf_behind one (target ++ 32 :: version)
  have inFront : (word ++ 32 :: (target ++ 32 :: version)).take word.length = word :=
    List.take_left' rfl
  have last : (word ++ 32 :: (target ++ 32 :: version)).drop (word.length + 1 + target.length + 1) =
      version := by
    rw [Nat.add_assoc (word.length + 1), ← List.drop_drop, drop_behind, drop_behind]
  have size : (word ++ 32 :: (target ++ 32 :: version)).length =
      word.length + 1 + target.length + 1 + version.length := by
    simp
    omega
  have free : 63 ∉ word := by
    rw [← text_methodOf known]
    exact (method_plain _).2.1
  have isMethod : (!(HttpRequest.methodOf word != .invaild)) = false := by simpa using known
  simp only [HttpContext.partOnRequestLine, first, HttpRequest.setMethod, inFront, isMethod,
    drop_behind, idxOf_behind two, last]
  rewrite [if_neg (by omega), if_neg (by simp), if_neg (by omega), assigned free]
  rfl

/-- An accepted line has two blanks and a method in front of them. -/
theorem parts_of_accepted {line : Bytes}
    (accepted : (HttpContext.partOnRequestLine request line).1 = true) :
    ∃ word target version, line = word ++ 32 :: (target ++ 32 :: version) ∧
      32 ∉ word ∧ 32 ∉ target ∧ HttpRequest.methodOf word ≠ .invaild := by
  by_cases first : line.idxOf 32 = line.length
  · simp [HttpContext.partOnRequestLine, first] at accepted
  obtain ⟨word, rest, rfl, one⟩ := split_at_idxOf first
  by_cases second : rest.idxOf 32 = rest.length
  · rw [partOnRequestLine_oneBlank one (List.idxOf_eq_length_iff.mp second)] at accepted
    cases accepted
  obtain ⟨target, version, rfl, two⟩ := split_at_idxOf second
  refine ⟨word, target, version, rfl, one, two, fun unknown => ?_⟩
  rw [partOnRequestLine_unknown one unknown] at accepted
  cases accepted

end Parts

/-! ## The lines of the grammar are the accepted ones -/

namespace RequestLine

theorem partOnRequestLine_text (l : RequestLine) (request : HttpRequest) :
    HttpContext.partOnRequestLine request l.text = (true, l.told request) := by
  have isMethod : HttpRequest.methodOf l.method.text ≠ .invaild := by
    rw [methodOf_text l.isMethod]
    exact l.isMethod
  rw [text, partOnRequestLine_parts (method_plain _).1 l.plain isMethod]
  simp only [methodOf_text l.isMethod, versionOf_text l.isVersion]
  rfl

theorem text_of_accepted {request : HttpRequest} {line : Bytes}
    (accepted : (HttpContext.partOnRequestLine request line).1 = true) :
    ∃ l : RequestLine, l.text = line := by
  obtain ⟨word, target, version, rfl, one, two, known⟩ := parts_of_accepted accepted
  rw [partOnRequestLine_parts one two known] at accepted
  cases read : HttpContext.versionOf version with
  | none => simp [read] at accepted
  | some v =>
      obtain ⟨isVersion, rfl⟩ := text_of_versionOf read
      refine ⟨⟨_, target, v, known, isVersion, two⟩, ?_⟩
      simp only [text, text_methodOf known]

/-- A fresh request has no other query. -/
theorem told_query (l : RequestLine) : (l.told {}).query = l.query := by
  by_cases mark : 63 ∈ l.target
  · exact if_pos mark
  · have nothing : l.query = [] := by
      simpa [query] using @List.dropWhile_append_of_pos _ _ l.target [] (unmarked_passes mark)
    rw [nothing]
    exact if_neg mark

/-- A buffer whose first line it is. -/
theorem step_text (l : RequestLine) {p : Bytes} (found : Buffer.searchCRLF p = some l.text.length)
    (first : p.take l.text.length = l.text) (time : Timestamp) :
    (HttpContext.lines time).step {} p =
      .next ⟨(l.told {}).setReceiveTime time, .headers⟩ (l.text.length + 2) := by
  simp only [HttpContext.lines, HttpContext.lineStep, found, first, l.partOnRequestLine_text,
    if_true]

theorem methodText_injective {m m' : HttpRequest.Method} (known : m ≠ .invaild)
    (known' : m' ≠ .invaild) (same : m.text = m'.text) : m = m' := by
  rw [← methodOf_text known, same, methodOf_text known']

theorem versionText_injective {v v' : HttpRequest.Version} (known : v ≠ .unknown)
    (known' : v' ≠ .unknown) (same : v.text = v'.text) : v = v' := by
  apply Option.some.inj
  rw [← versionOf_text known, same, versionOf_text known']

/-- A line is of the grammar in one way. -/
theorem text_inj {l l' : RequestLine} (same : l.text = l'.text) : l = l' := by
  obtain ⟨front, behind⟩ := cut_unique (method_plain _).1 (method_plain _).1 same
  obtain ⟨target, version⟩ := cut_unique l.plain l'.plain behind
  have method' := methodText_injective l.isMethod l'.isMethod front
  have version' := versionText_injective l.isVersion l'.isVersion version
  cases l
  cases l'
  cases method'
  cases version'
  cases target
  rfl

end RequestLine

/-! ## Through pointers -/

/-- `partOnRequestLine` from the search for `?` to the assignments; the target is
`[begin, space)`. -/
def targetAt (mem : Nat → UInt8) (start begin space : Nat) (request : HttpRequest) :
    Walk HttpRequest := do
  let question ← Walk.find mem start space 63
  if question ≠ space then
    let path ← Walk.copy mem begin question
    let query ← Walk.copy mem question space
    pure ((request.setpath path).setQuery query)
  else
    let path ← Walk.copy mem begin space
    pure (request.setpath path)

/-- The rest of it, with `begin` behind the second blank. -/
def versionAt (mem : Nat → UInt8) (begin finish : Nat) (request : HttpRequest) :
    Walk (Bool × HttpRequest) := do
  -- `&&` looks at the seven bytes only behind the test of the length
  let succeed ←
    if finish - begin = 8 then Walk.equal mem begin (finish - 1) (ascii "HTTP/1.")
    else pure false
  if !succeed then pure (false, request)
  else
    let last ← Walk.read mem (finish - 1)
    if last = 49 then pure (true, request.setVersion .http11)
    else
      let last ← Walk.read mem (finish - 1)
      if last = 48 then pure (true, request.setVersion .http10)
      else pure (false, request)

/-- `partOnRequestLine(start, end)` on memory. -/
def partOnRequestLineAt (mem : Nat → UInt8) (start finish : Nat) (request : HttpRequest) :
    Walk (Bool × HttpRequest) := do
  let space ← Walk.find mem start finish 32
  if space = finish then pure (false, request)
  else
    let word ← Walk.copy mem start space
    let (isMethod, request) := request.setMethod word
    if !isMethod then pure (false, request)
    else
      let begin := space + 1
      let space ← Walk.find mem begin finish 32
      if space = finish then pure (false, request)
      else
        let request ← targetAt mem start begin space request
        versionAt mem (space + 1) finish request

section Pointers

variable {mem : Nat → UInt8} {start finish begin space : Nat} {request : HttpRequest}
  {word target version line : Bytes}

/-- The line itself is what the walks see of the memory. -/
theorem within_noBlank (holds : Holds mem start line) (free : 32 ∉ line)
    (ends : finish = start + line.length) :
    Within start finish (partOnRequestLineAt mem start finish request)
      (HttpContext.partOnRequestLine request line) := by
  have nothing : HttpContext.partOnRequestLine request line = (false, request) := by
    simp [HttpContext.partOnRequestLine, List.idxOf_eq_length free]
  rw [nothing]
  apply Within.bind (within_find_none holds free ends)
  rw [if_pos rfl]
  exact Within.pure _

/-- The assignments of path and query. -/
theorem within_targetAt (holds : Holds mem begin target) (free : 63 ∉ word)
    (front : Holds mem start (word ++ [32])) (begins : begin = start + word.length + 1)
    (ends : space = begin + target.length) (le : space ≤ finish) :
    Within start finish (targetAt mem start begin space request)
      { request with
        path := target.takeWhile (· != 63)
        query := if 63 ∈ target then target.dropWhile (· != 63) else request.query } := by
  have before : (63 : UInt8) ∉ word ++ [32] := by simp [free]
  have upTo : begin = start + (word ++ [32]).length := by
    simp
    omega
  have whole : Holds mem start ((word ++ [32]) ++ target) :=
    holds_append.mpr ⟨front, upTo ▸ holds⟩
  by_cases mark : 63 ∈ target
  · obtain ⟨path, query, rfl, unmarked⟩ := List.eq_append_cons_of_mem mark
    obtain ⟨inPath, inQuery⟩ := holds_append.mp holds
    have found : Within start space (Walk.find mem start space 63) (begin + path.length) := by
      have question := @within_find _ mem 63 start space (word ++ [32] ++ path) query _
        (by simpa using whole) (by simp [free, unmarked]) (by simp at ends ⊢; omega)
      have place : start + (word ++ [32] ++ path).length = begin + path.length := by
        simp
        omega
      rwa [place] at question
    apply Within.bind (found.mono (Nat.le_refl _) le)
    rw [List.length_append, List.length_cons] at ends
    rw [if_pos (by omega), if_pos mark, (takeWhile_mark unmarked query).1,
      (takeWhile_mark unmarked query).2]
    apply Within.bind ((within_copy inPath rfl).mono (by omega) (by omega))
    apply Within.bind ((within_copy inQuery (by simp; omega)).mono (by omega) le)
    exact Within.pure _
  · have none : Within start space (Walk.find mem start space 63) space :=
      within_find_none whole (by simp [free, mark]) (by simp; omega)
    apply Within.bind (none.mono (Nat.le_refl _) le)
    rw [if_neg (not_not_intro rfl), if_neg mark, takeWhile_unmarked mark]
    apply Within.bind ((within_copy holds ends).mono (by omega) le)
    exact Within.pure _

theorem versionOf_digit {front : Bytes} (seven : front.length = 7) (digit : UInt8) :
    HttpContext.versionOf (front ++ [digit]) =
      if front = ascii "HTTP/1." then
        if digit = 49 then some .http11 else if digit = 48 then some .http10 else none
      else none := by
  have inFront : (front ++ [digit]).take 7 = front := List.take_left' seven
  have last : (front ++ [digit]).getLast? = some digit := List.getLast?_concat
  simp only [HttpContext.versionOf, inFront, last, List.length_append, seven, List.length_cons,
    List.length_nil, true_and, Option.some.injEq]

/-- The test of the length, the comparison and the two looks at the last byte. -/
theorem within_versionAt (holds : Holds mem begin version) (le : start ≤ begin)
    (ends : finish = begin + version.length) :
    Within start finish (versionAt mem begin finish request)
      (match HttpContext.versionOf version with
        | some v => (true, request.setVersion v)
        | none => (false, request)) := by
  unfold versionAt
  by_cases size : version.length = 8
  · have split : version.take 7 ++ version.drop 7 = version := List.take_append_drop 7 version
    have one : (version.drop 7).length = 1 := by rw [List.length_drop, size]
    obtain ⟨digit, behind⟩ := List.length_eq_one_iff.mp one
    have seven : (version.take 7).length = 7 := by simp [size]
    rw [behind] at split
    generalize version.take 7 = front at split seven
    subst split
    obtain ⟨inFront, inLast⟩ := holds_append.mp holds
    have place : begin + front.length = finish - 1 := by omega
    have lastByte : mem (finish - 1) = digit := place ▸ inLast.1
    have look : Within start finish (Walk.read mem (finish - 1)) digit := by
      have looked := @within_read _ mem (finish - 1)
      rw [lastByte] at looked
      exact looked.mono (by omega) (by omega)
    have compared : Within start finish (Walk.equal mem begin (finish - 1) (ascii "HTTP/1."))
        (decide (front = ascii "HTTP/1.")) :=
      (within_equal inFront (seven.trans rfl) place.symm).mono le (by omega)
    rw [if_pos (by omega), versionOf_digit seven]
    apply Within.bind compared
    by_cases same : front = ascii "HTTP/1."
    · simp only [same, decide_true, Bool.not_true, Bool.false_eq_true, if_false, if_true]
      apply Within.bind look
      by_cases eleven : digit = 49
      · simp only [eleven, if_true]
        exact Within.pure _
      · simp only [eleven, if_false]
        apply Within.bind look
        by_cases ten : digit = 48
        · simp only [ten, if_true]
          exact Within.pure _
        · simp only [ten, if_false]
          exact Within.pure _
    · simp only [same, decide_false, Bool.not_false, if_true, if_false]
      exact Within.pure _
  · have short : HttpContext.versionOf version = none := by
      simp [HttpContext.versionOf, size]
    rw [if_neg (by omega), short]
    apply Within.bind (Within.pure false)
    exact Within.pure _

/-- **The pointers stay in the line**, and the function computes what it does on it. -/
theorem within_partOnRequestLineAt (holds : Holds mem start line)
    (ends : finish = start + line.length) :
    Within start finish (partOnRequestLineAt mem start finish request)
      (HttpContext.partOnRequestLine request line) := by
  by_cases blank : 32 ∉ line
  · exact within_noBlank holds blank ends
  obtain ⟨word, rest, rfl, one⟩ := List.eq_append_cons_of_mem (not_not.mp blank)
  obtain ⟨inWord, inRest⟩ := holds_append.mp holds
  have behind : Holds mem (start + word.length + 1) rest := inRest.2
  have front : Holds mem start (word ++ [32]) := holds_append.mpr ⟨inWord, inRest.1, trivial⟩
  have size : (word ++ 32 :: rest).length = word.length + 1 + rest.length := by
    simp
    omega
  unfold partOnRequestLineAt
  apply Within.bind (within_find holds one ends)
  rw [if_neg (by omega)]
  apply Within.bind ((within_copy inWord rfl).mono (Nat.le_refl _) (by omega))
  have assigns : request.setMethod word = (HttpRequest.methodOf word != .invaild,
      { request with method := HttpRequest.methodOf word }) := rfl
  rw [assigns]
  dsimp only
  split
  · rename_i unknown
    have unknown : HttpRequest.methodOf word = .invaild := by simpa using unknown
    rw [partOnRequestLine_unknown one unknown, unknown]
    exact Within.pure _
  rename_i isMethod
  have known : HttpRequest.methodOf word ≠ .invaild := by simpa using isMethod
  by_cases second : 32 ∉ rest
  · apply Within.bind ((within_find_none behind second (by omega)).mono (by omega) (Nat.le_refl _))
    rw [if_pos rfl, partOnRequestLine_oneBlank one second]
    exact Within.pure _
  obtain ⟨target, version, rfl, two⟩ := List.eq_append_cons_of_mem (not_not.mp second)
  obtain ⟨inTarget, inVersion⟩ := holds_append.mp behind
  have free : 63 ∉ word := by
    rw [← text_methodOf known]
    exact (method_plain _).2.1
  have size' : (target ++ 32 :: version).length = target.length + 1 + version.length := by
    simp
    omega
  apply Within.bind ((within_find behind two (by omega)).mono (by omega) (Nat.le_refl _))
  rw [if_neg (by omega), partOnRequestLine_parts one two known]
  apply Within.bind (within_targetAt inTarget free front rfl rfl (by omega))
  exact within_versionAt inVersion.2 (by omega) (by omega)

end Pointers

/-- **The request line is parsed exactly.** On any range of memory no byte outside it
is read; the answer is `true` just for the lines of the grammar, each of which is one in
one way, and then the request is told what the line says. -/
theorem requestLine_exact (mem : Nat → UInt8) (start len : Nat) (request : HttpRequest) :
    let line := cells mem start len
    let parsed := partOnRequestLineAt mem start (start + len) request
    (∀ addr ∈ parsed.events, start ≤ addr ∧ addr < start + len) ∧
      ∃ right request', parsed.result = .ok (right, request') ∧
        (right = true ↔ ∃ l : RequestLine, l.text = line) ∧
        ∀ l : RequestLine, l.text = line →
          (∀ l' : RequestLine, l'.text = line → l' = l) ∧ request' = l.told request := by
  intro line parsed
  have holds : Holds mem start line := Walk.holds_cells mem start len
  have ends : start + len = start + line.length := by rw [Walk.length_cells]
  obtain ⟨result, reads⟩ := @within_partOnRequestLineAt mem start _ request line holds ends
  refine ⟨reads, (HttpContext.partOnRequestLine request line).1,
    (HttpContext.partOnRequestLine request line).2, result,
    ⟨RequestLine.text_of_accepted, ?_⟩, fun l text => ?_⟩
  · rintro ⟨l, text⟩
    rw [← text, l.partOnRequestLine_text]
  · refine ⟨fun l' text' => RequestLine.text_inj (text'.trans text.symm), ?_⟩
    rw [← text, l.partOnRequestLine_text]

end LaliRpc.Net
