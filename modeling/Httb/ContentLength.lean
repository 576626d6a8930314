import Httb.Foundation.Runs
import Httb.Url
import Httb.Wire

/-!
# The Length of a Request

The length of a request's body is kept in three places: the body, a stored Content-Length
header, and the defaults of `to_beast_request`. Every operation but one keeps them in step;
`clear_body` empties the body and leaves the header as it is.

## Architecture

- `RequestOp`: the operations on a request that leave the framing headers to the library
- `LengthKept`: the header store has no length, or the one of the body
- `lengthKept_step` (one operation), `contentLength_always_iff` (a run)
-/

namespace Httb

open Httb.Foundation

section Model

variable [Toolbox] [BoostRegex]

/-- The constructors of `request`. -/
inductive RequestInit where
  | default
  | ofUrl (url : Str)
  | ofUrlPort (url : Str) (port : UInt16)
  | ofUrlMethod (url : Str) (method : Verb)

/-- The request that is constructed. -/
def RequestInit.request : RequestInit → BaseRequest
  | .default => {}
  | .ofUrl url => .ofUrl url
  | .ofUrlPort url port => .ofUrlPort url port
  | .ofUrlMethod url method => .ofUrlMethod url method

/-- The name is Content-Length or Transfer-Encoding, in any case. -/
def isFramingName (name : Str) : Bool :=
  equalsIcase name "Content-Length".toList || equalsIcase name "Transfer-Encoding".toList

/-- The operation adds headers, and no framing header. -/
def HeaderOp.keepsFraming : HeaderOp → Bool
  | .setBody _ => false
  | .clearHeaders => false
  | op => op.writes.all fun w => !isFramingName w.1

/-- An addition of headers that are not framing headers. -/
structure HeaderAddition where
  op : HeaderOp
  keepsFraming : op.keepsFraming = true

/-- An operation on a request. Adding a parameter with a number is adding one with its
text. -/
inductive RequestOp where
  | setBody (body : Str)
  | setRequestBody (body : RequestBody)
  | clearBody
  | clearHeaders
  | addHeaders (addition : HeaderAddition)
  | parseUrl (url : Str)
  | setMethod (method : Verb)
  | setHost (hostname : Str)
  | setPort (portNumber : UInt16)
  | setProtoName (protocolName : Str)
  | useSsl (use : Bool)
  | setPath (path : Str)
  | addPath (path : Str)
  | parseQuery (queryString : Str)
  | addQuery (keyValue : Kv)
  | setQuery (key value : Str) (icase : Bool)
  | removeQuery (key : Str) (icase : Bool)
  | removeQueryArray (key : Str) (index : UInt64) (icase : Bool)
  | clearQueries

/-- What the code does. -/
def RequestOp.apply (r : BaseRequest) : RequestOp → BaseRequest
  | .setBody body => r.setBody body
  | .setRequestBody body => r.setRequestBody body
  | .clearBody => { r with toIoContainer := r.toIoContainer.clearBody }
  | .clearHeaders => { r with toIoContainer := r.toIoContainer.clearHeaders }
  | .addHeaders addition => { r with toIoContainer := addition.op.apply r.toIoContainer }
  | .parseUrl url => r.parseUrl url
  | .setMethod method => r.setMethod method
  | .setHost hostname => r.setHost hostname
  | .setPort portNumber => r.setPort portNumber
  | .setProtoName protocolName => r.setProtoName protocolName
  | .useSsl use => r.useSsl use
  | .setPath path => r.setPath path
  | .addPath path => r.addPath path
  | .parseQuery queryString => r.parseQuery queryString
  | .addQuery keyValue => r.addQuery keyValue
  | .setQuery key value icase => r.setQuery key value icase
  | .removeQuery key icase => (r.removeQuery key icase).1
  | .removeQueryArray key index icase => (r.removeQueryArray key index icase).1
  | .clearQueries => r.clearQueries

/-- The states that a run of operations leads through. -/
abbrev requestTrace (r : BaseRequest) (ops : List RequestOp) : List (RequestOp × BaseRequest) :=
  traceOf RequestOp.apply r ops

/-- The message carries one Content-Length, and it is the length of its body. -/
def WireLength [Beast] [BuildConfig] (r : BaseRequest) : Prop :=
  fieldValues r.toBeastRequest.fields "Content-Length".toList =
    [decimal r.toBeastRequest.body.length]

instance [Beast] [BuildConfig] (r : BaseRequest) : Decidable (WireLength r) := by
  unfold WireLength
  infer_instance

/-- `clear_body` is called on an empty body, or on a request without a stored length. -/
def ClearsSafely (r : BaseRequest) : RequestOp → Prop
  | .clearBody => r.body = [] ∨ r.hasHeader "Content-Length".toList = false
  | _ => True

end Model

/-! ## Operations on the URL -/

section UrlOperations

theorem toIoContainer_setPath (r : BaseRequest) (path : Str) :
    (r.setPath path).toIoContainer = r.toIoContainer := by
  unfold BaseRequest.setPath
  dsimp only
  split_ifs <;> rfl

theorem toIoContainer_addPath (r : BaseRequest) (path : Str) :
    (r.addPath path).toIoContainer = r.toIoContainer := by
  unfold BaseRequest.addPath
  dsimp only
  split_ifs <;> rfl

variable [Toolbox]

theorem toIoContainer_parseQuery (r : BaseRequest) (queryString : Str) :
    (r.parseQuery queryString).toIoContainer = r.toIoContainer := by
  rw [BaseRequest.parseQuery]
  generalize splitStr _ _ = pairs
  induction pairs generalizing r with
  | nil => rfl
  | cons pair pairs ih => exact ih (r.addQuery _)

variable [BoostRegex]

theorem toIoContainer_parseUrl (r : BaseRequest) (url : Str) :
    (r.parseUrl url).toIoContainer = r.toIoContainer := by
  cases h : matchesPattern urlParseRegex url with
  | true => rw [BaseRequest.parseUrl_of_matches h]
  | false => rw [BaseRequest.parseUrl_of_not_matches h]

/-- A constructed request has neither headers nor a body. -/
theorem toIoContainer_request (init : RequestInit) : init.request.toIoContainer = {} := by
  cases init with
  | default => rfl
  | ofUrl url => exact toIoContainer_parseUrl _ url
  | ofUrlPort url port => exact toIoContainer_parseUrl _ url
  | ofUrlMethod url method => exact toIoContainer_parseUrl _ url

end UrlOperations

/-! ## The invariant -/

section Invariant

variable [Toolbox]

/-- The stored headers are an ordered map, which has no length or the one of the body. -/
def LengthKept (c : IoContainer) : Prop :=
  ∃ m, Represents toLowerCase c.headers m ∧
    ∀ value, m.value (toLowerCase "Content-Length".toList) = some value →
      value = decimal c.body.length

theorem lengthKept_empty : LengthKept {} := ⟨OrderedMap.empty, Represents.nil, by simp⟩

/-- Setting a body stores its length, whatever was stored before. -/
theorem lengthKept_setBody {c : IoContainer} {m : OrderedMap Str Str}
    (h : Represents toLowerCase c.headers m) (data : Str) : LengthKept (c.setBody data) := by
  refine ⟨_, HeaderOp.represents_apply h (.setBody data), fun value hvalue => ?_⟩
  have hmeaning : HeaderOp.meaning m (.setBody data) =
      m.insert (toLowerCase "Content-Length".toList) (decimal data.length) := rfl
  rw [hmeaning, OrderedMap.value_insert_self] at hvalue
  rw [IoContainer.body_setBody, ← Option.some.inj hvalue]

/-- Header additions write under other names, and leave the body alone. -/
theorem additions_of_keepsFraming {op : HeaderOp} (hop : op.keepsFraming = true)
    (c : IoContainer) (m : OrderedMap Str Str) :
    op.meaning m = m.insertAll (op.writes.map HeaderOp.keyed) ∧ (op.apply c).body = c.body ∧
      op.writes.all (fun w => !isFramingName w.1) = true := by
  cases op with
  | setHeader kv => exact ⟨rfl, IoContainer.body_setHeader c kv, hop⟩
  | addHeader name value => exact ⟨rfl, IoContainer.body_addHeader c name value, hop⟩
  | addHeaderCopy kv => exact ⟨rfl, IoContainer.body_addHeader c kv.1 kv.2, hop⟩
  | addHeaderMove kv => exact ⟨rfl, IoContainer.body_addHeaderMove c kv, hop⟩
  | addHeaders values => exact ⟨rfl, IoContainer.body_foldl_addHeader values c, hop⟩
  | setHeadersMap map => exact ⟨rfl, IoContainer.body_foldl_addHeader map.entries c, hop⟩
  | setHeadersMultimap mmp => exact ⟨rfl, IoContainer.body_foldl_addHeader mmp.entries c, hop⟩
  | setBody data => cases hop
  | clearHeaders => cases hop

/-- Header additions keep the lengths in step. -/
theorem lengthKept_apply {c : IoContainer} (h : LengthKept c) {op : HeaderOp}
    (hop : op.keepsFraming = true) : LengthKept (op.apply c) := by
  obtain ⟨m, hm, hlength⟩ := h
  obtain ⟨hmeaning, hbody, hwrites⟩ := additions_of_keepsFraming hop c m
  refine ⟨_, HeaderOp.represents_apply hm op, fun value hvalue => ?_⟩
  rw [hmeaning, OrderedMap.value_insertAll_of_forall_ne] at hvalue
  · rw [hbody]
    exact hlength value hvalue
  · -- a write under this name would be one of a framing header
    intro w hw heq
    obtain ⟨w', hw', rfl⟩ := List.mem_map.mp hw
    have hname := List.all_eq_true.mp hwrites w' hw'
    have hlower : toLowerCase w'.1 = toLowerCase "Content-Length".toList := heq
    rw [isFramingName, equalsIcase_eq_decide, decide_eq_true hlower] at hname
    cases hname

end Invariant

/-! ## Operations and runs -/

section Runs

variable [Toolbox] [BoostRegex] {r : BaseRequest}

/-- Each operation keeps the lengths in step, if it clears safely. -/
theorem lengthKept_step (h : LengthKept r.toIoContainer) {op : RequestOp}
    (hop : ClearsSafely r op) : LengthKept (op.apply r).toIoContainer := by
  obtain ⟨m, hm, hlength⟩ := h
  cases op with
  | setBody body => exact lengthKept_setBody hm body
  | setRequestBody body =>
    -- building may write headers; the length is set after it
    obtain ⟨ops, hbuilt⟩ := body.headers_build r.toIoContainer
    have hm' := HeaderOp.represents_foldl hm ops
    rw [← hbuilt] at hm'
    exact lengthKept_setBody hm' _
  | clearBody =>
    refine ⟨m, hm, fun value hvalue => ?_⟩
    -- safely: the stored length is already the one of the empty body, or there is none
    rcases hop with hbody | hheader
    · rw [hlength value hvalue, hbody]
      rfl
    · rw [hasHeader_eq_contains hm, OrderedMap.contains_eq_isSome, hvalue] at hheader
      cases hheader
  | clearHeaders => exact ⟨OrderedMap.empty, Represents.nil, by simp⟩
  | addHeaders addition => exact lengthKept_apply ⟨m, hm, hlength⟩ addition.keepsFraming
  | parseUrl url => exact toIoContainer_parseUrl r url ▸ ⟨m, hm, hlength⟩
  | setPath path => exact toIoContainer_setPath r path ▸ ⟨m, hm, hlength⟩
  | addPath path => exact toIoContainer_addPath r path ▸ ⟨m, hm, hlength⟩
  | parseQuery queryString => exact toIoContainer_parseQuery r queryString ▸ ⟨m, hm, hlength⟩
  | _ => exact ⟨m, hm, hlength⟩

variable [Beast] [BuildConfig]

omit [BoostRegex] in
/-- While the lengths are in step, the message says what its body is. -/
theorem wireLength_of_lengthKept (h : LengthKept r.toIoContainer) : WireLength r := by
  obtain ⟨m, hm, hlength⟩ := h
  obtain ⟨hbody, hfields⟩ := contentLength_toBeastRequest hm
  rw [WireLength, hfields, hbody]
  split
  · rename_i hempty
    cases hvalue : m.value (toLowerCase "Content-Length".toList) with
    | none => rw [hempty]; rfl
    | some value => rw [hlength value hvalue]; rfl
  · rfl

/-- An unsafe `clear_body` leaves the length of the body that is gone. -/
theorem not_wireLength_of_clearBody (h : LengthKept r.toIoContainer) {op : RequestOp}
    (hop : ¬ ClearsSafely r op) : ¬ WireLength (op.apply r) := by
  obtain ⟨m, hm, hlength⟩ := h
  cases op with
  | clearBody =>
    rw [ClearsSafely, not_or] at hop
    obtain ⟨hne, hheader⟩ := hop
    rw [hasHeader_eq_contains hm, OrderedMap.contains_eq_isSome, Bool.not_eq_false,
      Option.isSome_iff_exists] at hheader
    obtain ⟨value, hvalue⟩ := hheader
    have hm' : Represents toLowerCase (RequestOp.apply r .clearBody).headers m := hm
    obtain ⟨hbody, hfields⟩ := contentLength_toBeastRequest hm'
    have hempty : (RequestOp.apply r .clearBody).body = [] := rfl
    rw [WireLength, hfields, hbody, if_pos hempty, hempty, hvalue, hlength value hvalue]
    -- the stored length is the one of the body that was cleared
    intro heq
    exact hne (List.length_eq_zero_iff.mp (decimal_injective (List.singleton_inj.mp heq)))
  | _ => exact absurd trivial hop

/-- **Content-Length on the wire, exactly.** Along any run of operations on a constructed
request, in every state the message carries one Content-Length with the length of its body
if and only if every `clear_body` of the run clears safely. -/
theorem contentLength_always_iff (init : RequestInit) (ops : List RequestOp) :
    Always WireLength init.request (requestTrace init.request ops) ↔
      Guarded ClearsSafely init.request (requestTrace init.request ops) := by
  have hstart : LengthKept init.request.toIoContainer := by
    rw [toIoContainer_request]
    exact lengthKept_empty
  refine (run_traceOf RequestOp.apply init.request ops).always_iff_guarded hstart
    (fun r h => wireLength_of_lengthKept h) ?_ ?_
  · rintro r op _ h hop rfl
    exact lengthKept_step h hop
  · rintro r op _ h hop rfl
    exact not_wireLength_of_clearBody h hop

end Runs

/-- Version texts. -/
@[reducible] def BuildConfig.unversioned : BuildConfig := ⟨[], []⟩

/-- After `set_body("hello")` and `clear_body()` the message has an empty body and says
that five bytes follow. -/
theorem contentLength_after_clearBody :
    letI := Toolbox.reference
    letI := BoostRegex.reference
    letI := Beast.reference
    letI := BuildConfig.unversioned
    let ops : List RequestOp := [.setBody "hello".toList, .clearBody]
    let r := ops.foldl RequestOp.apply (RequestInit.ofUrl "http://h/".toList).request
    r.toBeastRequest.body = [] ∧
      fieldValues r.toBeastRequest.fields "Content-Length".toList = ["5".toList] ∧
      ¬ Always WireLength (RequestInit.ofUrl "http://h/".toList).request
        (requestTrace (RequestInit.ofUrl "http://h/".toList).request ops) := by
  let := Toolbox.reference
  let := BoostRegex.reference
  let := Beast.reference
  let := BuildConfig.unversioned
  refine ⟨by decide, by decide, fun h => ?_⟩
  have hlast : WireLength _ := h.2.2
  exact absurd hlast (by decide)

end Httb
