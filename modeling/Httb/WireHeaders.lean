import Httb.ContentLength
import Httb.HeaderLoading

/-!
# The Headers on the Wire

`to_beast_request` sets the defaults for Host, User-Agent and Accept, and then every header of
the request, each by replacing the fields of its name (`src/request.cpp`). Nothing is lost
on the way, because no header operation ever stores two names that are equal up to case.

## Key Results

- `HeaderCall.distinctNames_run`: the names that a run of header operations leaves
- `wireFields_eq`: the fields of the message are those headers over the defaults
-/

namespace Httb

open Httb.Foundation

/-! ## Defaults -/

/-- The text that names library and version. -/
def userAgent [BuildConfig] : Str :=
  "httb/".toList ++ BuildConfig.httbVersion ++ " (boost ".toList ++ BuildConfig.boostVersion ++
    ")".toList

/-- What the message says under a name when the request does not. -/
def wireDefault [BuildConfig] (r : BaseRequest) (name : Str) : Option Str :=
  if sameField "Host".toList name then some r.host
  else if sameField "User-Agent".toList name then some userAgent
  else if sameField "Accept".toList name then some "*/*".toList
  else none

/-- A name is not the same as two different ones. -/
theorem sameField_of_other {a b n : Str} (h : sameField a n = true)
    (hab : sameField b a = false) : sameField b n = false := by
  rw [sameField, decide_eq_true_iff] at h
  rwa [sameField, ← h]

section Defaults

variable [Beast]

theorem fieldValues_set (fields : KvVector) (name value n : Str) :
    fieldValues (Beast.set fields name value) n =
      if sameField name n then [value] else fieldValues fields n := by
  split
  · rename_i h
    exact Beast.set_same fields name value n h
  · rename_i h
    exact Beast.set_other fields name value n (Bool.eq_false_iff.mpr h)

theorem fieldValues_defaultFields [BuildConfig] (r : BaseRequest) {n : Str}
    (hn : sameField "Content-Length".toList n = false) :
    fieldValues (defaultFields r) n = (wireDefault r n).toList := by
  simp only [defaultFields, fieldValues_set, hn, Bool.false_eq_true, if_false, wireDefault]
  -- at most one of the names is the same as `n`, so the order of setting does not matter
  by_cases haccept : sameField "Accept".toList n = true
  · rw [if_pos haccept, sameField_of_other haccept (by decide),
      sameField_of_other haccept (by decide), if_pos haccept]
    rfl
  · rw [if_neg haccept, if_neg haccept]
    by_cases hagent : sameField "User-Agent".toList n = true
    · rw [if_pos hagent, sameField_of_other hagent (by decide), if_pos hagent]
      rfl
    · rw [if_neg hagent, if_neg hagent]
      split <;> rfl

end Defaults

variable [Toolbox]

/-! ## Runs of header operations -/

/-- A call on a request that writes headers, its body among them. -/
inductive HeaderCall where
  | header (op : HeaderOp)
  | setRequestBody (body : RequestBody)

namespace HeaderCall

/-- What the code does. -/
def apply (r : BaseRequest) : HeaderCall → BaseRequest
  | .header op => { r with toIoContainer := op.apply r.toIoContainer }
  | .setRequestBody body => r.setRequestBody body

/-- A call leaves distinct names. A body that is built writes headers with the same calls. -/
theorem distinctNames_apply {r : BaseRequest} (h : DistinctNames r.headers) (call : HeaderCall) :
    DistinctNames (call.apply r).headers := by
  cases call with
  | header op => exact HeaderOp.distinctNames_apply h op
  | setRequestBody body =>
    obtain ⟨ops, hops⟩ := body.headers_build r.toIoContainer
    have hbuilt : DistinctNames (body.build r.toIoContainer).2.headers :=
      hops ▸ HeaderOp.distinctNames_foldl h ops
    exact HeaderOp.distinctNames_apply hbuilt (.setBody _)

/-- And so does a run. -/
theorem distinctNames_run {r : BaseRequest} (h : DistinctNames r.headers)
    (calls : List HeaderCall) : DistinctNames (calls.foldl apply r).headers := by
  induction calls generalizing r with
  | nil => exact h
  | cons call calls ih => exact ih (distinctNames_apply h call)

end HeaderCall

/-! ## Main result -/

section Message

variable [Beast] [BuildConfig]

/-- What the loop over the headers left is what the message shows, the length apart. -/
theorem fieldValues_toBeastRequest (r : BaseRequest) {n : Str}
    (hlength : sameField "Content-Length".toList n = false)
    (hencoding : sameField "Transfer-Encoding".toList n = false) :
    fieldValues r.toBeastRequest.fields n =
      fieldValues (setFields (defaultFields r) r.headers) n := by
  rw [BaseRequest.toBeastRequest]
  dsimp only
  split
  · rw [Beast.preparePayload_other _ _ hlength hencoding]
    rfl
  · rfl

/-- The fields of the message for a request with distinct names. -/
theorem fieldValues_of_distinctNames {r : BaseRequest} (h : DistinctNames r.headers) {n : Str}
    (hlength : sameField "Content-Length".toList n = false)
    (hencoding : sameField "Transfer-Encoding".toList n = false) :
    fieldValues r.toBeastRequest.fields n =
      if r.hasHeader n then [r.getHeaderValue n] else (wireDefault r n).toList := by
  obtain ⟨m, hm⟩ := IoContainer.exists_represents h
  rw [fieldValues_toBeastRequest r hlength hencoding, fieldValues_setFields hm,
    hasHeader_eq_contains hm, OrderedMap.contains_eq_isSome, getHeaderValue_eq_value hm]
  cases m.value (toLowerCase n) with
  | some value => rfl
  | none => exact fieldValues_defaultFields r hlength

/-- **The message carries the headers of the request over the defaults**: under each name but
those of the framing one field with the value of the request if it has one, else the default
if there is one, else no field. -/
theorem wireFields_eq [BoostRegex] (init : RequestInit) (calls : List HeaderCall) {n : Str}
    (hlength : sameField "Content-Length".toList n = false)
    (hencoding : sameField "Transfer-Encoding".toList n = false) :
    let r := calls.foldl HeaderCall.apply init.request
    fieldValues r.toBeastRequest.fields n =
      if r.hasHeader n then [r.getHeaderValue n] else (wireDefault r n).toList := by
  intro r
  have hempty : DistinctNames init.request.headers := by
    rw [toIoContainer_request]
    exact .nil
  exact fieldValues_of_distinctNames (HeaderCall.distinctNames_run hempty calls) hlength hencoding

end Message

omit [Toolbox] in
/-- A header over a default, and a default that stays. -/
theorem wireFields_eq_accept_host :
    letI := Toolbox.reference
    letI := BoostRegex.reference
    letI := Beast.reference
    letI := BuildConfig.unversioned
    let calls : List HeaderCall :=
      [.header (.addHeader "ACCEPT".toList "a".toList),
        .header (.setHeader ("Accept".toList, "b".toList)), .header (.setBody "x".toList)]
    let r := calls.foldl HeaderCall.apply (RequestInit.ofUrl "http://h/".toList).request
    fieldValues r.toBeastRequest.fields "Accept".toList = ["b".toList] ∧
      fieldValues r.toBeastRequest.fields "Host".toList = ["h".toList] := by
  let := Toolbox.reference
  let := BoostRegex.reference
  let := Beast.reference
  let := BuildConfig.unversioned
  constructor
  · exact (wireFields_eq _ _ (by decide) (by decide)).trans (by decide)
  · exact (wireFields_eq _ _ (by decide) (by decide)).trans (by decide)

end Httb
