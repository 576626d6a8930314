import Httb.Foundation.HashTable
import Httb.Foundation.Multimap
import Httb.FormBody
import Httb.RedirectTrail
import Httb.RequestComponents

/-!
# Posted Forms

A form body on its whole way. Pairs, arrays and maps are added to it
(`src/body_form_urlencoded.cpp`), `request::set_body` builds it into a request that other calls
are made on before and after, `to_beast_request` makes a message of it, and the text of the
message is read by `parse_form_url_encode` (`src/response.cpp`). To its two ends a form is a
multimap: the reader finds under each name the values that were added under it, in order.

`add_params` takes hash maps, too, and adds their entries as it comes to them. Each name has one
value in such a map, so the reader cannot tell in which order that was.

## Main facts

- `filed_params_apply`: one call; `filed_params_foldl`: a run of calls
- `form_arrives`: the whole way
-/

namespace Httb

open Httb.Foundation

/-! ## Calls on a form -/

/-- `std::unordered_map<std::string, std::string>`, over the numbers of `std::hash`. -/
abbrev StringTable (hash : Str → ℕ) := HashTable (plainHashing hash) Str

variable {hash : Str → ℕ}

/-- A call on a form. -/
inductive FormCall (hash : Str → ℕ) where
  | addParam (param : Kv)
  | addParamValues (name : Str) (values : List Str)
  /-- A vector, or a map that is iterated in this order. -/
  | addParams (append : KvVector)
  | addParamsTable (map : StringTable hash)

namespace FormCall

/-- What the code does. -/
def apply (b : BodyFormUrlencoded) : FormCall hash → BodyFormUrlencoded
  | .addParam param => b.addParam param
  | .addParamValues name values => b.addParamValues name values
  | .addParams append => b.addParams append
  | .addParamsTable map => b.addParams map.toList

/-- The pairs that a call adds. -/
def written : FormCall hash → KvVector
  | .addParam param => [param]
  | .addParamValues name values => values.map fun value => (name ++ "[]".toList, value)
  | .addParams append => append
  | .addParamsTable map => map.toList

/-- What a call means for the multimap. -/
def meaning (m : Multimap Str Str) : FormCall hash → Multimap Str Str
  | .addParam param => m.addUnder param.1 [param.2]
  | .addParamValues name values => m.addUnder (name ++ "[]".toList) values
  | .addParams append => append.foldl (fun m param => m.addUnder param.1 [param.2]) m
  | .addParamsTable map => m.addAll fun name => (map.lookup name).toList

end FormCall

namespace BodyFormUrlencoded

theorem params_addParams (b : BodyFormUrlencoded) (append : KvVector) :
    (b.addParams append).params = b.params ++ append := by
  rw [addParams]
  induction append generalizing b with
  | nil => simp
  | cons param append ih =>
    rw [List.foldl_cons, ih, addParam, List.append_assoc, List.singleton_append]

/-- An array is added as pairs under its name with brackets. -/
theorem addParamValues_eq_addParams (b : BodyFormUrlencoded) (name : Str) (values : List Str) :
    b.addParamValues name values =
      b.addParams (values.map fun value => (name ++ "[]".toList, value)) := by
  rw [addParamValues, addParams, List.foldl_map]

end BodyFormUrlencoded

namespace FormCall

theorem params_apply (b : BodyFormUrlencoded) (call : FormCall hash) :
    (call.apply b).params = b.params ++ call.written := by
  cases call with
  | addParam param => rfl
  | addParamValues name values =>
    rw [apply, BodyFormUrlencoded.addParamValues_eq_addParams, BodyFormUrlencoded.params_addParams]
    rfl
  | addParams append => exact b.params_addParams append
  | addParamsTable map => exact b.params_addParams map.toList

/-- The pairs that a call adds, as a multimap. -/
theorem addAll_written (m : Multimap Str Str) (call : FormCall hash) :
    m.addAll (filed id call.written) = call.meaning m := by
  cases call with
  | addParam param => exact addAll_filed_map id m param.1 [param.2]
  | addParamValues name values => exact addAll_filed_map id m (name ++ "[]".toList) values
  | addParams append =>
    -- the pairs of a vector are added one by one
    rw [written, meaning]
    induction append generalizing m with
    | nil => exact funext fun name => List.append_nil (m name)
    | cons param append ih =>
      have hfirst := addAll_filed_map id m param.1 [param.2]
      rw [List.foldl_cons, ← List.singleton_append, filed_append, ← ih]
      change _ = Multimap.addAll (m.addUnder (id param.1) [param.2]) _
      rw [← hfirst]
      exact funext fun name => (List.append_assoc _ _ _).symm
  | addParamsTable map =>
    -- a hash map has one entry for a name, so its order does not show
    have hfiled : filed id map.toList = fun name => (map.lookup name).toList := by
      funext name
      rw [← map.filter_toList name]
      rfl
    rw [written, hfiled]
    rfl

/-- One call on the form is one call on the multimap. -/
theorem filed_params_apply (b : BodyFormUrlencoded) (call : FormCall hash) :
    filed id (call.apply b).params = call.meaning (filed id b.params) := by
  rw [params_apply, filed_append, addAll_written]

theorem filed_params_foldl (calls : List (FormCall hash)) (b : BodyFormUrlencoded) :
    filed id (calls.foldl apply b).params = calls.foldl meaning (filed id b.params) := by
  induction calls generalizing b with
  | nil => rfl
  | cons call calls ih => rw [List.foldl_cons, List.foldl_cons, ih, filed_params_apply]

end FormCall

/-! ## What can be read back -/

theorem printable_foldl_apply {calls : List (FormCall hash)}
    (hcalls : ∀ call ∈ calls, Printable call.written) {b : BodyFormUrlencoded}
    (h : Printable b.params) : Printable (calls.foldl FormCall.apply b).params := by
  induction calls generalizing b with
  | nil => exact h
  | cons call calls ih =>
    obtain ⟨hcall, hrest⟩ := List.forall_mem_cons.mp hcalls
    refine ih hrest ?_
    rw [call.params_apply]
    exact h.append hcall

/-! ## The body of the request -/

variable [Toolbox]

theorem HeaderOp.body_apply {op : HeaderOp} (h : ∀ data, op ≠ .setBody data) (c : IoContainer) :
    (op.apply c).body = c.body := by
  cases op with
  | setHeader keyValue => exact IoContainer.body_setHeader c keyValue
  | addHeader name value => exact IoContainer.body_addHeader c name value
  | addHeaderCopy kv => exact IoContainer.body_addHeader c kv.1 kv.2
  | addHeaderMove kv => exact IoContainer.body_addHeaderMove c kv
  | addHeaders values => exact IoContainer.body_foldl_addHeader values c
  | setHeadersMap map => exact IoContainer.body_foldl_addHeader map.entries c
  | setHeadersMultimap mmp => exact IoContainer.body_foldl_addHeader mmp.entries c
  | setBody data => exact absurd rfl (h data)
  | clearHeaders => rfl

variable [BoostRegex]

/-- The call leaves the body alone. -/
def RequestCall.keepsBody : RequestCall → Bool
  | .header (.setBody _) => false
  | .of (.setBody _) => false
  | .of (.setRequestBody _) => false
  | .of .clearBody => false
  | _ => true

theorem RequestCall.body_apply {call : RequestCall} (h : call.keepsBody = true) (r : BaseRequest) :
    (call.apply r).body = r.body := by
  have huntouched (htouches : call.touchesContainer = false) :
      (call.apply r).body = r.body :=
    congrArg IoContainer.body (container.get_of_not_touches r htouches)
  cases call with
  | header op =>
    refine HeaderOp.body_apply (fun data heq => ?_) r.toIoContainer
    rw [heq] at h
    cases h
  | of op =>
    cases op with
    | setBody _ | setRequestBody _ | clearBody => cases h
    | clearHeaders => rfl
    | addHeaders addition =>
      refine HeaderOp.body_apply (fun data heq => ?_) r.toIoContainer
      have hkeeps := addition.keepsFraming
      rw [heq] at hkeeps
      cases hkeeps
    | _ => exact huntouched rfl

theorem RequestCall.body_run {calls : List RequestCall}
    (hcalls : ∀ call ∈ calls, call.keepsBody = true) (r : BaseRequest) :
    (RequestCall.run calls r).body = r.body := by
  induction calls generalizing r with
  | nil => rfl
  | cons call calls ih =>
    obtain ⟨hcall, hrest⟩ := List.forall_mem_cons.mp hcalls
    exact (ih hrest (call.apply r)).trans (body_apply hcall r)

/-! ## The whole way -/

omit [BoostRegex] in
/-- The reader of a message has its text alone. -/
def readForm (message : BeastRequest) : KvVector :=
  (({} : Response).setBody message.body).parseFormUrlEncode

/-- **A posted form arrives as the multimap that it is.** Whatever is added to the form and in
whatever ways, whatever the request went through before the form was set, and whatever calls
follow that leave the body alone, the reader of the message finds under every name the values
that the calls gave it, in their order; of a hash map he sees what it maps to what. -/
theorem form_arrives [Beast] [BuildConfig] (init : RequestInit) (before : List RequestCall)
    {after : List RequestCall} {form : BodyFormUrlencoded} {calls : List (FormCall hash)}
    (hform : Printable form.params) (hcalls : ∀ call ∈ calls, Printable call.written)
    (hafter : ∀ call ∈ after, call.keepsBody = true) :
    let r := (RequestCall.run before init.request).setRequestBody
      (calls.foldl FormCall.apply form).toRequestBody
    filed id (readForm (RequestCall.run after r).toBeastRequest) =
      calls.foldl FormCall.meaning (filed id form.params) := by
  intro r
  have hbody : r.body = (calls.foldl FormCall.apply form).build := IoContainer.body_setBody _ _
  rw [readForm, body_toBeastRequest, RequestCall.body_run hafter, hbody,
    BodyFormUrlencoded.parseFormUrlEncode_eq, Response.setBody, BodyFormUrlencoded.build_eq,
    queryParams_paramsText (printable_foldl_apply hcalls hform)]
  exact FormCall.filed_params_foldl calls form

omit [Toolbox] [BoostRegex] in
/-- An array, a name that is given again, and a map, in a request that is given a header
afterwards. -/
theorem form_arrives_array :
    letI := Toolbox.reference
    letI := BoostRegex.reference
    letI := Beast.reference
    letI : BuildConfig := ⟨[], []⟩
    let map : StringTable List.length := (HashTable.empty 0).insert ("b".toList, "4".toList)
    let calls := [.addParamValues "a".toList ["1".toList, "2".toList],
      .addParam ("a[]".toList, "3".toList), .addParamsTable map]
    let r := (RequestCall.run [] (RequestInit.request .default)).setRequestBody
      (calls.foldl FormCall.apply {}).toRequestBody
    let message := (RequestCall.run
      [.header (.addHeader "X".toList "y".toList)] r).toBeastRequest
    filed id (readForm message) "a[]".toList = ["1".toList, "2".toList, "3".toList] ∧
      filed id (readForm message) "b".toList = ["4".toList] := by
  let := Toolbox.reference
  let := BoostRegex.reference
  let := Beast.reference
  let : BuildConfig := ⟨[], []⟩
  intro map calls r message
  have hcalls : ∀ call ∈ calls, Printable call.written := by
    simp only [calls, List.forall_mem_cons, List.not_mem_nil, false_implies, implies_true,
      and_true]
    exact ⟨⟨by decide, by decide⟩, ⟨by decide, by decide⟩, ⟨by decide, by decide⟩⟩
  have hform : Printable ({} : BodyFormUrlencoded).params := ⟨by simp, by simp⟩
  have hafter : ∀ call ∈ [RequestCall.header (.addHeader "X".toList "y".toList)],
      call.keepsBody = true := List.forall_mem_singleton.mpr rfl
  have harrives := form_arrives .default [] hform hcalls hafter
  exact ⟨(congrFun harrives _).trans (by decide), (congrFun harrives _).trans (by decide)⟩

end Httb
