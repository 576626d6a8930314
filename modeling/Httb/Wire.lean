import Httb.RequestBody

/-!
# The Message on the Wire

`request::to_beast_request` (`src/request.cpp`). The message type is Beast's: how its fields
are stored is a parameter, and what is documented about setting a field and about
`prepare_payload` are laws.

## Main facts

- `fieldValues_setFields`: the loop over the headers leaves for each name the value of the
  header store, and the default where the store has none
- `contentLength_toBeastRequest`: what the message says about its length
-/

namespace Httb

open Httb.Foundation

/-! ## Messages -/

/-- What httb uses of `http::request<http::string_body>`. -/
structure BeastRequest where
  method : Verb
  target : Str
  version : ℕ
  fields : KvVector := []
  body : Str := []

/-- Two field names are the same for Beast. -/
def sameField (a b : Str) : Bool := decide (a.map tolower = b.map tolower)

/-- The values of the fields with a name, in order. -/
def fieldValues (fields : KvVector) (name : Str) : List Str :=
  (fields.filter fun field => sameField field.1 name).map Prod.snd

/-- Boost.Beast, as far as `to_beast_request` uses it. -/
class Beast where
  set : KvVector → Str → Str → KvVector
  preparePayload : BeastRequest → BeastRequest
  /-- A field that is set replaces every field of its name. -/
  set_same : ∀ fields name value n, sameField name n = true →
    fieldValues (set fields name value) n = [value]
  set_other : ∀ fields name value n, sameField name n = false →
    fieldValues (set fields name value) n = fieldValues fields n
  /-- The length of a body that is there is written down. -/
  preparePayload_length : ∀ req, req.body ≠ [] →
    fieldValues (preparePayload req).fields "Content-Length".toList = [decimal req.body.length]
  preparePayload_other : ∀ req n, sameField "Content-Length".toList n = false →
    sameField "Transfer-Encoding".toList n = false →
      fieldValues (preparePayload req).fields n = fieldValues req.fields n
  preparePayload_eq : ∀ req, preparePayload req =
    { req with fields := (preparePayload req).fields }

/-- The texts of the build configuration that the user agent names. -/
class BuildConfig where
  httbVersion : Str
  boostVersion : Str

/-- Setting a field by removing the ones of its name. -/
def setByRemoval (fields : KvVector) (name value : Str) : KvVector :=
  (fields.filter fun field => !sameField field.1 name) ++ [(name, value)]

theorem fieldValues_setByRemoval_same (fields : KvVector) {name n : Str} (value : Str)
    (h : sameField name n = true) : fieldValues (setByRemoval fields name value) n = [value] := by
  have hname : name.map tolower = n.map tolower := by simpa [sameField] using h
  have hnone : (fields.filter fun field => !sameField field.1 name).filter
      (fun field => sameField field.1 n) = [] := by
    rw [List.filter_filter, List.filter_eq_nil_iff]
    intro field _
    simp [sameField, hname]
  rw [fieldValues, setByRemoval, List.filter_append, hnone]
  simp [h]

theorem fieldValues_setByRemoval_other (fields : KvVector) {name n : Str} (value : Str)
    (h : sameField name n = false) :
    fieldValues (setByRemoval fields name value) n = fieldValues fields n := by
  have hname : ¬ name.map tolower = n.map tolower := by simpa [sameField] using h
  have hall : (fields.filter fun field => !sameField field.1 name).filter
      (fun field => sameField field.1 n) = fields.filter fun field => sameField field.1 n := by
    rw [List.filter_filter]
    apply List.filter_congr
    intro field _
    by_cases hf : field.1.map tolower = n.map tolower
    · have hne : ¬ n.map tolower = name.map tolower := fun heq => hname heq.symm
      simp [sameField, hf, hne]
    · simp [sameField, hf]
  rw [fieldValues, setByRemoval, List.filter_append, hall]
  simp [h, fieldValues]

/-- A Beast that does what the documentation says. -/
@[reducible] def Beast.reference : Beast where
  set := setByRemoval
  preparePayload req :=
    { req with
      fields := setByRemoval req.fields "Content-Length".toList (decimal req.body.length) }
  set_same fields _ value _ h := fieldValues_setByRemoval_same fields value h
  set_other fields _ value _ h := fieldValues_setByRemoval_other fields value h
  preparePayload_length req _ := fieldValues_setByRemoval_same req.fields _ (by decide)
  preparePayload_other req _ h _ := fieldValues_setByRemoval_other req.fields _ h
  preparePayload_eq _ := rfl

/-! ## to_beast_request -/

section Building

variable [Toolbox] [Beast] [BuildConfig]

/-- The fields that `to_beast_request` sets before the headers. -/
def defaultFields (r : BaseRequest) : KvVector :=
  let fields := Beast.set [] "Host".toList r.host
  let fields := Beast.set fields "User-Agent".toList
    ("httb/".toList ++ BuildConfig.httbVersion ++ " (boost ".toList ++ BuildConfig.boostVersion ++
      ")".toList)
  let fields := Beast.set fields "Accept".toList "*/*".toList
  Beast.set fields "Content-Length".toList "0".toList

/-- The loop of `to_beast_request` over the headers. -/
def setFields (fields : KvVector) (headers : KvVector) : KvVector :=
  headers.foldl (fun fields field => Beast.set fields field.1 field.2) fields

/-- `request::to_beast_request`. -/
def BaseRequest.toBeastRequest (r : BaseRequest) : BeastRequest :=
  let req : BeastRequest :=
    { method := r.method, target := r.getPathWithQuery, version := 11 }
  let req := { req with fields := defaultFields r }
  let req := { req with fields := setFields req.fields r.getHeaders }
  -- an empty body is not prepared: what the fields say about the length stays
  if r.hasBody then
    let req := { req with body := r.getBody }
    Beast.preparePayload req
  else req

end Building

/-! ## What the loop leaves -/

section Loop

variable [Toolbox] [Beast]

omit [Beast] in
/-- Beast and toolbox compare names alike. -/
theorem sameField_eq_decide (a b : Str) :
    sameField a b = decide (toLowerCase a = toLowerCase b) := by
  rw [sameField, Toolbox.toLowerCase_eq, Toolbox.toLowerCase_eq]

omit [Toolbox] in
theorem fieldValues_setFields_of_none {headers : KvVector} {n : Str}
    (h : ∀ header ∈ headers, sameField header.1 n = false) (fields : KvVector) :
    fieldValues (setFields fields headers) n = fieldValues fields n := by
  induction headers generalizing fields with
  | nil => rfl
  | cons header headers ih =>
    rw [setFields, List.foldl_cons]
    exact (ih (fun x hx => h x (List.mem_cons_of_mem _ hx)) _).trans
      (Beast.set_other _ _ _ _ (h header List.mem_cons_self))

/-- **The wire shows the header store.** Under each name the loop leaves the value that the
store has, and what was there before if it has none. -/
theorem fieldValues_setFields {headers : KvVector} {m : OrderedMap Str Str}
    (h : Represents toLowerCase headers m) (fields : KvVector) (n : Str) :
    fieldValues (setFields fields headers) n =
      match m.value (toLowerCase n) with
      | some value => [value]
      | none => fieldValues fields n := by
  by_cases hmem : toLowerCase n ∈ m.keys
  · rw [← h.keys_eq, List.mem_map] at hmem
    obtain ⟨header, hheader, hname⟩ := hmem
    rw [← hname, h.value_of_mem hheader]
    -- the last header of the name is the only one
    obtain ⟨before, after, rfl⟩ := List.append_of_mem hheader
    have hnodup := h.nodup
    rw [List.map_append, List.map_cons] at hnodup
    have hafter : ∀ x ∈ after, sameField x.1 n = false := fun x hx => by
      rw [sameField_eq_decide, decide_eq_false_iff_not, ← hname]
      intro heq
      exact (List.nodup_cons.mp (List.nodup_append.mp hnodup).2.1).1
        (List.mem_map.mpr ⟨x, hx, heq⟩)
    have hset : sameField header.1 n = true := by
      rw [sameField_eq_decide, decide_eq_true_iff, hname]
    rw [setFields, List.foldl_append, List.foldl_cons]
    exact (fieldValues_setFields_of_none hafter _).trans (Beast.set_same _ _ _ _ hset)
  · -- no header has the name, so none replaces what was there
    have hnone : m.value (toLowerCase n) = none := by
      rw [m.mem_keys_iff, Option.not_isSome_iff_eq_none] at hmem
      exact hmem
    rw [hnone]
    refine fieldValues_setFields_of_none (fun header hheader => ?_) fields
    rw [sameField_eq_decide, decide_eq_false_iff_not]
    intro heq
    exact hmem (h.keys_eq ▸ List.mem_map.mpr ⟨header, hheader, heq⟩)

variable [BuildConfig]

/-- What the message says about its length, and the length it has. -/
theorem contentLength_toBeastRequest {r : BaseRequest} {m : OrderedMap Str Str}
    (h : Represents toLowerCase r.headers m) :
    r.toBeastRequest.body = r.body ∧
      fieldValues r.toBeastRequest.fields "Content-Length".toList =
        if r.body = [] then [(m.value (toLowerCase "Content-Length".toList)).getD "0".toList]
        else [decimal r.body.length] := by
  rw [BaseRequest.toBeastRequest, IoContainer.hasBody]
  cases hbody : r.body with
  | nil =>
    -- the default, unless the store has a length
    have hdefault : fieldValues (defaultFields r) "Content-Length".toList = ["0".toList] :=
      Beast.set_same _ _ _ _ (by decide)
    simp only [List.isEmpty_nil, Bool.not_true, Bool.false_eq_true, if_false, if_true]
    refine ⟨trivial, ?_⟩
    rw [IoContainer.getHeaders, fieldValues_setFields h, hdefault]
    cases m.value (toLowerCase "Content-Length".toList) <;> rfl
  | cons c body =>
    -- `prepare_payload` replaces whatever the store says
    simp only [List.isEmpty_cons, Bool.not_false, if_true]
    refine ⟨?_, ?_⟩
    · rw [Beast.preparePayload_eq]
      exact hbody
    · rw [Beast.preparePayload_length _ (by simp [IoContainer.getBody, hbody])]
      simp [IoContainer.getBody, hbody]

end Loop

end Httb
