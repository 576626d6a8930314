import Httb.HeaderLoading
import Httb.Multipart
import Httb.ReceivedHeaders

/-!
# Requests with a Multipart Body

When the body of a request is set to a `body_multipart`, `build` writes a Content-Type header
into the request, and `io_container::set_body` a Content-Length header (`src/request.cpp`). On
a request whose header names are distinct both end up there once, wherever they stood before
and however they were spelt, and nothing else changes. The boundary is written into the header
as it is, without quotes, so it names the parts only if it can stand there.

## Main facts

- `IoContainer.filter_setHeader`: `set_header` leaves the other headers alone
- `boundaryParameter_contentType`: what is read back off the header
- `parameterValue_eq_self_iff`: the boundaries that can stand in the header without quotes
- `MultipartSet.namesParts_iff`: when the header names the boundary of the parts
- `BaseRequest.setRequestBody_multipart`: what setting a multipart body does
-/

namespace Httb

open Httb.Foundation

/-! ## The boundary parameter -/

/-- White space. -/
def isBlank (c : Char) : Bool := c == ' ' || c == '\t' || c == '\r' || c == '\n'

/-- What ends the value of a parameter that has no quotes. -/
def endsValue (c : Char) : Bool := c == ';' || isBlank c

/-- The text of a quoted value, up to the closing quote; a backslash stands before a character
that is meant as it is. -/
def quotedValue : Str → Option Str
  | [] => none
  | '"' :: _ => some []
  | '\\' :: c :: rest => (quotedValue rest).map (c :: ·)
  | c :: rest => (quotedValue rest).map (c :: ·)

/-- The value of a parameter at the front of a text: it is in quotes, or ends at a semicolon or
at white space. -/
def parameterValue : Str → Option Str
  | '"' :: rest => quotedValue rest
  | text =>
    let value := text.takeWhile fun c => !endsValue c
    if value.isEmpty then none else some value

/-- The boundary that a Content-Type value names as its first parameter. -/
def boundaryParameter (value : Str) : Option Str :=
  let param := cutFirst '=' ((cutFirst ';' value).2.dropWhile isBlank)
  if param.1.map tolower = "boundary".toList then parameterValue param.2 else none

/-- The text can stand as the value of a parameter without quotes. -/
structure IsPlainValue (text : Str) : Prop where
  ne_nil : text ≠ []
  no_quote : text.head? ≠ some '"'
  no_end : ∀ c ∈ text, endsValue c = false

/-- A quoted value is shorter than what it was read from. -/
theorem length_of_quotedValue {text value : Str} (h : quotedValue text = some value) :
    value.length ≤ text.length := by
  induction text using quotedValue.induct generalizing value with
  | case1 => cases h
  | case2 rest =>
    obtain rfl := Option.some.inj h
    exact Nat.zero_le _
  | case3 c rest ih =>
    obtain ⟨value', hvalue', rfl⟩ := Option.map_eq_some_iff.mp h
    have := ih hvalue'
    simp only [List.length_cons]
    omega
  | case4 c rest hquote hescape ih =>
    rw [quotedValue] at h
    · obtain ⟨value', hvalue', rfl⟩ := Option.map_eq_some_iff.mp h
      exact Nat.succ_le_succ (ih hvalue')
    · exact hquote
    · exact hescape

/-- **Which texts are read as they are**: those that need no quotes. -/
theorem parameterValue_eq_self_iff {text : Str} :
    parameterValue text = some text ↔ IsPlainValue text := by
  match text with
  | [] => exact iff_of_false (by simp [parameterValue]) fun h => h.ne_nil rfl
  | c :: rest =>
    by_cases hc : c = '"'
    · rw [hc]
      refine iff_of_false (fun h => ?_) fun h => h.no_quote rfl
      -- the quotes are not part of the value
      have hlength := @length_of_quotedValue rest _ h
      rw [List.length_cons] at hlength
      omega
    · have hvalue : parameterValue (c :: rest) =
          if ((c :: rest).takeWhile fun c => !endsValue c).isEmpty then none
          else some ((c :: rest).takeWhile fun c => !endsValue c) := by
        rw [parameterValue]
        exact fun rest' h => hc (List.cons.inj h).1
      have hwhole : (c :: rest).takeWhile (fun c => !endsValue c) = c :: rest ↔
          ∀ d ∈ c :: rest, endsValue d = false := by
        rw [List.takeWhile_eq_self_iff]
        simp
      rw [hvalue]
      constructor
      · intro h
        split at h
        · cases h
        · exact ⟨List.cons_ne_nil _ _, by simpa using hc, hwhole.mp (Option.some.inj h)⟩
      · intro h
        rw [hwhole.mpr h.no_end]
        rfl

/-- What `build` writes under Content-Type. -/
def BodyMultipart.contentType (b : BodyMultipart) : Str :=
  "multipart/form-data; boundary=".toList ++ b.boundaryName

/-- The boundary is read as the value of a parameter. -/
theorem BodyMultipart.boundaryParameter_contentType (b : BodyMultipart) :
    boundaryParameter b.contentType = parameterValue b.boundaryName := by
  have htext : "multipart/form-data; boundary=".toList =
      "multipart/form-data".toList ++ ';' :: ' ' :: ("boundary".toList ++ ['=']) := by decide
  have hsplit : b.contentType = "multipart/form-data".toList ++
      ';' :: ' ' :: ("boundary".toList ++ '=' :: b.boundaryName) := by
    unfold BodyMultipart.contentType
    rw [htext]
    simp only [List.append_assoc, List.cons_append, List.nil_append]
  have htype : cutFirst ';' b.contentType =
      ("multipart/form-data".toList, ' ' :: ("boundary".toList ++ '=' :: b.boundaryName)) := by
    rw [hsplit]
    exact cutFirst_append_cons (by decide) _
  have hblank : (' ' :: ("boundary".toList ++ '=' :: b.boundaryName)).dropWhile isBlank =
      "boundary".toList ++ '=' :: b.boundaryName := rfl
  have hname : cutFirst '=' ("boundary".toList ++ '=' :: b.boundaryName) =
      ("boundary".toList, b.boundaryName) := cutFirst_append_cons (by decide) _
  have hparameter : "boundary".toList.map tolower = "boundary".toList := by decide
  rw [boundaryParameter, htype]
  dsimp only
  rw [hblank, hname]
  exact if_pos hparameter

variable [Toolbox]

/-! ## Setting a header -/

/-- The headers of other names stay as they are, in their order. -/
theorem IoContainer.filter_setHeader (c : IoContainer) (keyValue : Kv) {p : Str → Bool}
    (h : ∀ name, p name = true → equalsIcase name keyValue.1 = false) :
    ((c.setHeader keyValue).headers.filter fun kv => p kv.1) =
      c.headers.filter fun kv => p kv.1 := by
  have hself : p keyValue.1 = false := by
    cases hp : p keyValue.1 with
    | false => rfl
    | true => exact absurd (equalsIcase_self keyValue.1) (by rw [h _ hp]; decide)
  -- those with the property are among those of another name
  have hamong (headers : KvVector) : headers.filter (fun kv => p kv.1) =
      (headers.filter fun kv => !equalsIcase kv.1 keyValue.1).filter fun kv => p kv.1 := by
    rw [List.filter_filter]
    apply List.filter_congr
    intro kv _
    cases hp : p kv.1 with
    | false => rfl
    | true => rw [h _ hp]; rfl
  rcases c.setHeader_cases keyValue with ⟨-, hset⟩ | ⟨-, hset⟩
  · rw [hset, hamong, hamong c.headers,
      filter_not_overwriteAll fun name => equalsIcase name keyValue.1]
  · rw [hset, List.filter_append, List.filter_cons_of_neg (by simpa using hself),
      List.filter_nil, List.append_nil]

/-! ## Main result -/

/-- The header is neither Content-Type nor Content-Length. -/
def isOtherHeader (name : Str) : Bool :=
  !equalsIcase name "Content-Type".toList && !equalsIcase name "Content-Length".toList

/-- The entries that `build` writes. -/
def BodyMultipart.emitted (b : BodyMultipart) : List MultipartEntry :=
  b.entries.filter MultipartEntry.hasBody

/-- The multipart body `b` was set, and nothing else was done. -/
structure MultipartSet (b : BodyMultipart) (before after : BaseRequest) : Prop where
  body : after.body = (b.build before.toIoContainer).1
  parts : ∃ tail, (tail = [] ∨ tail = crlf) ∧
    after.body = crlf.intercalate (b.emitted.map fun e => e.part b.boundaryName) ++ tail
  contentType : valuesUnder "Content-Type".toList after.headers = [b.contentType]
  contentLength : valuesUnder "Content-Length".toList after.headers = [decimal after.body.length]
  otherHeaders : (after.headers.filter fun h => isOtherHeader h.1) =
    before.headers.filter fun h => isOtherHeader h.1
  /-- Of the fields of the request only those of the container change. -/
  otherFields : after = { before with toIoContainer := after.toIoContainer }

/-- The one Content-Type names a boundary, and every part of the body begins with the delimiter
line of that boundary. -/
def NamesParts (b : BodyMultipart) (after : BaseRequest) : Prop :=
  ∃ value boundaryName, valuesUnder "Content-Type".toList after.headers = [value] ∧
    boundaryParameter value = some boundaryName ∧
    ∀ e ∈ b.emitted, e.part b.boundaryName =
      delimiterLine boundaryName ++ block crlf e.headerLines (e.body.getD [])

/-- The text of a multipart body. -/
theorem BodyMultipart.exists_build_eq (b : BodyMultipart) (request : IoContainer) :
    ∃ tail, (tail = [] ∨ tail = crlf) ∧ (b.build request).1 =
      crlf.intercalate (b.emitted.map fun e => e.part b.boundaryName) ++ tail := by
  rw [build_eq]
  refine ⟨_, ?_, rfl⟩
  split
  · exact .inr rfl
  · exact .inl rfl

/-- Everything but the boundary that the header names is as it should be. -/
theorem BaseRequest.multipartSet_setRequestBody {r : BaseRequest} (hr : DistinctNames r.headers)
    (b : BodyMultipart) : MultipartSet b r (r.setRequestBody b.toRequestBody) := by
  obtain ⟨m, hm⟩ := IoContainer.exists_represents hr
  have hnames : toLowerCase "Content-Type".toList ≠ toLowerCase "Content-Length".toList := by
    rw [Toolbox.toLowerCase_eq, Toolbox.toLowerCase_eq]
    decide
  -- `build` sets the type, then `set_body` the length
  have htyped := represents_setHeader hm ("Content-Type".toList, b.contentType)
  have hset : Represents toLowerCase (r.setRequestBody b.toRequestBody).headers _ :=
    represents_setHeader
      (c := { r.toIoContainer.setHeader ("Content-Type".toList, b.contentType) with
        body := (b.build r.toIoContainer).1 }) htyped
      ("Content-Length".toList, decimal (b.build r.toIoContainer).1.length)
  have hbody : (r.setRequestBody b.toRequestBody).body = (b.build r.toIoContainer).1 :=
    IoContainer.body_setBody _ _
  obtain ⟨tail, htail, hparts⟩ := b.exists_build_eq r.toIoContainer
  refine ⟨hbody, ⟨tail, htail, hbody.trans hparts⟩, ?_, ?_, ?_, rfl⟩
  · rw [valuesUnder_of_represents hset, OrderedMap.value_insert_of_ne _ hnames,
      OrderedMap.value_insert_self]
    rfl
  · rw [valuesUnder_of_represents hset, OrderedMap.value_insert_self, hbody]
    rfl
  · have hother (name : Str) (h : isOtherHeader name = true) :
        equalsIcase name "Content-Type".toList = false ∧
          equalsIcase name "Content-Length".toList = false := by
      simpa [isOtherHeader] using h
    exact (IoContainer.filter_setHeader _ _ fun name h => (hother name h).2).trans
      (IoContainer.filter_setHeader _ _ fun name h => (hother name h).1)

omit [Toolbox] in
/-- A part begins with the delimiter line of one boundary only. -/
theorem part_eq_iff {e : MultipartEntry} {boundaryName boundaryName' : Str} :
    e.part boundaryName = delimiterLine boundaryName' ++ block crlf e.headerLines (e.body.getD []) ↔
      boundaryName' = boundaryName := by
  rw [MultipartEntry.part_eq, List.append_left_inj, delimiterLine, delimiterLine,
    List.append_left_inj, List.append_right_inj, eq_comm]

/-- When the header names the boundary of the parts. -/
theorem MultipartSet.namesParts_iff {b : BodyMultipart} {before after : BaseRequest}
    (h : MultipartSet b before after) :
    NamesParts b after ↔ IsPlainValue b.boundaryName ∨
      b.emitted = [] ∧ (parameterValue b.boundaryName).isSome = true := by
  constructor
  · rintro ⟨value, boundaryName, htype, hparameter, hparts⟩
    obtain rfl := (List.singleton_inj.mp (h.contentType.symm.trans htype)).symm
    rw [b.boundaryParameter_contentType] at hparameter
    cases hemitted : b.emitted with
    | nil => exact .inr ⟨rfl, by rw [hparameter]; rfl⟩
    | cons e rest =>
      have hsame := part_eq_iff.mp (hparts e (by rw [hemitted]; exact List.mem_cons_self))
      rw [hsame] at hparameter
      exact .inl (parameterValue_eq_self_iff.mp hparameter)
  · rintro (hplain | ⟨hnone, hread⟩)
    · refine ⟨_, b.boundaryName, h.contentType, ?_, fun e _ => part_eq_iff.mpr rfl⟩
      rw [b.boundaryParameter_contentType]
      exact parameterValue_eq_self_iff.mpr hplain
    · obtain ⟨boundaryName, hread⟩ := Option.isSome_iff_exists.mp hread
      refine ⟨_, boundaryName, h.contentType, ?_, ?_⟩
      · rw [b.boundaryParameter_contentType, hread]
      · rw [hnone]
        exact fun e he => absurd he List.not_mem_nil

/-- **Setting a multipart body keeps body and headers consistent** and touches nothing else,
on a request whose header names are pairwise distinct; and the boundary that the header names is
the one of the parts if and only if `boundaryName` can stand there without quotes, or there are
no parts and it can be read at all. -/
theorem BaseRequest.setRequestBody_multipart {r : BaseRequest} (hr : DistinctNames r.headers)
    (b : BodyMultipart) :
    MultipartSet b r (r.setRequestBody b.toRequestBody) ∧
      (NamesParts b (r.setRequestBody b.toRequestBody) ↔
        IsPlainValue b.boundaryName ∨
          b.emitted = [] ∧ (parameterValue b.boundaryName).isSome = true) :=
  ⟨multipartSet_setRequestBody hr b, (multipartSet_setRequestBody hr b).namesParts_iff⟩

omit [Toolbox] in
/-- A request with a length in another spelling. -/
theorem BaseRequest.setRequestBody_multipart_oneField :
    letI := Toolbox.reference
    let r : BaseRequest :=
      { headers := [("content-LENGTH".toList, "9".toList), ("Accept".toList, "a".toList)] }
    MultipartSet BodyMultipart.oneField r
        (r.setRequestBody BodyMultipart.oneField.toRequestBody) ∧
      NamesParts BodyMultipart.oneField (r.setRequestBody BodyMultipart.oneField.toRequestBody) ∧
      (r.setRequestBody BodyMultipart.oneField.toRequestBody).headers =
        [("content-LENGTH".toList, "78".toList), ("Accept".toList, "a".toList),
          ("Content-Type".toList, "multipart/form-data; boundary=B".toList)] := by
  let := Toolbox.reference
  have hplain : IsPlainValue BodyMultipart.oneField.boundaryName := by
    refine ⟨by decide, by decide, fun c hc => ?_⟩
    obtain rfl : c = 'B' := List.mem_singleton.mp hc
    rfl
  refine ⟨(setRequestBody_multipart ?_ _).1, (setRequestBody_multipart ?_ _).2.mpr (.inl hplain),
    by decide⟩
  all_goals
    unfold DistinctNames
    decide

/-- A boundary with a semicolon. -/
def BodyMultipart.semicolon : BodyMultipart :=
  { BodyMultipart.oneField with boundaryName := "a;b".toList }

omit [Toolbox] in
/-- The header names the boundary `a`, and the part begins with the boundary `a;b`. -/
theorem BaseRequest.setRequestBody_multipart_semicolon :
    letI := Toolbox.reference
    let r : BaseRequest := {}
    (r.setRequestBody BodyMultipart.semicolon.toRequestBody).headers.head?.map Prod.snd =
        some "multipart/form-data; boundary=a;b".toList ∧
      (boundaryParameter "multipart/form-data; boundary=a;b".toList) = some "a".toList ∧
      ¬ NamesParts BodyMultipart.semicolon
        (r.setRequestBody BodyMultipart.semicolon.toRequestBody) := by
  let := Toolbox.reference
  intro r
  refine ⟨by decide, by decide, ?_⟩
  have hr : DistinctNames r.headers := .nil
  rw [(multipartSet_setRequestBody hr _).namesParts_iff]
  rintro (hplain | ⟨hnone, -⟩)
  · exact absurd (hplain.no_end ';' (by decide)) (by decide)
  · exact absurd hnone (by decide)

end Httb
