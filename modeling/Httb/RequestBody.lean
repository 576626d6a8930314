import Httb.BaseRequest
import Httb.HeaderMap

/-!
# Request Bodies

`httb::request_body` and its implementations: a plain string (`src/body_string.cpp`), a form
(`src/body_form_urlencoded.cpp`) and a multipart body (`src/body_multipart.cpp`). A body
builds its text, and while it does so it may write headers of the request that it is built
for; the type `RequestBody` carries that it does nothing else to them.
-/

namespace Httb

variable [Toolbox]

/-- `httb::request_body`: `build` returns the text, and the request it was given, whose
headers it may have written. -/
structure RequestBody where
  build : IoContainer → Str × IoContainer
  headers_build : ∀ request, ∃ ops : List HeaderOp,
    (build request).2.headers = (ops.foldl HeaderOp.apply request).headers

/-! ## body_string -/

/-- `body_string`. -/
def bodyString (body : Str) : RequestBody where
  build request := (body, request)
  headers_build _ := ⟨[], rfl⟩

/-! ## body_form_urlencoded -/

/-- `httb::body_form_urlencoded`. -/
structure BodyFormUrlencoded where
  params : KvVector := []

namespace BodyFormUrlencoded

omit [Toolbox] in
/-- `add_param`, both overloads for a pair. -/
def addParam (b : BodyFormUrlencoded) (param : Kv) : BodyFormUrlencoded :=
  { b with params := b.params ++ [param] }

/-- `add_params`, for a vector and for every kind of map, in the order of iteration. -/
def addParams (b : BodyFormUrlencoded) (append : KvVector) : BodyFormUrlencoded :=
  append.foldl addParam b

/-- `add_param(name, values)`. -/
def addParamValues (b : BodyFormUrlencoded) (name : Str) (values : List Str) :
    BodyFormUrlencoded :=
  values.foldl (fun b val => b.addParam (name ++ "[]".toList, val)) b

/-- `parse_params`. -/
def parseParams (b : BodyFormUrlencoded) (encoded : Str) : BodyFormUrlencoded :=
  let query := if encoded.head? = some '?' then encoded.drop 1 else encoded
  let pairs := splitStr query "&".toList
  pairs.foldl (fun b param => b.addParam (splitPairStr param "=".toList)) b

/-- The constructors from a string. -/
def ofString (encodedParamsString : Str) : BodyFormUrlencoded :=
  ({} : BodyFormUrlencoded).parseParams encodedParamsString

/-- The overload of `parse_params` that moves its argument reads it in the same way. -/
def parseParamsMove (b : BodyFormUrlencoded) (encoded : Str) : BodyFormUrlencoded :=
  b.parseParams encoded

/-- The constructor that moves its argument. -/
def ofStringMove (encodedParamsString : Str) : BodyFormUrlencoded :=
  ({} : BodyFormUrlencoded).parseParamsMove encodedParamsString

/-- The loop of `build` over what is left of the parameters. -/
def buildLoop (size : ℕ) : (i : ℕ) → KvVector → Str
  | _, [] => []
  | i, h :: rest =>
    h.1 ++ "=".toList ++ h.2 ++ (if i < size - 1 then "&".toList else []) ++
      buildLoop size (i + 1) rest

/-- `body_form_urlencoded::build`. -/
def build (b : BodyFormUrlencoded) : Str := buildLoop b.params.length 0 b.params

/-- The form as a body. -/
def toRequestBody (b : BodyFormUrlencoded) : RequestBody where
  build request := (b.build, request)
  headers_build _ := ⟨[], rfl⟩

end BodyFormUrlencoded

/-! ## body_multipart -/

/-- `httb::multipart_entry`; of the body loader what it returns, if it is set. -/
structure MultipartEntry where
  name : Str
  contentType : Str := "text/plain".toList
  filename : Str := []
  body_ : Str := []
  bodyLoader : Option Str := none

namespace MultipartEntry

/-- `multipart_entry(name, body)`. -/
def ofBody (name body : Str) : MultipartEntry := { name, body_ := body }

/-- `multipart_entry(name, file_body_entry)`. -/
def ofFileBody (name filename contentType body : Str) : MultipartEntry :=
  { name, contentType, filename, body_ := body }

/-- `multipart_entry::body`; an empty loader throws. -/
def body (e : MultipartEntry) : Option Str := if e.body_.isEmpty then e.bodyLoader else some e.body_

/-- `multipart_entry::has_body`. -/
def hasBody (e : MultipartEntry) : Bool :=
  !e.body_.isEmpty || (e.bodyLoader.isSome && !e.filename.isEmpty)

omit [Toolbox] in
/-- An entry with a body does not throw when it is asked for it. -/
theorem isSome_body_of_hasBody {e : MultipartEntry} (h : e.hasBody = true) :
    e.body.isSome = true := by
  rw [hasBody] at h
  rw [body]
  split
  · -- no body of its own, so the loader is set
    rename_i hempty
    rw [hempty, Bool.not_true, Bool.false_or, Bool.and_eq_true] at h
    exact h.1
  · rfl

/-- What `build` writes for an entry, up to the line break that separates it from the next. -/
def part (boundaryName : Str) (e : MultipartEntry) : Str :=
  "--".toList ++ boundaryName ++ "\r\n".toList ++
    "Content-Disposition: format-data; name=\"".toList ++ e.name ++ "\"".toList ++
    (if !e.filename.isEmpty then
      "; filename=\"".toList ++ e.filename ++ "\"".toList ++ "\r\n".toList
    else "\r\n".toList) ++
    (if !e.contentType.isEmpty then
      "Content-Type: ".toList ++ e.contentType ++ "\r\n".toList
    else []) ++
    "\r\n".toList ++ e.body.getD []

end MultipartEntry

/-- `httb::body_multipart`; the constructor makes the boundary of random letters. -/
structure BodyMultipart where
  boundaryName : Str
  entries : List MultipartEntry := []

namespace BodyMultipart

omit [Toolbox] in
/-- `add_entry`. -/
def addEntry (b : BodyMultipart) (entry : MultipartEntry) : BodyMultipart :=
  { b with entries := b.entries ++ [entry] }

/-- The loop of `build` over what is left of the entries; `i` counts those with a body. -/
def buildLoop (boundaryName : Str) (size : ℕ) : (i : ℕ) → List MultipartEntry → Str
  | _, [] => []
  | i, entry :: rest =>
    -- `continue`: an entry without a body is not counted, though it is in `size`
    if !entry.hasBody then buildLoop boundaryName size i rest
    else
      entry.part boundaryName ++ (if i < size - 1 then "\r\n".toList else []) ++
        buildLoop boundaryName size (i + 1) rest

/-- `body_multipart::build`. -/
def build (b : BodyMultipart) (request : IoContainer) : Str × IoContainer :=
  (buildLoop b.boundaryName b.entries.length 0 b.entries,
    request.setHeader
      ("Content-Type".toList, "multipart/form-data; boundary=".toList ++ b.boundaryName))

/-- The multipart body as a body. -/
def toRequestBody (b : BodyMultipart) : RequestBody where
  build := b.build
  headers_build _ := ⟨[.setHeader ("Content-Type".toList, _)], rfl⟩

end BodyMultipart

/-! ## Setting the body of a request -/

namespace BaseRequest

/-- `request::set_body`, both overloads for a string. -/
def setBody (r : BaseRequest) (body : Str) : BaseRequest :=
  { r with toIoContainer := r.toIoContainer.setBody body }

/-- `request::set_body`, both overloads for a `request_body`: the body is built for the
request itself. -/
def setRequestBody (r : BaseRequest) (body : RequestBody) : BaseRequest :=
  let built := body.build r.toIoContainer
  { r with toIoContainer := built.2.setBody built.1 }

end BaseRequest

end Httb
