import Httb.IoContainer

/-!
# Responses and Error Codes

`httb::response` (`src/response.cpp`), the error codes of Boost as far as httb looks into
them, and the two ways a response comes about: `boost_err_to_rep_err` (`src/utils.h`) makes
one from an error code, the conversion at the end of an exchange one from a received
message.
-/

namespace Httb

/-! ## Error codes -/

/-- The error categories of Boost. -/
inductive ErrorCategory where
  | system | generic | netdb | addrinfo | misc | ssl | sslStream | beastHttp
  | other (name : Str)
  deriving DecidableEq

/-- `boost::system::error_code`. -/
structure ErrorCode where
  value : Int32 := 0
  category : ErrorCategory := .system
  deriving DecidableEq

namespace ErrorCode

/-- The conversion to `bool`. -/
def failed (ec : ErrorCode) : Bool := ec.value != 0

/-- `boost::asio::ssl::error::stream_truncated`. -/
def streamTruncated : ErrorCode := ⟨1, .sslStream⟩

/-- `boost::asio::error::eof`. -/
def eof : ErrorCode := ⟨2, .misc⟩

/-- The comparison with the condition `boost::system::errc::not_connected`, which system and
generic codes of that number are equivalent to. -/
def isNotConnected (ec : ErrorCode) : Bool :=
  ec.value == 107 && (ec.category == .system || ec.category == .generic)

/-- `ec.assign(0, ec.category())`. -/
def cleared (ec : ErrorCode) : ErrorCode := { ec with value := 0 }

end ErrorCode

/-- The texts of Boost's error codes. -/
class BoostErrors where
  name : ErrorCategory → Str
  message : ErrorCode → Str

/-- Error codes without texts. -/
@[reducible] def BoostErrors.silent : BoostErrors where
  name _ := []
  message _ := []

/-! ## HTTP status codes -/

/-- `boost::beast::http::status`, which `response::http_status` is an alias of. -/
inductive HttpStatus where
  | unknown
  | continue_ | switching_protocols | processing
  | ok | created | accepted | non_authoritative_information | no_content | reset_content
  | partial_content | multi_status | already_reported | im_used
  | multiple_choices | moved_permanently | found | see_other | not_modified | use_proxy
  | temporary_redirect | permanent_redirect
  | bad_request | unauthorized | payment_required | forbidden | not_found | method_not_allowed
  | not_acceptable | proxy_authentication_required | request_timeout | conflict | gone
  | length_required | precondition_failed | payload_too_large | uri_too_long
  | unsupported_media_type | range_not_satisfiable | expectation_failed | misdirected_request
  | unprocessable_entity | locked | failed_dependency | upgrade_required
  | precondition_required | too_many_requests | request_header_fields_too_large
  | connection_closed_without_response | unavailable_for_legal_reasons | client_closed_request
  | internal_server_error | not_implemented | bad_gateway | service_unavailable
  | gateway_timeout | http_version_not_supported | variant_also_negotiates
  | insufficient_storage | loop_detected | not_extended | network_authentication_required
  | network_connect_timeout_error
  deriving DecidableEq

/-- The number of a status, `unknown` being 0. -/
def HttpStatus.toInt32 : HttpStatus → Int32
  | .unknown => 0
  | .continue_ => 100 | .switching_protocols => 101 | .processing => 102
  | .ok => 200 | .created => 201 | .accepted => 202 | .non_authoritative_information => 203
  | .no_content => 204 | .reset_content => 205 | .partial_content => 206
  | .multi_status => 207 | .already_reported => 208 | .im_used => 226
  | .multiple_choices => 300 | .moved_permanently => 301 | .found => 302 | .see_other => 303
  | .not_modified => 304 | .use_proxy => 305 | .temporary_redirect => 307
  | .permanent_redirect => 308
  | .bad_request => 400 | .unauthorized => 401 | .payment_required => 402 | .forbidden => 403
  | .not_found => 404 | .method_not_allowed => 405 | .not_acceptable => 406
  | .proxy_authentication_required => 407 | .request_timeout => 408 | .conflict => 409
  | .gone => 410 | .length_required => 411 | .precondition_failed => 412
  | .payload_too_large => 413 | .uri_too_long => 414 | .unsupported_media_type => 415
  | .range_not_satisfiable => 416 | .expectation_failed => 417 | .misdirected_request => 421
  | .unprocessable_entity => 422 | .locked => 423 | .failed_dependency => 424
  | .upgrade_required => 426 | .precondition_required => 428 | .too_many_requests => 429
  | .request_header_fields_too_large => 431 | .connection_closed_without_response => 444
  | .unavailable_for_legal_reasons => 451 | .client_closed_request => 499
  | .internal_server_error => 500 | .not_implemented => 501 | .bad_gateway => 502
  | .service_unavailable => 503 | .gateway_timeout => 504 | .http_version_not_supported => 505
  | .variant_also_negotiates => 506 | .insufficient_storage => 507 | .loop_detected => 508
  | .not_extended => 510 | .network_authentication_required => 511
  | .network_connect_timeout_error => 599

theorem HttpStatus.toInt32_range (s : HttpStatus) : 0 ≤ s.toInt32 ∧ s.toInt32 < 1000 := by
  cases s <;> decide

/-! ## httb::response -/

/-- `httb::response`. Its body is `data`; the container it extends has another one. -/
structure Response extends IoContainer where
  code : Int32 := 200
  status : HttpStatus := .ok
  statusMessage : Str := "Ok".toList
  data : Str := []
  deriving DecidableEq

namespace Response

/-- `response::INTERNAL_ERROR_OFFSET`. -/
def INTERNAL_ERROR_OFFSET : Int32 := 1000

/-- `response::success`. -/
def success (r : Response) : Bool := r.code ≥ 200 && r.code < 400

/-- `response::is_internal_error`. -/
def isInternalError (r : Response) : Bool := r.code ≥ INTERNAL_ERROR_OFFSET || r.code < 0

/-- `response::get_body`. -/
def getBody (r : Response) : Str := r.data

/-- `response::set_body`. -/
def setBody (r : Response) (body : Str) : Response := { r with data := body }

/-- `response::has_body`. -/
def hasBody (r : Response) : Bool := !r.data.isEmpty

/-- `response::get_body_size`. -/
def getBodySize (r : Response) : Nat := r.data.length

variable [Toolbox]

/-- `add_header(name, value)` on a response. -/
def addHeader (r : Response) (name value : Str) : Response :=
  { r with toIoContainer := r.toIoContainer.addHeader name value }

/-- `response::parse_form_url_encode`. -/
def parseFormUrlEncode (r : Response) : KvVector :=
  if r.data.isEmpty then []
  else (split r.data '&').map fun s => splitPairStr s "=".toList

end Response

/-- The text of a signed number. -/
def decimalInt (n : Int) : Str :=
  if n < 0 then '-' :: decimal n.natAbs else decimal n.natAbs

/-- `boost_err_to_rep_err`. The sum is taken in the 32 bits of an `int`. -/
def boostErrToRepErr [BoostErrors] (in_ : Response) (ec : ErrorCode) : Response :=
  let out := { in_ with code := Response.INTERNAL_ERROR_OFFSET + ec.value }
  out.setBody (BoostErrors.name ec.category ++ "[".toList ++ decimalInt out.code.toInt ++
    "]".toList ++ ": ".toList ++ BoostErrors.message ec)

@[simp] theorem code_boostErrToRepErr [BoostErrors] (in_ : Response) (ec : ErrorCode) :
    (boostErrToRepErr in_ ec).code = Response.INTERNAL_ERROR_OFFSET + ec.value := rfl

/-! ## Received messages -/

/-- What httb uses of `boost::beast::http::response`: `result()`, `reason()`, the fields in
the order in which they are iterated, and the bytes of the body. -/
structure BeastResponse where
  result : HttpStatus := .ok
  reason : Str := []
  fields : KvVector := []
  body : Str := []
  deriving DecidableEq

section Conversion

variable [Toolbox]

/-- The loop that copies the received fields. -/
def addFields (resp : Response) (fields : KvVector) : Response :=
  fields.foldl (fun resp field => resp.addHeader field.1 field.2) resp

/-- The end of an exchange in `execute_blocking`. -/
def responseOfBlocking (res : BeastResponse) : Response :=
  let resp : Response := {}
  let resp := { resp with status := res.result }
  let resp := { resp with code := res.result.toInt32 }
  let resp := { resp with statusMessage := res.reason }
  let resp := addFields resp res.fields
  resp.setBody res.body

/-- The start of the success lambda of `execute_in_context`. -/
def responseOfAsync (res : BeastResponse) : Response :=
  let resp : Response := {}
  let resp := resp.setBody res.body
  let resp := { resp with status := res.result }
  let resp := { resp with code := res.result.toInt32 }
  let resp := { resp with statusMessage := res.reason }
  addFields resp res.fields

/-- The received fields only touch the headers. -/
theorem addFields_eq (resp : Response) (fields : KvVector) :
    addFields resp fields =
      { resp with toIoContainer := resp.toIoContainer.addHeaders fields } := by
  induction fields generalizing resp with
  | nil => rfl
  | cons f fields ih =>
    rw [addFields, List.foldl_cons]
    exact ih (resp.addHeader f.1 f.2)

/-- Both clients make the same response of a message. -/
theorem responseOfAsync_eq (res : BeastResponse) :
    responseOfAsync res = responseOfBlocking res := by
  rw [responseOfAsync, responseOfBlocking, addFields_eq, addFields_eq]
  rfl

theorem code_responseOfBlocking (res : BeastResponse) :
    (responseOfBlocking res).code = res.result.toInt32 := by
  rw [responseOfBlocking, addFields_eq]
  rfl

end Conversion

end Httb
