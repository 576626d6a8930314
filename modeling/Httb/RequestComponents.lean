import Httb.ContentLength
import Httb.Foundation.Components
import Httb.QueryString

/-!
# A Request in Components

The setters of a request (`src/request.cpp`, `src/io_container.cpp`) each change one or more of
its parts: headers and body, method, ssl flag, protocol, host, port, path, parameters. What a
call makes of a part depends on that part alone, `parse_url` included, which changes six of
them. So a request after any run of calls can be told part by part: five parts hold what was
written last, the others what the calls that touch them make of them.

## Main facts

- `parseUrl_eq_readUrl`: `parse_url` as a write to each part of the URL
- `run_parts`: every part after a run
- `run_eq_of_parts`: the order of calls matters only where they touch the same part
-/

namespace Httb

open Httb.Foundation

section Calls

variable [Toolbox] [BoostRegex]

/-- A call that changes a request. The operations of `RequestOp` and every way to write headers;
`remove_header` is left out, as it can leave the list of headers undefined. -/
inductive RequestCall where
  | of (op : RequestOp)
  | header (op : HeaderOp)

namespace RequestCall

/-- What the code does. -/
def apply (r : BaseRequest) : RequestCall → BaseRequest
  | .of op => op.apply r
  | .header op => { r with toIoContainer := op.apply r.toIoContainer }

/-- What `parse_url` reads off a text, if it accepts it. -/
def readUrl (url : Str) : Option UrlParts :=
  if matchesPattern urlParseRegex url then some (urlParts url) else none

/-! ## What a call writes -/

/-- The method that a call sets. -/
def writesMethod : RequestCall → Option Verb
  | .of (.setMethod method) => some method
  | _ => none

/-- The ssl flag: only the protocols `https` and `ftp` say something about it. -/
def writesSsl : RequestCall → Option Bool
  | .of (.useSsl use) => some use
  | .of (.parseUrl url) => (readUrl url).bind fun u =>
    if isHttps u.proto then some true else if isFtp u.proto then some false else none
  | _ => none

/-- The protocol. -/
def writesProto : RequestCall → Option Str
  | .of (.setProtoName protocolName) => some protocolName
  | .of (.parseUrl url) => (readUrl url).map UrlParts.proto
  | _ => none

/-- The host. -/
def writesHost : RequestCall → Option Str
  | .of (.setHost hostname) => some hostname
  | .of (.parseUrl url) => (readUrl url).map UrlParts.host
  | _ => none

/-- The port: a URL writes the one it names, or else the one of `https` or `ftp`. -/
def writesPort : RequestCall → Option Str
  | .of (.setPort portNumber) => some (decimal portNumber.toNat)
  | .of (.parseUrl url) => (readUrl url).bind fun u =>
    if !u.port.isEmpty then some u.port
    else if isHttps u.proto then some "443".toList
    else if isFtp u.proto then some "20".toList else none
  | _ => none

/-- The call changes the path. -/
def touchesPath : RequestCall → Bool
  | .of (.setPath _) | .of (.addPath _) => true
  | .of (.parseUrl url) => (readUrl url).isSome
  | _ => false

/-- The call changes the parameters. -/
def touchesParams : RequestCall → Bool
  | .of (.parseQuery _) | .of (.addQuery _) | .of (.setQuery _ _ _) | .of (.removeQuery _ _)
  | .of (.removeQueryArray _ _ _) | .of .clearQueries => true
  | .of (.parseUrl url) => (readUrl url).isSome
  | _ => false

/-- The call changes the headers or the body. -/
def touchesContainer : RequestCall → Bool
  | .header _ | .of (.setBody _) | .of (.setRequestBody _) | .of .clearBody | .of .clearHeaders
  | .of (.addHeaders _) => true
  | _ => false

/-! ## The calls, part by part -/

/-- `parse_url` writes each part of the URL, or nothing. -/
theorem parseUrl_eq_readUrl (r : BaseRequest) (url : Str) :
    r.parseUrl url = { r with
      proto := (writesProto (.of (.parseUrl url))).getD r.proto
      host := (writesHost (.of (.parseUrl url))).getD r.host
      path := ((readUrl url).map UrlParts.path).getD r.path
      ssl := (writesSsl (.of (.parseUrl url))).getD r.ssl
      port := (writesPort (.of (.parseUrl url))).getD r.port
      params := r.params ++ ((readUrl url).map fun u => queryParams u.query).getD [] } := by
  cases h : matchesPattern urlParseRegex url with
  | false =>
    have hread : readUrl url = none := if_neg (by rw [h]; decide)
    rw [BaseRequest.parseUrl_of_not_matches h]
    simp [writesProto, writesHost, writesSsl, writesPort, hread]
  | true =>
    have hread : readUrl url = some (urlParts url) := if_pos h
    rw [BaseRequest.parseUrl_of_matches h]
    simp only [writesProto, writesHost, writesSsl, writesPort, hread, Option.bind_some,
      Option.map_some, Option.getD_some]
    -- the ways in which a URL says something about the port and the flag
    cases isHttps (urlParts url).proto <;> cases isFtp (urlParts url).proto <;>
      cases (urlParts url).port.isEmpty <;> rfl

omit [Toolbox] [BoostRegex] in
theorem setPath_eq (r : BaseRequest) (path : Str) :
    r.setPath path = { r with path := (({ path := r.path } : BaseRequest).setPath path).path } := by
  unfold BaseRequest.setPath
  dsimp only
  split_ifs <;> rfl

omit [Toolbox] [BoostRegex] in
theorem addPath_eq (r : BaseRequest) (path : Str) :
    r.addPath path = { r with path := (({ path := r.path } : BaseRequest).addPath path).path } := by
  unfold BaseRequest.addPath
  dsimp only
  split_ifs <;> rfl

omit [BoostRegex] in
theorem parseQuery_eq_append (r : BaseRequest) (queryString : Str) :
    r.parseQuery queryString = { r with
      params := r.params ++ (({} : BaseRequest).parseQuery queryString).params } := by
  unfold BaseRequest.parseQuery
  dsimp only
  rw [BaseRequest.foldl_addQuery, BaseRequest.foldl_addQuery, List.nil_append]

/-- **Every part moves on its own**: what a call makes of it depends on nothing else. -/
theorem apply_eq (r : BaseRequest) (call : RequestCall) :
    call.apply r =
      { toIoContainer := (call.apply { toIoContainer := r.toIoContainer }).toIoContainer
        ssl := (writesSsl call).getD r.ssl
        method := (writesMethod call).getD r.method
        proto := (writesProto call).getD r.proto
        host := (writesHost call).getD r.host
        port := (writesPort call).getD r.port
        path := (call.apply { path := r.path }).path
        params := (call.apply { params := r.params }).params } := by
  -- most calls write their parts by definition; `parse_url` and the path calls read them first
  cases call with
  | header op => rfl
  | of op =>
    cases op with
    | parseUrl url =>
      simp only [apply, RequestOp.apply, parseUrl_eq_readUrl]
      rfl
    | setPath path =>
      have hpart (q : BaseRequest) : apply q (.of (.setPath path)) = { q with
          path := (apply { path := q.path } (.of (.setPath path))).path } := setPath_eq q path
      rw [hpart r, hpart { toIoContainer := r.toIoContainer }, hpart { params := r.params }]
      rfl
    | addPath path =>
      have hpart (q : BaseRequest) : apply q (.of (.addPath path)) = { q with
          path := (apply { path := q.path } (.of (.addPath path))).path } := addPath_eq q path
      rw [hpart r, hpart { toIoContainer := r.toIoContainer }, hpart { params := r.params }]
      rfl
    | parseQuery queryString =>
      have hpart (q : BaseRequest) : apply q (.of (.parseQuery queryString)) = { q with
          params := q.params ++ (({} : BaseRequest).parseQuery queryString).params } :=
        parseQuery_eq_append q queryString
      rw [hpart r, hpart { toIoContainer := r.toIoContainer }, hpart { path := r.path },
        hpart { params := r.params }]
      rfl
    | _ => rfl

/-- Headers and body. -/
def container : Component apply IoContainer where
  get := BaseRequest.toIoContainer
  step c call := (call.apply { toIoContainer := c }).toIoContainer
  touches := touchesContainer
  get_apply r call := (congrArg BaseRequest.toIoContainer (apply_eq r call) :)
  step_of_not_touches call h c := by
    cases call with
    | header op => cases h
    | of op =>
      cases op with
      | setBody _ | setRequestBody _ | clearBody | clearHeaders | addHeaders _ => cases h
      | parseUrl url => exact toIoContainer_parseUrl _ url
      | setPath path => exact toIoContainer_setPath _ path
      | addPath path => exact toIoContainer_addPath _ path
      | parseQuery queryString => exact toIoContainer_parseQuery _ queryString
      | _ => rfl

/-- The path. -/
def path : Component apply Str where
  get := BaseRequest.path
  step path call := (call.apply { path }).path
  touches := touchesPath
  get_apply r call := (congrArg BaseRequest.path (apply_eq r call) :)
  step_of_not_touches call h path := by
    cases call with
    | header op => rfl
    | of op =>
      cases op with
      | setPath _ | addPath _ => cases h
      | parseUrl url =>
        -- a URL that does not match the pattern changes nothing
        have hread : readUrl url = none := by simpa [touchesPath] using h
        change (BaseRequest.parseUrl { path } url).path = path
        rw [parseUrl_eq_readUrl, hread]
        rfl
      | parseQuery queryString =>
        exact congrArg BaseRequest.path (parseQuery_eq_append _ queryString)
      | _ => rfl

/-- The parameters. -/
def params : Component apply KvVector where
  get := BaseRequest.params
  step params call := (call.apply { params }).params
  touches := touchesParams
  get_apply r call := (congrArg BaseRequest.params (apply_eq r call) :)
  step_of_not_touches call h params := by
    cases call with
    | header op => rfl
    | of op =>
      cases op with
      | parseQuery _ | addQuery _ | setQuery _ _ _ | removeQuery _ _ | removeQueryArray _ _ _
      | clearQueries => cases h
      | parseUrl url =>
        -- a URL that does not match the pattern changes nothing
        have hread : readUrl url = none := by simpa [touchesParams] using h
        change (BaseRequest.parseUrl { params } url).params = params
        rw [parseUrl_eq_readUrl, hread]
        exact List.append_nil params
      | setPath path => exact congrArg BaseRequest.params (setPath_eq _ path)
      | addPath path => exact congrArg BaseRequest.params (addPath_eq _ path)
      | _ => rfl

/-! ## Runs -/

/-- Any sequence of calls. -/
def run (calls : List RequestCall) (r : BaseRequest) : BaseRequest := calls.foldl apply r

open Component in
/-- **A request after any run of calls.** Method, ssl flag, protocol, host and port are what was
written last, by a setter or by a URL that says something about them; headers and body, path
and parameters are what the calls that touch them make of them, one after the other. -/
theorem run_parts (calls : List RequestCall) (r : BaseRequest) :
    run calls r =
      { toIoContainer := (calls.filter touchesContainer).foldl container.step r.toIoContainer
        ssl := (lastWrite writesSsl calls).getD r.ssl
        method := (lastWrite writesMethod calls).getD r.method
        proto := (lastWrite writesProto calls).getD r.proto
        host := (lastWrite writesHost calls).getD r.host
        port := (lastWrite writesPort calls).getD r.port
        path := (calls.filter touchesPath).foldl path.step r.path
        params := (calls.filter touchesParams).foldl params.step r.params } := by
  -- five registers, and three components that the calls work on
  have hssl := get_register (fun r call => congrArg BaseRequest.ssl (apply_eq r call)) r calls
  have hmethod := get_register (fun r call => congrArg BaseRequest.method (apply_eq r call)) r calls
  have hproto := get_register (fun r call => congrArg BaseRequest.proto (apply_eq r call)) r calls
  have hhost := get_register (fun r call => congrArg BaseRequest.host (apply_eq r call)) r calls
  have hport := get_register (fun r call => congrArg BaseRequest.port (apply_eq r call)) r calls
  have hcontainer : (calls.foldl apply r).toIoContainer =
      (calls.filter touchesContainer).foldl container.step r.toIoContainer :=
    container.get_foldl_filter r calls
  have hpath : (calls.foldl apply r).path = (calls.filter touchesPath).foldl path.step r.path :=
    path.get_foldl_filter r calls
  have hparams : (calls.foldl apply r).params =
      (calls.filter touchesParams).foldl params.step r.params := params.get_foldl_filter r calls
  rw [← hssl, ← hmethod, ← hproto, ← hhost, ← hport, ← hcontainer, ← hpath, ← hparams]
  rfl

end RequestCall

/-- The parts of a request that calls change. -/
inductive RequestPart where
  | container | ssl | method | proto | host | port | path | params

/-- The call may change the part. -/
def RequestPart.touches : RequestPart → RequestCall → Bool
  | .container, call => call.touchesContainer
  | .ssl, call => call.writesSsl.isSome
  | .method, call => call.writesMethod.isSome
  | .proto, call => call.writesProto.isSome
  | .host, call => call.writesHost.isSome
  | .port, call => call.writesPort.isSome
  | .path, call => call.touchesPath
  | .params, call => call.touchesParams

omit [BoostRegex] in
/-- Calls that do not write can be left out of a run. -/
theorem lastWrite_filter {κ : Type*} (write : RequestCall → Option κ) (calls : List RequestCall) :
    Component.lastWrite write calls =
      Component.lastWrite write (calls.filter fun call => (write call).isSome) := by
  rw [Component.lastWrite, Component.lastWrite, List.filterMap_filter]
  congr 1
  apply List.filterMap_congr
  intro call _
  cases write call <;> rfl

/-- **The order of calls matters only within a part.** Two runs in which the calls that touch a
part are the same, in the same order, for each part, lead to the same request; so it has the
same URL and sends the same message. -/
theorem RequestCall.run_eq_of_parts {calls calls' : List RequestCall}
    (h : ∀ part : RequestPart, calls.filter part.touches = calls'.filter part.touches)
    (r : BaseRequest) : run calls r = run calls' r := by
  have hwrite {κ : Type} (write : RequestCall → Option κ)
      (h : calls.filter (fun call => (write call).isSome) =
        calls'.filter fun call => (write call).isSome) :
      Component.lastWrite write calls = Component.lastWrite write calls' := by
    rw [lastWrite_filter, h, ← lastWrite_filter]
  rw [run_parts, run_parts, hwrite writesSsl (h .ssl), hwrite writesMethod (h .method),
    hwrite writesProto (h .proto), hwrite writesHost (h .host), hwrite writesPort (h .port)]
  -- what was written last is the same, and so are the calls on the other parts
  have hcontainer : calls.filter touchesContainer = calls'.filter touchesContainer := h .container
  have hpath : calls.filter touchesPath = calls'.filter touchesPath := h .path
  have hparams : calls.filter touchesParams = calls'.filter touchesParams := h .params
  rw [hcontainer, hpath, hparams]

end Calls

/-- A host, a parameter and a header set in two orders. -/
theorem run_parts_interleaved :
    letI := Toolbox.reference
    letI := BoostRegex.reference
    let host : RequestCall := .of (.setHost "h".toList)
    let param : RequestCall := .of (.addQuery ("a".toList, "1".toList))
    let header : RequestCall := .header (.addHeader "X".toList "y".toList)
    RequestCall.run [host, param, header] {} = RequestCall.run [header, host, param] {} := by
  let := Toolbox.reference
  let := BoostRegex.reference
  intro host param header
  refine RequestCall.run_eq_of_parts (fun part => ?_) {}
  cases part <;> rfl

end Httb
