import Httb.AsyncSession
import Httb.Exchange
import Httb.Foundation.Chains
import Httb.Url

/-!
# The Blocking and the Asynchronous Client

`client::execute_blocking` and `client::execute_in_context` (`src/client.cpp`) with their
redirects. The transport is a parameter: for the blocking client it says how the steps of
each exchange end, for the asynchronous one what each session reports (a session makes one
report, see `Httb.SessionOutcome`). Both functions can run forever, so they take fuel;
their trace lists the requests that they hand to the transport.
-/

namespace Httb

open Httb.Foundation

/-- The settings of `client_base` that decide about redirects. -/
structure Client where
  followRedirects : Bool := true
  maxRedirectBounces : Int := 5

/-- The statuses that both clients take for a redirect. -/
def isRedirectStatus (status : HttpStatus) : Bool :=
  status = .moved_permanently || status = .found || status = .temporary_redirect ||
    status = .permanent_redirect

/-- What becomes of the caller's response callback. -/
inductive CallbackEffect where
  | called (resp : Response)
  /-- Calling an empty `std::function` throws. -/
  | threw
  | skipped
  deriving DecidableEq

/-- `cb(resp)`. -/
def invoke (cb : Bool) (resp : Response) : CallbackEffect := if cb then .called resp else .threw

/-- `if (cb) cb(resp);` -/
def invokeIfSet (cb : Bool) (resp : Response) : CallbackEffect :=
  if cb then .called resp else .skipped

/-- How the success lambda of `execute_in_context` ends. -/
inductive AfterSession where
  | finished (effect : CallbackEffect)
  | executeAgain (redirectRequest : BaseRequest)

section Definitions

variable [Toolbox] [BoostRegex] [BoostErrors]

/-- The copy of the request that follows a redirect. -/
def redirectRequest (request : BaseRequest) (resp : Response) : BaseRequest :=
  request.parseUrl (resp.getHeaderValue "location".toList)

/-! ## execute_blocking -/

mutual

/-- `execute_blocking`. -/
def executeBlocking (client : Client) (net : BaseRequest → Outcomes) :
    ℕ → BaseRequest → Traced BaseRequest Response
  | 0, _ => .pending
  | n + 1, request => .emit request <|
    match exchange request.ssl (net request) with
    | .failed resp => .done resp
    | .answered resp =>
      if client.followRedirects then redirectLoop client net n request 0 resp else .done resp

/-- The `while` loop of `execute_blocking`. Every pass starts from the original request, and
the nested call counts its own bounces from 0. -/
def redirectLoop (client : Client) (net : BaseRequest → Outcomes) :
    ℕ → BaseRequest → (redirectBounces : Int) → Response → Traced BaseRequest Response
  | 0, _, _, _ => .pending
  | n + 1, request, redirectBounces, resp =>
    if redirectBounces < client.maxRedirectBounces ∧ isRedirectStatus resp.status then
      -- this returns from the function, not only from the loop
      if !resp.hasHeader "location".toList then .done resp
      else
        -- the copy is made of `request`, not of the request that was redirected last
        .bind (executeBlocking client net n (redirectRequest request resp)) fun resp =>
          redirectLoop client net n request (redirectBounces + 1) resp
    else .done resp

end

/-! ## execute_in_context -/

/-- The error lambda. -/
def onError (cb : Bool) (ec : ErrorCode) (wtf : Str) : CallbackEffect :=
  let resp : Response := {}
  let res := boostErrToRepErr resp ec
  let body := res.getBody
  let body := body ++ ("::".toList ++ wtf)
  invoke cb (res.setBody body)

omit [BoostErrors] in
/-- The success lambda; `request` is what its captured reference holds. -/
def onSuccess (client : Client) (cb : Bool) (request : BaseRequest) (result : BeastResponse) :
    AfterSession :=
  let resp := responseOfAsync result
  if client.followRedirects && isRedirectStatus resp.status then
    -- here `cb` is called without a look at whether it is set
    if !resp.hasHeader "location".toList then .finished (invoke cb resp)
    else .executeAgain (redirectRequest request resp)
  else .finished (invokeIfSet cb resp)

/-- The lambda that the report of a session runs; `captured` is what the copy of the request
is made of. -/
def onReport (client : Client) (cb : Bool) (captured : BaseRequest) : SessionReport → AfterSession
  | .error ec wtf => .finished (onError cb ec wtf)
  | .success result _ => onSuccess client cb captured result

/-- `execute_in_context`, when the captured request keeps the value that the session sent. The
variable that the lambda refers to is not modelled here; see `Httb.Runtime`. -/
def executeInContext (client : Client) (cb : Bool) (session : BaseRequest → SessionReport) :
    ℕ → BaseRequest → Traced BaseRequest CallbackEffect
  | 0, _ => .pending
  | n + 1, request => .emit request <|
    match session request with
    | .error ec wtf => .done (onError cb ec wtf)
    | .success result _ =>
      match onSuccess client cb request result with
      | .finished effect => .done effect
      | .executeAgain request' => executeInContext client cb session n request'

/-- One session and its lambda. -/
theorem executeInContext_eq_onReport (client : Client) (cb : Bool)
    (session : BaseRequest → SessionReport) (n : ℕ) (request : BaseRequest) :
    executeInContext client cb session (n + 1) request = .emit request
      (match onReport client cb request (session request) with
        | .finished effect => .done effect
        | .executeAgain request' => executeInContext client cb session n request') := by
  rw [executeInContext]
  cases session request <;> rfl

end Definitions

end Httb
