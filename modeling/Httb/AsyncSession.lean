import Httb.BaseRequest
import Httb.Response

/-!
# The Asynchronous Session

`httb::async_session` (`src/async_session.cpp`): one request as a chain of asynchronous
operations. A handler gets the error code of the operation that completed and starts the
next one, or calls one of the two callbacks that `run` was given. What Asio and Beast do is
a parameter: a `Completion` holds what an operation leaves behind, with the state of the
response parser and the result of the shutdown.

The state keeps a log of what the session did, in order.
-/

namespace Httb

/-- The streams that a session reads and writes. -/
inductive StreamKind where
  | raw | ssl
  deriving DecidableEq

/-- The asynchronous operations that a session starts. -/
inductive Operation where
  | resolve
  | connect
  | handshake
  | write (stream : StreamKind)
  | read (stream : StreamKind)
  | readSome (stream : StreamKind)
  deriving DecidableEq

/-- The operation is `http::async_read` or `http::async_read_some`. -/
def Operation.isRead : Operation → Bool
  | .read _ => true
  | .readSome _ => true
  | _ => false

/-- What httb uses of `http::response_parser`. -/
structure ResponseParser where
  isDone : Bool := false
  contentLength : Option UInt64 := none
  contentLengthRemaining : Option UInt64 := none
  message : BeastResponse := {}
  deriving DecidableEq

/-- What an operation leaves behind when it completes. Only reads touch the parser, and
only the last one is followed by a shutdown. -/
structure Completion where
  ec : ErrorCode := {}
  bytesTransferred : ℕ := 0
  response : ResponseParser := {}
  shutdown : ErrorCode := {}

/-- A call of one of the two callbacks of `run`. -/
inductive SessionReport where
  | error (ec : ErrorCode) (wtf : Str)
  | success (message : BeastResponse) (bytesTransferred : ℕ)
  deriving DecidableEq

/-- What the log of a session records. -/
inductive SessionEvent where
  | started (op : Operation)
  | completed (op : Operation) (ec : ErrorCode)
  | progressed (loaded total : UInt64) (progress : Rat)
  | reported (report : SessionReport)
  deriving DecidableEq

/-- The report that an event records. -/
def SessionEvent.asReport : SessionEvent → Option SessionReport
  | .reported report => some report
  | _ => none

/-- `httb::async_session`; of the callbacks only whether they are set. -/
structure AsyncSession where
  requestRaw : BaseRequest
  errorFunc : Bool := false
  successFunc : Bool := false
  progressFunc : Bool := false
  response : ResponseParser := {}
  pending : List Operation := []
  log : List SessionEvent := []

namespace AsyncSession

/-- `m_ignored_errors`. -/
def ignoredErrors : List ErrorCode := [.streamTruncated, .eof]

/-- `is_ignored_error`. -/
def isIgnoredError (ec : ErrorCode) : Bool := ignoredErrors.contains ec

/-- `set_on_progress_cb`; `set` says that the function is not empty. -/
def setOnProgressCb (s : AsyncSession) (set : Bool) : AsyncSession := { s with progressFunc := set }

/-! ## Starting operations and calling back -/

/-- Start an asynchronous operation. -/
def start (s : AsyncSession) (op : Operation) : AsyncSession :=
  { s with pending := s.pending ++ [op], log := s.log ++ [.started op] }

/-- Call `m_progress_func`. -/
def tellProgress (s : AsyncSession) (loaded total : UInt64) (progress : Rat) : AsyncSession :=
  { s with log := s.log ++ [.progressed loaded total progress] }

/-- `fail`. -/
def fail (s : AsyncSession) (ec : ErrorCode) (where_ : Str) : AsyncSession :=
  if s.errorFunc then { s with log := s.log ++ [.reported (.error ec where_)] } else s

/-- `read_response_ssl` and `read_response_plain`, which differ in the stream. -/
def readResponseFrom (stream : StreamKind) (s : AsyncSession) : AsyncSession :=
  if s.progressFunc then s.start (.readSome stream)
  else s.start (.read stream)

/-- `read_response_ssl`. -/
def readResponseSsl (s : AsyncSession) : AsyncSession := readResponseFrom .ssl s

/-- `read_response_plain`. -/
def readResponsePlain (s : AsyncSession) : AsyncSession := readResponseFrom .raw s

/-- `read_response`. -/
def readResponse (s : AsyncSession) : AsyncSession :=
  if s.requestRaw.ssl then s.readResponseSsl else s.readResponsePlain

/-! ## The handlers -/

/-- `run`; the arguments say that the functions are not empty. -/
def run (s : AsyncSession) (onError onSuccess : Bool) : AsyncSession :=
  { s with errorFunc := onError, successFunc := onSuccess }.start .resolve

/-- `on_resolve`. -/
def onResolve (s : AsyncSession) (ec : ErrorCode) : AsyncSession :=
  if ec.failed && !isIgnoredError ec then s.fail ec "resolve".toList
  else s.start .connect

/-- `on_connect`. -/
def onConnect (s : AsyncSession) (ec : ErrorCode) : AsyncSession :=
  if ec.failed && !isIgnoredError ec then s.fail ec "connect".toList
  else if s.requestRaw.ssl then s.start .handshake
  -- a plain connection is written to at once
  else s.start (.write .raw)

/-- `on_ssl_handshake`. -/
def onSslHandshake (s : AsyncSession) (ec : ErrorCode) : AsyncSession :=
  if ec.failed && !isIgnoredError ec then s.fail ec "handshake".toList
  else s.start (.write .ssl)

/-- `on_write`. -/
def onWrite (s : AsyncSession) (ec : ErrorCode) : AsyncSession :=
  if ec.failed && !isIgnoredError ec then s.fail ec "write".toList
  else s.readResponse

/-- The progress that `on_read` tells when the response is complete. -/
def tellDone (s : AsyncSession) : AsyncSession :=
  if s.progressFunc then
    let totalLen := s.response.contentLength.getD 0
    if totalLen = 0 then s.tellProgress 0 0 0 else s.tellProgress totalLen totalLen 1
  else s

/-- The progress that `on_read` tells between two reads. The quotient of the source is
rounded to a `double`. -/
def tellLoaded (s : AsyncSession) : AsyncSession :=
  if s.progressFunc then
    let totalLen := s.response.contentLength.getD 0
    let remain := s.response.contentLengthRemaining.getD 0
    if totalLen = 0 then s.tellProgress 0 0 0
    else
      let loaded := totalLen - remain
      s.tellProgress loaded totalLen ((loaded.toNat : Rat) / totalLen.toNat)
  else s

/-- `on_read`; `shutdown` is the code that the shutdown assigns. -/
def onRead (s : AsyncSession) (ec : ErrorCode) (bytesTransferred : ℕ) (shutdown : ErrorCode) :
    AsyncSession :=
  if ec.failed && !isIgnoredError ec then s.fail ec "read".toList
  else if s.response.isDone then
    -- the shutdown assigns to the handler's own `ec`
    let ec := shutdown
    if ec.failed && !isIgnoredError ec && !ec.isNotConnected then s.fail ec "shutdown".toList
    else
      let s := s.tellDone
      if s.successFunc then
        { s with log := s.log ++ [.reported (.success s.response.message bytesTransferred)] }
      else s
  -- the code of the read is not looked at again
  else s.tellLoaded.readResponse

/-! ## Completions -/

/-- The handler that an operation was started with. -/
def handle (s : AsyncSession) (op : Operation) (c : Completion) : AsyncSession :=
  match op with
  | .resolve => s.onResolve c.ec
  | .connect => s.onConnect c.ec
  | .handshake => s.onSslHandshake c.ec
  | .write _ => s.onWrite c.ec
  | .read _ => { s with response := c.response }.onRead c.ec c.bytesTransferred c.shutdown
  | .readSome _ => { s with response := c.response }.onRead c.ec c.bytesTransferred c.shutdown

/-- The operation is pending no more. -/
def dequeue (s : AsyncSession) (op : Operation) (ec : ErrorCode) : AsyncSession :=
  { s with pending := s.pending.erase op, log := s.log ++ [.completed op ec] }

/-- A pending operation completes, and its handler runs. -/
def complete (s : AsyncSession) (op : Operation) (c : Completion) : AsyncSession :=
  (s.dequeue op c.ec).handle op c

/-- The steps of a session: any operation that is pending completes in any way. -/
inductive Step : AsyncSession → Operation × Completion → AsyncSession → Prop where
  | complete (s : AsyncSession) (op : Operation) (c : Completion) (h : op ∈ s.pending) :
      Step s (op, c) (s.complete op c)

/-- A session that was constructed for the request and has been run with both callbacks. -/
def started (request : BaseRequest) (progress : Bool) : AsyncSession :=
  ({ requestRaw := request : AsyncSession }.setOnProgressCb progress).run true true

/-- The terminal callbacks that were made. -/
def reports (s : AsyncSession) : List SessionReport := s.log.filterMap SessionEvent.asReport

end AsyncSession

end Httb
