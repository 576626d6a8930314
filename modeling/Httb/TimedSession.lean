import Httb.SessionOutcome

/-!
# The Streams and the Timer of a Session

`httb::async_session` again (`src/async_session.cpp`), with what `Httb.AsyncSession` leaves out:
the two pointers of which the constructor sets one, and the timer of the TCP stream, which
`expires_after` and `expires_never` set between the operations. An operation on the stream runs
under the deadline that the timer has when it starts. Time is counted in seconds and only goes
forward.

## Layers

- `TimedSession`: every access goes through a pointer, and is undefined where it is null
- `Settings.next`, `Settings.nextDeadline`: the operation that comes after another one, and the
  deadline that belongs to it
- `handledAs_handle`: every handler ends as the one of the session without streams, and what it
  starts is what is next
-/

namespace Httb

open Httb.Foundation

/-- What is set of `beast::tcp_stream`: when the operations on it expire. -/
structure TcpStream where
  expiry : Option ℕ := none
  deriving DecidableEq

/-- An operation that was started, when, and the deadline it runs under. -/
structure StartedOperation where
  op : Operation
  time : ℕ
  deadline : Option ℕ
  deriving DecidableEq

/-- The operation that an event starts. -/
def SessionEvent.asStarted : SessionEvent → Option Operation
  | .started op => some op
  | _ => none

/-- The operation is `http::async_write`. -/
def Operation.isWrite : Operation → Bool
  | .write _ => true
  | _ => false

/-- `httb::async_session` with its streams. `none` is `nullptr`; of the TLS stream only the TCP
stream below it matters here. `history` logs what was started. -/
structure TimedSession where
  session : AsyncSession
  connTimeout : ℕ
  readTimeout : ℕ
  streamRaw : Option TcpStream := none
  streamSsl : Option TcpStream := none
  now : ℕ := 0
  history : List StartedOperation := []

namespace TimedSession

/-! ## The constructor and the streams -/

/-- The constructor. -/
def construct (request : BaseRequest) (connTimeout readTimeout now : ℕ) : TimedSession :=
  let t : TimedSession := { session := { requestRaw := request }, connTimeout, readTimeout, now }
  if request.ssl then { t with streamSsl := some {} } else { t with streamRaw := some {} }

/-- `stream()`. -/
def stream (t : TimedSession) : Option TcpStream :=
  if t.session.requestRaw.ssl then t.streamSsl else t.streamRaw

/-- Write through `stream()`, which must not be null. -/
def onStream (t : TimedSession) (f : TcpStream → TcpStream) : Option TimedSession :=
  t.stream.map fun s =>
    if t.session.requestRaw.ssl then { t with streamSsl := some (f s) }
    else { t with streamRaw := some (f s) }

/-- `stream()->expires_after`. -/
def expiresAfter (t : TimedSession) (seconds : ℕ) : Option TimedSession :=
  t.onStream fun s => { s with expiry := some (t.now + seconds) }

/-- `stream()->expires_never`. -/
def expiresNever (t : TimedSession) : Option TimedSession :=
  t.onStream fun s => { s with expiry := none }

/-- The pointer that an operation is started through, and the deadline it finds there. The
resolver is not a stream. -/
def deadlineOf (t : TimedSession) : Operation → Option (Option ℕ)
  | .resolve => some none
  | .connect => t.stream.map TcpStream.expiry
  | .handshake => t.streamSsl.map TcpStream.expiry
  | .write .raw => t.stream.map TcpStream.expiry
  | .write .ssl => t.streamSsl.map TcpStream.expiry
  | .read .raw | .readSome .raw => t.streamRaw.map TcpStream.expiry
  | .read .ssl | .readSome .ssl => t.streamSsl.map TcpStream.expiry

/-- Start an asynchronous operation. -/
def start (t : TimedSession) (op : Operation) : Option TimedSession :=
  (t.deadlineOf op).map fun deadline =>
    { t with
      session := t.session.start op
      history := t.history ++ [⟨op, t.now, deadline⟩] }

/-- What does not touch a stream. -/
def onSession (t : TimedSession) (f : AsyncSession → AsyncSession) : TimedSession :=
  { t with session := f t.session }

/-! ## The handlers -/

/-- `read_response_ssl` and `read_response_plain`. -/
def readResponseFrom (stream : StreamKind) (t : TimedSession) : Option TimedSession :=
  if t.session.progressFunc then t.start (.readSome stream) else t.start (.read stream)

/-- `read_response`. -/
def readResponse (t : TimedSession) : Option TimedSession :=
  if t.session.requestRaw.ssl then readResponseFrom .ssl t else readResponseFrom .raw t

/-- `run`. -/
def run (t : TimedSession) (onError onSuccess : Bool) : Option TimedSession :=
  (t.onSession fun s => { s with errorFunc := onError, successFunc := onSuccess }).start .resolve

/-- `on_resolve`. -/
def onResolve (t : TimedSession) (ec : ErrorCode) : Option TimedSession :=
  if ec.failed && !AsyncSession.isIgnoredError ec then
    some (t.onSession fun s => s.fail ec "resolve".toList)
  else (t.expiresAfter t.connTimeout).bind fun t => t.start .connect

/-- `on_connect`. -/
def onConnect (t : TimedSession) (ec : ErrorCode) : Option TimedSession :=
  if ec.failed && !AsyncSession.isIgnoredError ec then
    some (t.onSession fun s => s.fail ec "connect".toList)
  else if t.session.requestRaw.ssl then t.start .handshake
  else t.expiresNever.bind fun t => t.start (.write .raw)

/-- `on_ssl_handshake`. -/
def onSslHandshake (t : TimedSession) (ec : ErrorCode) : Option TimedSession :=
  if ec.failed && !AsyncSession.isIgnoredError ec then
    some (t.onSession fun s => s.fail ec "handshake".toList)
  else t.expiresNever.bind fun t => t.start (.write .ssl)

/-- `on_write`. -/
def onWrite (t : TimedSession) (ec : ErrorCode) : Option TimedSession :=
  if ec.failed && !AsyncSession.isIgnoredError ec then
    some (t.onSession fun s => s.fail ec "write".toList)
  else (t.expiresAfter t.readTimeout).bind readResponse

/-- `on_read`. -/
def onRead (t : TimedSession) (ec : ErrorCode) (bytesTransferred : ℕ) (shutdown : ErrorCode) :
    Option TimedSession :=
  if ec.failed && !AsyncSession.isIgnoredError ec then
    some (t.onSession fun s => s.fail ec "read".toList)
  else if t.session.response.isDone then
    -- the socket is shut down through `stream()`
    t.stream.map fun _ => t.onSession fun s => s.onRead ec bytesTransferred shutdown
  else (t.onSession AsyncSession.tellLoaded).readResponse

/-- The handler that an operation was started with. -/
def handle (t : TimedSession) (op : Operation) (c : Completion) : Option TimedSession :=
  match op with
  | .resolve => t.onResolve c.ec
  | .connect => t.onConnect c.ec
  | .handshake => t.onSslHandshake c.ec
  | .write _ => t.onWrite c.ec
  | .read _ | .readSome _ =>
    (t.onSession fun s => { s with response := c.response }).onRead c.ec c.bytesTransferred
      c.shutdown

/-- A pending operation completes at the given time, and its handler runs. -/
def complete (t : TimedSession) (op : Operation) (c : Completion) (now : ℕ) :
    Option TimedSession :=
  ({ t with now }.onSession fun s => s.dequeue op c.ec).handle op c

/-- A completion of a pending operation, no earlier than what happened last. -/
structure TimedCompletion where
  op : Operation
  completion : Completion
  now : ℕ

/-- The steps of a session against the clock. -/
inductive Step : TimedSession → TimedCompletion → TimedSession → Prop where
  | complete (t t' : TimedSession) (e : TimedCompletion) (hop : e.op ∈ t.session.pending)
      (hnow : t.now ≤ e.now) (h : t.complete e.op e.completion e.now = some t') : Step t e t'

/-- A session that was constructed and has been run with both callbacks. -/
def started (request : BaseRequest) (progress : Bool) (connTimeout readTimeout now : ℕ) :
    Option TimedSession :=
  ((construct request connTimeout readTimeout now).onSession fun s =>
    s.setOnProgressCb progress).run true true

/-! ## The settings of a session -/

/-- What the order and the deadlines of the operations depend on. -/
structure Settings where
  ssl : Bool
  progress : Bool
  connTimeout : ℕ
  readTimeout : ℕ

namespace Settings

/-- The stream that is written and read. -/
def stream (k : Settings) : StreamKind := if k.ssl then .ssl else .raw

/-- The read that `read_response` starts. -/
def read (k : Settings) : Operation :=
  if k.progress then .readSome k.stream else .read k.stream

/-- The operation that comes after another one. -/
def next (k : Settings) : Operation → Operation
  | .resolve => .connect
  | .connect => if k.ssl then .handshake else .write .raw
  | .handshake => .write .ssl
  | .write _ | .read _ | .readSome _ => k.read

/-- The deadline of that operation, when it starts now; `deadline` is the one before. -/
def nextDeadline (k : Settings) (now : ℕ) (deadline : Option ℕ) : Operation → Option ℕ
  | .resolve => some (now + k.connTimeout)
  -- TLS has what is left of the time for connecting
  | .connect => if k.ssl then deadline else none
  | .handshake => none
  | .write _ => some (now + k.readTimeout)
  | .read _ | .readSome _ => deadline

/-- One operation follows another: it is the next one, under the deadline of the next one. -/
structure Follows (k : Settings) (a b : StartedOperation) : Prop where
  op : b.op = k.next a.op
  deadline : b.deadline = k.nextDeadline b.time a.deadline a.op
  time : a.time ≤ b.time

end Settings

/-- The settings, which nothing changes. -/
def settings (t : TimedSession) : Settings :=
  ⟨t.session.requestRaw.ssl, t.session.progressFunc, t.connTimeout, t.readTimeout⟩

/-- The one stream that there is, with its deadline. -/
structure Allocated (deadline : Option ℕ) (t : TimedSession) : Prop where
  ssl : t.streamSsl = if t.session.requestRaw.ssl then some ⟨deadline⟩ else none
  raw : t.streamRaw = if t.session.requestRaw.ssl then none else some ⟨deadline⟩

/-- The operation is one on the stream that there is. -/
def Settings.Uses (k : Settings) : Operation → Prop
  | .handshake => k.ssl = true
  | .write stream | .read stream | .readSome stream => stream = k.stream
  | .resolve | .connect => True

variable {t t' : TimedSession} {d : Option ℕ}

theorem Allocated.stream (h : Allocated d t) : t.stream = some ⟨d⟩ := by
  rw [TimedSession.stream, h.ssl, h.raw]
  split <;> rfl

/-- The TCP stream with another deadline. -/
def withExpiry (t : TimedSession) (d : Option ℕ) : TimedSession :=
  if t.session.requestRaw.ssl then { t with streamSsl := some ⟨d⟩ }
  else { t with streamRaw := some ⟨d⟩ }

theorem Allocated.onStream (h : Allocated d t) (d' : Option ℕ) :
    (t.onStream fun s => { s with expiry := d' }) = some (t.withExpiry d') := by
  rw [TimedSession.onStream, h.stream, withExpiry]
  rfl

theorem Allocated.withExpiry (h : Allocated d t) (d' : Option ℕ) :
    Allocated d' (t.withExpiry d') := by
  rw [TimedSession.withExpiry]
  cases hssl : t.session.requestRaw.ssl with
  | true => exact ⟨by simp [hssl], by simpa [hssl] using h.raw⟩
  | false => exact ⟨by simpa [hssl] using h.ssl, by simp [hssl]⟩

@[simp] theorem session_withExpiry : (t.withExpiry d).session = t.session := by
  rw [withExpiry]
  split <;> rfl

@[simp] theorem now_withExpiry : (t.withExpiry d).now = t.now := by
  rw [withExpiry]
  split <;> rfl

@[simp] theorem history_withExpiry : (t.withExpiry d).history = t.history := by
  rw [withExpiry]
  split <;> rfl

@[simp] theorem settings_withExpiry : (t.withExpiry d).settings = t.settings := by
  rw [withExpiry]
  split <;> rfl

/-- An operation on the stream that there is starts, under its deadline. -/
theorem Allocated.start (h : Allocated d t) {op : Operation} (hne : op ≠ .resolve)
    (hop : t.settings.Uses op) :
    t.start op = some { t with
      session := t.session.start op
      history := t.history ++ [⟨op, t.now, d⟩] } := by
  have hssl := h.ssl
  have hraw := h.raw
  -- every operation but the handshake goes to the stream that the session uses
  have hdeadline : t.deadlineOf op = some d := by
    cases op with
    | resolve => exact absurd rfl hne
    | connect => rw [deadlineOf, h.stream]; rfl
    | handshake =>
      have hop : t.session.requestRaw.ssl = true := hop
      rw [deadlineOf, hssl, hop]; rfl
    | write stream =>
      have hop : stream = t.settings.stream := hop
      subst hop
      unfold Settings.stream settings
      cases hkind : t.session.requestRaw.ssl with
      | true => simp [deadlineOf, hssl, hkind]
      | false => simp [deadlineOf, h.stream]
    | read stream =>
      have hop : stream = t.settings.stream := hop
      subst hop
      unfold Settings.stream settings
      cases hkind : t.session.requestRaw.ssl with
      | true => simp [deadlineOf, hssl, hkind]
      | false => simp [deadlineOf, hraw, hkind]
    | readSome stream =>
      have hop : stream = t.settings.stream := hop
      subst hop
      unfold Settings.stream settings
      cases hkind : t.session.requestRaw.ssl with
      | true => simp [deadlineOf, hssl, hkind]
      | false => simp [deadlineOf, hraw, hkind]
  rw [TimedSession.start, hdeadline]
  rfl

/-! ## How a handler ends -/

/-- The code is success, or one that the handlers ignore. -/
def Passes (ec : ErrorCode) : Prop := (ec.failed && !AsyncSession.isIgnoredError ec) = false

/-- The untimed handler went from `s` to `s'` without a new request or callback. -/
structure Keeps (s s' : AsyncSession) : Prop where
  requestRaw : s'.requestRaw = s.requestRaw
  progressFunc : s'.progressFunc = s.progressFunc

/-- A handler ended as the untimed one, in `s'`: it started nothing and left the stream alone,
or it set the deadline `d` and started `op`. -/
inductive HandledAs (t : TimedSession) (s' : AsyncSession) (ec : ErrorCode) (op : Operation)
    (d : Option ℕ) : Option TimedSession → Prop where
  | reports (hkeeps : Keeps t.session s') (hpending : s'.pending = t.session.pending) :
      HandledAs t s' ec op d (some (t.onSession fun _ => s'))
  | starts (hpasses : Passes ec) (hkeeps : Keeps t.session s')
      (hpending : s'.pending = t.session.pending ++ [op]) :
      HandledAs t s' ec op d (some { t.withExpiry d with
        session := s', history := t.history ++ [⟨op, t.now, d⟩] })

theorem keeps_fail (s : AsyncSession) (ec : ErrorCode) (where_ : Str) :
    Keeps s (s.fail ec where_) ∧ (s.fail ec where_).pending = s.pending := by
  rw [AsyncSession.fail]
  split
  · exact ⟨⟨rfl, rfl⟩, rfl⟩
  · exact ⟨⟨rfl, rfl⟩, rfl⟩

/-- A stage before the response: it fails, or sets a deadline and starts what is next. -/
theorem handledAs_stage {ec : ErrorCode} {where_ : Str} {op : Operation}
    {next : Option TimedSession}
    (hnext : next = some { t.withExpiry d with
      session := t.session.start op, history := t.history ++ [⟨op, t.now, d⟩] }) :
    HandledAs t
      (if ec.failed && !AsyncSession.isIgnoredError ec then t.session.fail ec where_
        else t.session.start op) ec op d
      (if ec.failed && !AsyncSession.isIgnoredError ec then
        some (t.onSession fun s => s.fail ec where_) else next) := by
  split
  · exact .reports (keeps_fail _ _ _).1 (keeps_fail _ _ _).2
  · rename_i hec
    rw [hnext]
    exact .starts (by simpa [Passes] using hec) ⟨rfl, rfl⟩ rfl

/-- To set a deadline and start an operation. -/
theorem Allocated.start_withExpiry (h : Allocated d t) (d' : Option ℕ) {op : Operation}
    (hne : op ≠ .resolve) (hop : t.settings.Uses op) :
    (t.withExpiry d').start op = some { t.withExpiry d' with
      session := t.session.start op, history := t.history ++ [⟨op, t.now, d'⟩] } := by
  rw [(h.withExpiry d').start hne (by rwa [settings_withExpiry])]
  simp

/-- To start one under the deadline that is set. -/
theorem Allocated.withExpiry_self (h : Allocated d t) : t.withExpiry d = t := by
  have hssl := h.ssl
  have hraw := h.raw
  rw [TimedSession.withExpiry]
  obtain ⟨session, connTimeout, readTimeout, streamRaw, streamSsl, now, history⟩ := t
  simp only at hssl hraw ⊢
  cases hkind : session.requestRaw.ssl with
  | true => rw [hkind] at hssl; simp [hssl]
  | false => rw [hkind] at hraw; simp [hraw]

theorem Allocated.readResponse (h : Allocated d t) :
    t.session.readResponse = t.session.start t.settings.read ∧
      t.readResponse = some { t with
        session := t.session.start t.settings.read
        history := t.history ++ [⟨t.settings.read, t.now, d⟩] } := by
  have hread : t.settings.read ≠ .resolve ∧ t.settings.Uses t.settings.read := by
    unfold Settings.read
    split
    · exact ⟨nofun, rfl⟩
    · exact ⟨nofun, rfl⟩
  rw [← h.start hread.1 hread.2]
  unfold AsyncSession.readResponse TimedSession.readResponse Settings.read Settings.stream settings
    AsyncSession.readResponseSsl AsyncSession.readResponsePlain AsyncSession.readResponseFrom
    TimedSession.readResponseFrom
  cases t.session.requestRaw.ssl <;> cases t.session.progressFunc <;> exact ⟨rfl, rfl⟩

/-- Reading goes on, or the untimed handler has come to an end of its own. -/
theorem handledAs_onRead (h : Allocated d t) (ec : ErrorCode) (n : ℕ) (shutdown : ErrorCode) :
    HandledAs t (t.session.onRead ec n shutdown) ec t.settings.read d (t.onRead ec n shutdown) := by
  unfold TimedSession.onRead
  cases hec : ec.failed && !AsyncSession.isIgnoredError ec with
  | true =>
    have hfails : t.session.onRead ec n shutdown = t.session.fail ec "read".toList := by
      rw [AsyncSession.onRead, if_pos hec]
    rw [if_pos rfl, hfails]
    exact .reports (keeps_fail _ _ _).1 (keeps_fail _ _ _).2
  | false =>
    rw [if_neg Bool.false_ne_true]
    cases hdone : t.session.response.isDone with
    | true =>
      have hends : Keeps t.session (t.session.onRead ec n shutdown) ∧
          (t.session.onRead ec n shutdown).pending = t.session.pending := by
        obtain ⟨told, -, htold⟩ := (AsyncSession.exists_told t.session).1
        rw [AsyncSession.onRead, hec, hdone]
        simp only [Bool.false_eq_true, if_false, if_true, htold]
        split
        · exact keeps_fail _ _ _
        · split
          · exact ⟨⟨rfl, rfl⟩, rfl⟩
          · exact ⟨⟨rfl, rfl⟩, rfl⟩
      rw [if_pos rfl, h.stream]
      exact .reports hends.1 hends.2
    | false =>
      -- the progress is told before the next read starts
      obtain ⟨told, -, htold⟩ := (AsyncSession.exists_told t.session).2
      have hreads : t.session.onRead ec n shutdown = t.session.tellLoaded.readResponse := by
        rw [AsyncSession.onRead, hec, hdone]
        rfl
      have htells : Allocated d (t.onSession AsyncSession.tellLoaded) := by
        rw [onSession, htold]
        exact ⟨h.ssl, h.raw⟩
      have hsettings : (t.onSession AsyncSession.tellLoaded).settings = t.settings := by
        rw [onSession, htold]
        rfl
      obtain ⟨hsession, htimed⟩ := htells.readResponse
      rw [if_neg Bool.false_ne_true, htimed, hsettings, hreads]
      have hstarted : t.session.tellLoaded.readResponse =
          t.session.tellLoaded.start t.settings.read := by
        rw [← hsettings]
        exact hsession
      rw [hstarted]
      have hself := h.withExpiry_self
      have hstarts : HandledAs t (t.session.tellLoaded.start t.settings.read) ec
          t.settings.read d _ :=
        .starts hec (by rw [htold]; exact ⟨rfl, rfl⟩) (by rw [htold]; rfl)
      rw [hself] at hstarts
      exact hstarts

/-- **Every handler ends as the untimed one**, and what it starts is what is next, under the
deadline that belongs to it. -/
theorem handledAs_handle (h : Allocated d t) {op : Operation} (hop : t.settings.Uses op)
    (c : Completion) :
    HandledAs t (t.session.handle op c) c.ec (t.settings.next op)
      (t.settings.nextDeadline t.now d op) (t.handle op c) := by
  -- both reads: the parser is assigned, and the stream keeps the deadline that it has
  have hread : HandledAs t
      ({ t.session with response := c.response }.onRead c.ec c.bytesTransferred c.shutdown) c.ec
      t.settings.read d ((t.onSession fun s => { s with response := c.response }).onRead c.ec
        c.bytesTransferred c.shutdown) := by
    have hparsed : Allocated d (t.onSession fun s => { s with response := c.response }) :=
      ⟨h.ssl, h.raw⟩
    have hends := handledAs_onRead hparsed c.ec c.bytesTransferred c.shutdown
    generalize (t.onSession fun s => { s with response := c.response }).onRead c.ec
      c.bytesTransferred c.shutdown = r at hends ⊢
    cases hends with
    | reports hkeeps hpending => exact .reports ⟨hkeeps.1, hkeeps.2⟩ hpending
    | starts hpasses hkeeps hpending =>
      rw [hparsed.withExpiry_self]
      have hstarts : HandledAs t _ c.ec t.settings.read d _ :=
        .starts hpasses ⟨hkeeps.1, hkeeps.2⟩ hpending
      rw [h.withExpiry_self] at hstarts
      exact hstarts
  cases op with
  | resolve =>
    refine handledAs_stage ?_
    rw [expiresAfter, h.onStream]
    exact h.start_withExpiry _ nofun trivial
  | connect =>
    unfold TimedSession.handle TimedSession.onConnect AsyncSession.handle AsyncSession.onConnect
      Settings.next Settings.nextDeadline settings
    cases hssl : t.session.requestRaw.ssl with
    | true =>
      -- the handshake starts under the deadline of the connection
      refine @handledAs_stage t _ _ _ _ (t.start .handshake) ?_
      simp only [if_true]
      rw [h.withExpiry_self]
      exact h.start nofun hssl
    | false =>
      -- without TLS the deadline is taken away before the write
      refine @handledAs_stage t _ _ _ _ (t.expiresNever.bind fun t => t.start (.write .raw)) ?_
      rw [expiresNever, h.onStream]
      refine h.start_withExpiry _ nofun ?_
      simp [Settings.Uses, Settings.stream, settings, hssl]
  | handshake =>
    refine handledAs_stage ?_
    rw [expiresNever, h.onStream]
    have hssl : t.session.requestRaw.ssl = true := hop
    refine h.start_withExpiry _ nofun ?_
    simp [Settings.Uses, Settings.stream, settings, hssl]
  | write stream =>
    unfold TimedSession.handle TimedSession.onWrite AsyncSession.handle AsyncSession.onWrite
    obtain ⟨hsession, -⟩ := h.readResponse
    obtain ⟨-, htimed⟩ := (h.withExpiry (some (t.now + t.readTimeout))).readResponse
    rw [hsession]
    refine @handledAs_stage t _ _ _ _ ((t.expiresAfter t.readTimeout).bind readResponse) ?_
    rw [expiresAfter, h.onStream]
    have hdeadline : t.settings.nextDeadline t.now d (.write stream) =
        some (t.now + t.readTimeout) := rfl
    rw [hdeadline]
    simpa using htimed
  | read stream => exact hread
  | readSome stream => exact hread

/-- What is left after a handler, in either case. -/
theorem HandledAs.cases_on {s' : AsyncSession} {ec : ErrorCode} {op : Operation} {d' : Option ℕ}
    {r : Option TimedSession} (hr : HandledAs t s' ec op d' r) (h : Allocated d t) :
    ∃ t', r = some t' ∧ t'.session = s' ∧ t'.settings = t.settings ∧ t'.now = t.now ∧
      ((s'.pending = t.session.pending ∧ t'.history = t.history ∧ Allocated d t') ∨
        (Passes ec ∧ s'.pending = t.session.pending ++ [op] ∧
          t'.history = t.history ++ [⟨op, t.now, d'⟩] ∧ Allocated d' t')) := by
  cases hr with
  | reports hkeeps hpending =>
    refine ⟨_, rfl, rfl, ?_, rfl, .inl ⟨hpending, rfl, ?_, ?_⟩⟩
    · -- the settings and the streams are read off the request, which is kept
      simp [settings, onSession, hkeeps.requestRaw, hkeeps.progressFunc]
    · simp [onSession, hkeeps.requestRaw, h.ssl]
    · simp [onSession, hkeeps.requestRaw, h.raw]
  | starts hpasses hkeeps hpending =>
    have hset := h.withExpiry d'
    have hsettings := settings_withExpiry (t := t) (d := d')
    refine ⟨_, rfl, rfl, ?_, now_withExpiry, .inr ⟨hpasses, hpending, rfl, ?_, ?_⟩⟩
    · rw [← hsettings]
      simp [settings, hkeeps.requestRaw, hkeeps.progressFunc]
    · simpa [hkeeps.requestRaw] using hset.ssl
    · simpa [hkeeps.requestRaw] using hset.raw

end TimedSession

end Httb
