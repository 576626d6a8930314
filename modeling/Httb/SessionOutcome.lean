import Httb.AsyncSession
import Httb.Foundation.Runs
import Mathlib.Data.List.Basic

/-!
# What a Session Comes To

Every handler of an `async_session` ends in one of two ways: it starts one operation, or it
makes one report (`Handled`). From this alone follows that a session that is run waits for
one operation until it has reported, and reports once (`Phase`). Whether it stops reading
when the stream has ended depends on the parser: a read that ends the stream before the
response is complete is followed by another one.

## Key Results

- `reachable_oneOutcome`: in every reachable state there is one operation outstanding or one
  report made
- `success_of_reportsDelivered`: when nothing fails the report is the delivered message
- `endsReading_iff_guarded`: along a run the session never reads past the end of the stream
  exactly when every read that meets the end leaves the parser done
-/

namespace Httb

open Httb.Foundation

/-- The event tells progress. -/
def SessionEvent.isProgress : SessionEvent → Bool
  | .progressed _ _ _ => true
  | _ => false

namespace AsyncSession

/-! ## The two ways a handler ends -/

/-- How a handler ends. -/
inductive Ending where
  | starts (op : Operation)
  | reports (r : SessionReport)

/-- The operation that is pending then. -/
def Ending.pending : Ending → List Operation
  | .starts op => [op]
  | .reports _ => []

/-- What the log says about it. -/
def Ending.event : Ending → SessionEvent
  | .starts op => .started op
  | .reports r => .reported r

/-- The ending follows from what the handler was given: an error it reports is the code of
the operation or of the shutdown, and a failure; a success is the message of a parser that
is done. -/
inductive Ending.FollowsFrom (ec shutdown : ErrorCode) (response : ResponseParser) :
    Ending → Prop where
  | starts (op : Operation) : FollowsFrom ec shutdown response (.starts op)
  | error {code : ErrorCode} (wtf : Str) (hfailed : code.failed = true)
      (hcode : code = ec ∨ code = shutdown) :
      FollowsFrom ec shutdown response (.reports (.error code wtf))
  | success (n : ℕ) (hdone : response.isDone = true) :
      FollowsFrom ec shutdown response (.reports (.success response.message n))

/-- A handler took the session from `s` to `s'`: it told some progress and ended in one
way, and it reported success only with the parser done. -/
structure Handled (s s' : AsyncSession) (told : List SessionEvent) (ending : Ending) : Prop where
  log : s'.log = s.log ++ (told ++ [ending.event])
  pending : s'.pending = s.pending ++ ending.pending
  told_isProgress : ∀ e ∈ told, e.isProgress = true
  errorFunc : s'.errorFunc = s.errorFunc
  successFunc : s'.successFunc = s.successFunc
  done_of_success : ∀ message n, ending = .reports (.success message n) →
    s'.response.isDone = true

variable {s : AsyncSession}

theorem handled_start (s : AsyncSession) (op : Operation) :
    Handled s (s.start op) [] (.starts op) where
  log := rfl
  pending := rfl
  told_isProgress := by simp
  errorFunc := rfl
  successFunc := rfl
  done_of_success := by simp

theorem handled_fail (h : s.errorFunc = true) (ec : ErrorCode) (where_ : Str) :
    Handled s (s.fail ec where_) [] (.reports (.error ec where_)) := by
  rw [fail, if_pos h]
  exact {
    log := rfl
    pending := by simp [Ending.pending]
    told_isProgress := by simp
    errorFunc := rfl
    successFunc := rfl
    done_of_success := by simp }

/-- `read_response` starts one read, of either kind and on either stream. -/
theorem exists_start_readResponse (s : AsyncSession) :
    ∃ op, op.isRead = true ∧ s.readResponse = s.start op := by
  have hfrom (stream : StreamKind) :
      ∃ op, op.isRead = true ∧ readResponseFrom stream s = s.start op := by
    rw [readResponseFrom]
    split
    · exact ⟨.readSome stream, rfl, rfl⟩
    · exact ⟨.read stream, rfl, rfl⟩
  rw [readResponse]
  split
  · exact hfrom .ssl
  · exact hfrom .raw

theorem handled_readResponse (s : AsyncSession) :
    ∃ op, op.isRead = true ∧ Handled s s.readResponse [] (.starts op) := by
  obtain ⟨op, hop, heq⟩ := exists_start_readResponse s
  rw [heq]
  exact ⟨op, hop, handled_start s op⟩

/-- Telling progress only writes to the log. -/
theorem exists_told (s : AsyncSession) :
    (∃ told, (∀ e ∈ told, e.isProgress = true) ∧
        s.tellDone = { s with log := s.log ++ told }) ∧
      ∃ told, (∀ e ∈ told, e.isProgress = true) ∧
        s.tellLoaded = { s with log := s.log ++ told } := by
  have hone (loaded total : UInt64) (progress : Rat) :
      ∃ told, (∀ e ∈ told, e.isProgress = true) ∧
        s.tellProgress loaded total progress = { s with log := s.log ++ told } :=
    ⟨[.progressed loaded total progress], by simp [SessionEvent.isProgress], rfl⟩
  have hnone : ∃ told, (∀ e ∈ told, e.isProgress = true) ∧ s = { s with log := s.log ++ told } :=
    ⟨[], by simp, by simp⟩
  -- without a progress function nothing is told
  constructor
  · rw [tellDone]
    split
    · dsimp only
      split
      · exact hone _ _ _
      · exact hone _ _ _
    · exact hnone
  · rw [tellLoaded]
    split
    · dsimp only
      split
      · exact hone _ _ _
      · exact hone _ _ _
    · exact hnone

/-- Progress that is told before the end of a handler belongs to the handler. -/
theorem Handled.told_first {s' : AsyncSession} {told : List SessionEvent} {ending : Ending}
    (htold : ∀ e ∈ told, e.isProgress = true)
    (h : Handled { s with log := s.log ++ told } s' [] ending) : Handled s s' told ending where
  log := by rw [h.log, List.append_assoc, List.nil_append]
  pending := h.pending
  told_isProgress := htold
  errorFunc := h.errorFunc
  successFunc := h.successFunc
  done_of_success := h.done_of_success

/-! ## The handlers -/

theorem failed_of_not_ignored {ec : ErrorCode} (h : (ec.failed && !isIgnoredError ec) = true) :
    ec.failed = true := by
  rw [Bool.and_eq_true] at h
  exact h.1

theorem handled_stage (herror : s.errorFunc = true) (c : Completion) (where_ : Str)
    {next : AsyncSession} (hnext : ∃ op, Handled s next [] (.starts op)) :
    ∃ ending, ending.FollowsFrom c.ec c.shutdown c.response ∧
      Handled s (if c.ec.failed && !isIgnoredError c.ec then s.fail c.ec where_ else next) []
        ending := by
  split
  · rename_i hec
    exact ⟨_, .error _ (failed_of_not_ignored hec) (.inl rfl), handled_fail herror c.ec where_⟩
  · obtain ⟨op, hop⟩ := hnext
    exact ⟨_, .starts op, hop⟩

/-- A read that leaves the parser done is followed by a report. -/
theorem handled_onRead_of_done (herror : s.errorFunc = true) (hsuccess : s.successFunc = true)
    (hdone : s.response.isDone = true) (ec : ErrorCode) (n : ℕ) (shutdown : ErrorCode) :
    ∃ told r, (Ending.reports r).FollowsFrom ec shutdown s.response ∧
      Handled s (s.onRead ec n shutdown) told (.reports r) := by
  rw [onRead, hdone]
  split
  · rename_i hec
    exact ⟨[], _, .error _ (failed_of_not_ignored hec) (.inl rfl), handled_fail herror ec _⟩
  · simp only [if_true]
    split
    · rename_i hshutdown
      rw [Bool.and_eq_true] at hshutdown
      exact ⟨[], _, .error _ (failed_of_not_ignored hshutdown.1) (.inr rfl),
        handled_fail herror shutdown _⟩
    · obtain ⟨told, htold, heq⟩ := (exists_told s).1
      rw [heq, if_pos hsuccess]
      exact ⟨told, .success s.response.message n, .success n hdone, {
        log := by simp [Ending.event]
        pending := by simp [Ending.pending]
        told_isProgress := htold
        errorFunc := rfl
        successFunc := rfl
        done_of_success := fun _ _ _ => hdone }⟩

/-- A read that does not fail and leaves the parser waiting is followed by another read. -/
theorem handled_onRead_of_not_done {ec : ErrorCode}
    (hec : (ec.failed && !isIgnoredError ec) = false) (hdone : s.response.isDone = false)
    (n : ℕ) (shutdown : ErrorCode) :
    ∃ told op, op.isRead = true ∧ Handled s (s.onRead ec n shutdown) told (.starts op) := by
  obtain ⟨told, htold, heq⟩ := (exists_told s).2
  obtain ⟨op, hop, hread⟩ := handled_readResponse { s with log := s.log ++ told }
  rw [onRead, hec, hdone]
  simp only [Bool.false_eq_true, if_false]
  rw [heq]
  exact ⟨told, op, hop, hread.told_first htold⟩

theorem handled_onRead (herror : s.errorFunc = true) (hsuccess : s.successFunc = true)
    (ec : ErrorCode) (n : ℕ) (shutdown : ErrorCode) :
    ∃ told ending, ending.FollowsFrom ec shutdown s.response ∧
      Handled s (s.onRead ec n shutdown) told ending := by
  cases hdone : s.response.isDone with
  | true =>
    obtain ⟨told, r, hfollows, h⟩ := handled_onRead_of_done herror hsuccess hdone ec n shutdown
    exact ⟨told, _, hfollows, h⟩
  | false =>
    cases hec : ec.failed && !isIgnoredError ec with
    | true =>
      rw [onRead, if_pos hec]
      exact ⟨[], _, .error _ (failed_of_not_ignored hec) (.inl rfl), handled_fail herror ec _⟩
    | false =>
      obtain ⟨told, op, _, h⟩ := handled_onRead_of_not_done hec hdone n shutdown
      exact ⟨told, _, .starts op, h⟩

/-- The parser is assigned before the handler runs. -/
theorem Handled.of_response {s' : AsyncSession} {response : ResponseParser}
    {told : List SessionEvent} {ending : Ending}
    (h : Handled { s with response := response } s' told ending) : Handled s s' told ending :=
  ⟨h.log, h.pending, h.told_isProgress, h.errorFunc, h.successFunc, h.done_of_success⟩

/-- **Every handler ends in one of the two ways.** -/
theorem handled_handle (herror : s.errorFunc = true) (hsuccess : s.successFunc = true)
    (op : Operation) (c : Completion) :
    ∃ told ending, ending.FollowsFrom c.ec c.shutdown c.response ∧
      Handled s (s.handle op c) told ending := by
  have hread : ∃ told ending, ending.FollowsFrom c.ec c.shutdown c.response ∧
      Handled s ({ s with response := c.response }.onRead c.ec c.bytesTransferred c.shutdown)
        told ending := by
    obtain ⟨told, ending, hfollows, h⟩ := handled_onRead
      (s := { s with response := c.response }) herror hsuccess c.ec c.bytesTransferred c.shutdown
    exact ⟨told, ending, hfollows, h.of_response⟩
  cases op with
  | resolve => exact ⟨[], handled_stage herror c _ ⟨_, handled_start s _⟩⟩
  | connect =>
    refine ⟨[], handled_stage herror c _ ?_⟩
    -- the fork between TLS and plain decides which operation is next
    split
    · exact ⟨_, handled_start s _⟩
    · exact ⟨_, handled_start s _⟩
  | handshake => exact ⟨[], handled_stage herror c _ ⟨_, handled_start s _⟩⟩
  | write stream =>
    obtain ⟨op, _, h⟩ := handled_readResponse s
    exact ⟨[], handled_stage herror c _ ⟨op, h⟩⟩
  | read stream => exact hread
  | readSome stream => exact hread

/-! ## One outcome -/

/-- Where a session stands that was run with both callbacks: it waits for one operation and
has not reported, or it waits for nothing and its last act was its only report. -/
structure Phase (s : AsyncSession) : Prop where
  errorFunc : s.errorFunc = true
  successFunc : s.successFunc = true
  stands : (∃ op, s.pending = [op] ∧ s.reports = []) ∨
    ∃ before r, s.pending = [] ∧ s.log = before ++ [.reported r] ∧ s.reports = [r] ∧
      ∀ message n, r = .success message n → s.response.isDone = true

theorem reports_of_log {s' : AsyncSession} {es : List SessionEvent} (h : s'.log = s.log ++ es) :
    s'.reports = s.reports ++ es.filterMap SessionEvent.asReport := by
  rw [reports, h, List.filterMap_append, reports]

theorem reports_of_progress {es : List SessionEvent} (h : ∀ e ∈ es, e.isProgress = true) :
    es.filterMap SessionEvent.asReport = [] := by
  rw [List.filterMap_eq_nil_iff]
  intro e he
  have hprogress := h e he
  cases e with
  | progressed loaded total progress => rfl
  | _ => cases hprogress

theorem phase_started (request : BaseRequest) (progress : Bool) :
    Phase (started request progress) :=
  ⟨rfl, rfl, .inl ⟨.resolve, rfl, rfl⟩⟩

/-- While an operation is pending, it is the only one and nothing was reported. -/
theorem Phase.waiting (h : Phase s) {op : Operation} (hop : op ∈ s.pending) :
    s.pending = [op] ∧ s.reports = [] := by
  rcases h.stands with ⟨op', hpending, hreports⟩ | ⟨_, _, hpending, _⟩
  · rw [hpending, List.mem_singleton] at hop
    subst hop
    exact ⟨hpending, hreports⟩
  · simp [hpending] at hop

/-- What a completion does to a session: it logs the completion, tells some progress, and
ends in one of the two ways. -/
theorem handled_complete (h : Phase s) (op : Operation) (c : Completion) :
    ∃ told ending, ending.FollowsFrom c.ec c.shutdown c.response ∧
      Handled (s.dequeue op c.ec) (s.complete op c) told ending :=
  handled_handle (s := s.dequeue op c.ec) h.errorFunc h.successFunc op c

/-- After a completion the reports are those of the ending. -/
theorem Phase.reports_complete (h : Phase s) {op : Operation} (hop : op ∈ s.pending)
    {c : Completion} {told : List SessionEvent} {ending : Ending}
    (hh : Handled (s.dequeue op c.ec) (s.complete op c) told ending) :
    (s.complete op c).reports = [ending.event].filterMap SessionEvent.asReport := by
  have hdequeued : (s.dequeue op c.ec).reports =
      s.reports ++ [SessionEvent.completed op c.ec].filterMap SessionEvent.asReport :=
    reports_of_log rfl
  rw [reports_of_log hh.log, List.filterMap_append, reports_of_progress hh.told_isProgress,
    List.nil_append, hdequeued, (h.waiting hop).2]
  rfl

theorem Phase.step {s' : AsyncSession} {x : Operation × Completion} (h : Phase s)
    (hstep : Step s x s') : Phase s' := by
  obtain ⟨op, c, hop⟩ := hstep
  obtain ⟨told, ending, _, hh⟩ := handled_complete h op c
  -- nothing else was pending, so what is pending now is what the handler started
  have hpending' : (s.complete op c).pending = ending.pending := by
    rw [hh.pending, dequeue, (h.waiting hop).1]
    simp
  have hreports' := h.reports_complete hop hh
  refine ⟨hh.errorFunc.trans h.errorFunc, hh.successFunc.trans h.successFunc, ?_⟩
  cases ending with
  | starts op' => exact .inl ⟨op', hpending', hreports'⟩
  | reports r =>
    -- the report is the last entry of the log
    refine .inr ⟨(s.dequeue op c.ec).log ++ told, r, hpending', ?_, hreports',
      fun message n hr => ?_⟩
    · rw [hh.log, List.append_assoc]
      rfl
    · exact hh.done_of_success message n (by rw [hr])

/-- What a session has come to: one operation outstanding or one report made, and what
follows from it. -/
structure OneOutcome (s : AsyncSession) : Prop where
  exactly_one : s.pending.length + s.reports.length = 1
  reported_once : s.reports.length ≤ 1
  not_both : ¬ ((∃ ec wtf, SessionReport.error ec wtf ∈ s.reports) ∧
    ∃ message n, SessionReport.success message n ∈ s.reports)
  nothing_started_after : ∀ before r after, s.log = before ++ .reported r :: after →
    ∀ op, SessionEvent.started op ∉ after
  reported_of_idle : s.pending = [] → ∃ r, s.reports = [r]
  done_of_success : ∀ message n, SessionReport.success message n ∈ s.reports →
    s.response.isDone = true

theorem mem_reports {s : AsyncSession} {r : SessionReport} :
    r ∈ s.reports ↔ SessionEvent.reported r ∈ s.log := by
  rw [reports, List.mem_filterMap]
  constructor
  · rintro ⟨e, he, hr⟩
    cases e with
    | reported r' =>
      obtain rfl : r' = r := Option.some.inj hr
      exact he
    | _ => cases hr
  · exact fun h => ⟨_, h, rfl⟩

theorem Phase.oneOutcome (h : Phase s) : OneOutcome s := by
  rcases h.stands with ⟨op, hpending, hreports⟩ | ⟨before, r, hpending, hlog, hreports, hdone⟩
  case inl =>
    exact {
      exactly_one := by simp [hpending, hreports]
      reported_once := by simp [hreports]
      not_both := by simp [hreports]
      nothing_started_after := fun before r after hlog => by
        have : r ∈ s.reports := mem_reports.mpr (by simp [hlog])
        simp [hreports] at this
      reported_of_idle := by simp [hpending]
      done_of_success := by simp [hreports] }
  case inr =>
    exact {
      exactly_one := by simp [hpending, hreports]
      reported_once := by simp [hreports]
      not_both := by
        rintro ⟨⟨ec, wtf, herror⟩, message, n, hsuccess⟩
        rw [hreports, List.mem_singleton] at herror hsuccess
        rw [← herror] at hsuccess
        cases hsuccess
      nothing_started_after := fun before' r' after hlog' => by
        rcases List.eq_nil_or_concat after with rfl | ⟨after, e, rfl⟩
        · simp
        · -- a second report would stand at the end of the log
          have hlast : before ++ [SessionEvent.reported r] =
              (before' ++ .reported r' :: after) ++ [e] := by
            rw [← hlog, hlog']
            simp
          obtain ⟨_, rfl⟩ := List.append_singleton_inj.mp hlast
          rw [reports, hlog'] at hreports
          have hcount := congrArg List.length hreports
          simp [SessionEvent.asReport] at hcount
          omega
      reported_of_idle := fun _ => ⟨r, hreports⟩
      done_of_success := fun message n hsuccess => by
        rw [hreports, List.mem_singleton] at hsuccess
        exact hdone message n hsuccess.symm }

/-- **A session reports exactly one outcome.** -/
theorem reachable_oneOutcome {request : BaseRequest} {progress : Bool} {s : AsyncSession}
    (h : Reachable Step (started request progress) s) : OneOutcome s :=
  (h.invariant (P := Phase) (phase_started request progress) fun _ _ _ => Phase.step).oneOutcome

/-- A resolver that finds no host leaves the session with one report. -/
theorem oneOutcome_hostNotFound :
    OneOutcome ((started {} false).complete .resolve { ec := ⟨1, .netdb⟩ }) :=
  have hreached : Reachable Step (started {} false)
      ((started {} false).complete .resolve { ec := ⟨1, .netdb⟩ }) :=
    .single ⟨_, .complete _ .resolve { ec := ⟨1, .netdb⟩ } List.mem_cons_self⟩
  reachable_oneOutcome hreached

/-! ## Over a transport that never fails -/

/-- Nothing fails, and a parser that is done holds the message. -/
structure Delivers (message : BeastResponse) (x : Operation × Completion) : Prop where
  ec : x.2.ec.failed = false
  shutdown : x.2.shutdown.failed = false
  message_of_done : x.2.response.isDone = true → x.2.response.message = message

/-- Nothing but the message was reported. -/
def ReportsOnly (message : BeastResponse) (s : AsyncSession) : Prop :=
  ∀ r ∈ s.reports, ∃ n, r = .success message n

theorem reportsOnly_of_step {message : BeastResponse} {s' : AsyncSession}
    {x : Operation × Completion} (hphase : Phase s) (hx : Delivers message x)
    (hstep : Step s x s') : ReportsOnly message s' := by
  obtain ⟨op, c, hop⟩ := hstep
  obtain ⟨told, ending, hfollows, hh⟩ := handled_complete hphase op c
  intro r hr
  rw [hphase.reports_complete hop hh] at hr
  cases hfollows with
  | starts op' => cases hr
  | error wtf hfailed hcode =>
    -- neither code the handler was given is a failure
    rcases hcode with rfl | rfl
    · rw [hx.ec] at hfailed
      cases hfailed
    · rw [hx.shutdown] at hfailed
      cases hfailed
  | success n hdone =>
    refine ⟨n, ?_⟩
    rw [List.mem_singleton.mp hr, hx.message_of_done hdone]

/-- A session for the request makes the report, at the end of a run in which nothing fails
and the message is delivered. -/
def ReportsDelivered (request : BaseRequest) (message : BeastResponse) (report : SessionReport) :
    Prop :=
  ∃ progress tr, Run Step (started request progress) tr ∧
    Guarded (fun _ => Delivers message) (started request progress) tr ∧
    (lastState (started request progress) tr).reports = [report]

/-- **What a session makes of a transport that never fails**: the message. -/
theorem success_of_reportsDelivered {request : BaseRequest} {message : BeastResponse}
    {report : SessionReport} (h : ReportsDelivered request message report) :
    ∃ n, report = .success message n := by
  obtain ⟨progress, tr, hr, hG, hreports⟩ := h
  have hstart : ReportsOnly message (started request progress) := nofun
  have hlast := (hr.always_of_guarded (P := fun s => Phase s ∧ ReportsOnly message s)
    ⟨phase_started request progress, hstart⟩
    (fun s x s' h hx hstep => ⟨h.1.step hstep, reportsOnly_of_step h.1 hx hstep⟩) hG).last
  exact hlast.2 report (by rw [hreports]; exact List.mem_singleton_self report)

/-! ## The end of the stream -/

/-- The event is a read that completed with a code for the end of the stream. -/
def isStreamEnd : SessionEvent → Bool
  | .completed op ec => op.isRead && isIgnoredError ec
  | _ => false

/-- Once a read has met the end of the stream no read was started, and a callback was
called. -/
def EndsReading (s : AsyncSession) : Prop :=
  ∀ before e after, s.log = before ++ e :: after → isStreamEnd e = true →
    (∀ op, op.isRead = true → SessionEvent.started op ∉ after) ∧
      ∃ r, SessionEvent.reported r ∈ after

/-- A read that meets the end of the stream leaves the parser done. -/
def CompleteAtEnd (_ : AsyncSession) (x : Operation × Completion) : Prop :=
  x.1.isRead = true → isIgnoredError x.2.ec = true → x.2.response.isDone = true

/-- The handler of a read runs on the parser that the read leaves. -/
theorem handle_read {op : Operation} (h : op.isRead = true) (s : AsyncSession) (c : Completion) :
    s.handle op c =
      { s with response := c.response }.onRead c.ec c.bytesTransferred c.shutdown := by
  cases op with
  | read stream => rfl
  | readSome stream => rfl
  | _ => cases h

/-- While an operation is pending, no read has met the end of the stream. -/
theorem EndsReading.not_isStreamEnd (h : EndsReading s) (hreports : s.reports = [])
    {e : SessionEvent} (he : e ∈ s.log) : isStreamEnd e = false := by
  by_contra hend
  obtain ⟨before, after, hlog⟩ := List.append_of_mem he
  obtain ⟨_, r, hr⟩ := h before e after hlog (by simpa using hend)
  have : r ∈ s.reports := mem_reports.mpr (by rw [hlog]; simp [hr])
  simp [hreports] at this

/-- Nothing that a handler logs is the end of a read. -/
theorem Handled.not_isStreamEnd {s' : AsyncSession} {told : List SessionEvent} {ending : Ending}
    (h : Handled s s' told ending) : ∀ e ∈ told ++ [ending.event], isStreamEnd e = false := by
  intro e he
  rcases List.mem_append.mp he with he | he
  · have hprogress := h.told_isProgress e he
    cases e with
    | progressed loaded total progress => rfl
    | _ => cases hprogress
  · rw [List.mem_singleton.mp he]
    cases ending <;> rfl

/-- A step that leaves the parser done at the end of the stream keeps the property. -/
theorem EndsReading.step (hphase : Phase s) (h : EndsReading s) {s' : AsyncSession}
    {x : Operation × Completion} (hG : CompleteAtEnd s x) (hstep : Step s x s') :
    EndsReading s' := by
  obtain ⟨op, c, hop⟩ := hstep
  intro before e after hlog he
  have hbefore : e ∉ s.log := fun hmem => by
    rw [h.not_isStreamEnd (hphase.waiting hop).2 hmem] at he
    cases he
  have hafter {s₀ s' : AsyncSession} {told : List SessionEvent} {ending : Ending}
      (hh : Handled s₀ s' told ending) : e ∉ told ++ [ending.event] := fun hmem => by
    rw [hh.not_isStreamEnd e hmem] at he
    cases he
  -- before the step no read had met the end, so only this completion can be the one
  cases hend : op.isRead && isIgnoredError c.ec with
  | true =>
    rw [Bool.and_eq_true] at hend
    have hhandled := handled_onRead_of_done
      (s := { s.dequeue op c.ec with response := c.response }) hphase.errorFunc
      hphase.successFunc (hG hend.1 hend.2) c.ec c.bytesTransferred c.shutdown
    rw [← handle_read hend.1] at hhandled
    obtain ⟨told, r, _, hh⟩ := hhandled
    have hcomplete : (s.complete op c).log =
        s.log ++ .completed op c.ec :: (told ++ [.reported r]) := by
      rw [complete, hh.log, dequeue, List.append_assoc]
      rfl
    obtain ⟨-, -, rfl⟩ :=
      (List.append_cons_inj_of_notMem hbefore (hafter hh)).mp (hcomplete.symm.trans hlog)
    refine ⟨fun op' _ hstarted => ?_, r, List.mem_append_right _ (List.mem_singleton_self _)⟩
    rcases List.mem_append.mp hstarted with hstarted | hstarted
    · cases hh.told_isProgress _ hstarted
    · cases List.mem_singleton.mp hstarted
  | false =>
    obtain ⟨told, ending, _, hh⟩ := handled_complete hphase op c
    have hcomplete : (s.complete op c).log =
        s.log ++ .completed op c.ec :: (told ++ [ending.event]) := by
      rw [hh.log, dequeue, List.append_assoc]
      rfl
    obtain ⟨-, rfl, -⟩ :=
      (List.append_cons_inj_of_notMem hbefore (hafter hh)).mp (hcomplete.symm.trans hlog)
    rw [isStreamEnd, hend] at he
    cases he

/-- A step that meets the end of the stream with the response incomplete reads again. -/
theorem not_endsReading_of_step {s' : AsyncSession} {x : Operation × Completion}
    (hG : ¬ CompleteAtEnd s x) (hstep : Step s x s') : ¬ EndsReading s' := by
  obtain ⟨op, c, hop⟩ := hstep
  simp only [CompleteAtEnd, not_forall, Bool.not_eq_true] at hG
  obtain ⟨hread, hignored, hdone⟩ := hG
  -- the code is ignored, and then the parser alone decides
  have hec : (c.ec.failed && !isIgnoredError c.ec) = false := by simp [hignored]
  have hhandled := handled_onRead_of_not_done
    (s := { s.dequeue op c.ec with response := c.response }) hec hdone c.bytesTransferred
    c.shutdown
  rw [← handle_read hread] at hhandled
  obtain ⟨told, op', hop', hh⟩ := hhandled
  have hcomplete : (s.complete op c).log =
      s.log ++ .completed op c.ec :: (told ++ [.started op']) := by
    rw [complete, hh.log, dequeue, List.append_assoc]
    rfl
  intro h
  refine (h _ _ _ hcomplete ?_).1 op' hop' (by simp)
  rw [isStreamEnd, hread, hignored]
  rfl

/-- **When a session reads on, exactly.** Along a run of a session, in every state it has
stopped reading at the end of the stream if and only if every read that meets the end
leaves the parser done. -/
theorem endsReading_iff_guarded {request : BaseRequest} {progress : Bool}
    {tr : List ((Operation × Completion) × AsyncSession)}
    (hr : Run Step (started request progress) tr) :
    Always EndsReading (started request progress) tr ↔
      Guarded CompleteAtEnd (started request progress) tr := by
  have hstart : EndsReading (started request progress) := by
    intro before e after hlog he
    have hmem : e ∈ (started request progress).log := by simp [hlog]
    rw [List.mem_singleton.mp hmem] at he
    cases he
  refine hr.always_iff_guarded ⟨phase_started request progress, hstart⟩
    (fun s (h : Phase s ∧ EndsReading s) => h.2) ?_ ?_
  · intro s x s' h hG hstep
    exact ⟨h.1.step hstep, h.2.step h.1 hG hstep⟩
  · intro s x s' h hG hstep
    exact not_endsReading_of_step hG hstep

/-! ## Runs that are given by their completions -/

/-- The states that a list of completions leads through. -/
def runOf : AsyncSession → List (Operation × Completion) →
    List ((Operation × Completion) × AsyncSession)
  | _, [] => []
  | s, x :: xs => (x, s.complete x.1 x.2) :: runOf (s.complete x.1 x.2) xs

/-- Every completion is one of an operation that is pending. -/
def allPending : AsyncSession → List (Operation × Completion) → Bool
  | _, [] => true
  | s, x :: xs => decide (x.1 ∈ s.pending) && allPending (s.complete x.1 x.2) xs

theorem run_runOf {s : AsyncSession} {xs : List (Operation × Completion)}
    (h : allPending s xs = true) : Run Step s (runOf s xs) := by
  induction xs generalizing s with
  | nil => exact .nil s
  | cons x xs ih =>
    rw [allPending, Bool.and_eq_true, decide_eq_true_iff] at h
    exact .cons (.complete s x.1 x.2 h.1) (ih h.2)

/-- Every operation succeeds, and one read brings the whole message. -/
def deliveredAtOnce (ssl : Bool) (message : BeastResponse) : List (Operation × Completion) :=
  let read : Completion := { response := { isDone := true, message := message } }
  if ssl then
    [(.resolve, {}), (.connect, {}), (.handshake, {}), (.write .ssl, {}), (.read .ssl, read)]
  else [(.resolve, {}), (.connect, {}), (.write .raw, {}), (.read .raw, read)]

/-- Whatever is to be delivered, some run of a session delivers it. -/
theorem reportsDelivered_success (request : BaseRequest) (message : BeastResponse) :
    ReportsDelivered request message (.success message 0) := by
  have hempty (op : Operation) : Delivers message (op, {}) := ⟨rfl, rfl, nofun⟩
  have hread (op : Operation) :
      Delivers message (op, { response := { isDone := true, message := message } }) :=
    ⟨rfl, rfl, fun _ => rfl⟩
  -- the transport that the request chooses decides which operations there are
  obtain ⟨container, ssl⟩ := request
  cases ssl with
  | true =>
    exact ⟨false, runOf _ (deliveredAtOnce true message), run_runOf rfl,
      ⟨hempty _, hempty _, hempty _, hempty _, hread _, trivial⟩, rfl⟩
  | false =>
    exact ⟨false, runOf _ (deliveredAtOnce false message), run_runOf rfl,
      ⟨hempty _, hempty _, hempty _, hread _, trivial⟩, rfl⟩

/-- Over TLS the server closes the stream; the parser is left done or not. -/
def truncatedStream (done : Bool) : List (Operation × Completion) :=
  [(.resolve, {}), (.connect, {}), (.handshake, {}), (.write .ssl, {}),
    (.read .ssl, { ec := .streamTruncated, response := { isDone := done } })]

/-- With the response complete the session reports and reads no more. -/
theorem endsReading_truncatedStream_done :
    Always EndsReading (started { ssl := true } false)
      (runOf (started { ssl := true } false) (truncatedStream true)) :=
  (endsReading_iff_guarded (run_runOf (by decide))).mpr
    ⟨nofun, nofun, nofun, nofun, fun _ _ => rfl, trivial⟩

/-- With the response incomplete the session reads again from the closed stream. -/
theorem truncatedStream_read_again :
    Run Step (started { ssl := true } false)
        (runOf (started { ssl := true } false) (truncatedStream false)) ∧
      ¬ Always EndsReading (started { ssl := true } false)
        (runOf (started { ssl := true } false) (truncatedStream false)) := by
  refine ⟨run_runOf (by decide), fun h => ?_⟩
  have hlast : EndsReading _ := h.2.2.2.2.2
  refine not_endsReading_of_step (fun hG => ?_) (.complete _ (.read .ssl) _ ?_) hlast
  · cases hG rfl rfl
  · decide

end AsyncSession

end Httb
