import Httb.Client
import Httb.SessionOutcome

/-!
# Sessions in an io_context

What `client::execute_in_context` (`src/client.cpp`) leaves in the context: a session that
holds a copy of its request, and a success lambda that holds a reference to the variable the
request was passed in. The lambda runs later, from `io_context::run`; by then the variable
may be gone.

A session here is what is left of `Httb.AsyncSession` when only its outcome counts: it waits
in the context until it makes its one report.

## Layers

- `exists_report_of_idle`: a session that waits for nothing has made one report
- `Runtime`: the variables that are alive, the context, and the logs of what was read and
  delivered
- `complete_cases`: the two things that the report of a session leads to
- `CopiesHold`, `copiesHold_complete_iff`: the reports after which every copy was made of a
  variable that held its request; of any other run nothing can be promised
-/

namespace Httb

open Httb.Foundation

/-! ## Variables and sessions -/

/-- A session that has been run and waits for no operation any more has made one report. -/
theorem exists_report_of_idle {request : BaseRequest} {progress : Bool} {s : AsyncSession}
    (h : Reachable AsyncSession.Step (AsyncSession.started request progress) s)
    (hidle : s.pending = []) : ∃ report, s.reports = [report] := by
  have hphase : AsyncSession.Phase s :=
    h.invariant (AsyncSession.phase_started request progress) fun _ _ _ => AsyncSession.Phase.step
  exact hphase.oneOutcome.reported_of_idle hidle

/-- The variables whose address is passed to `execute_in_context`: the argument of `execute`,
the `req` of a pass of the loop of `run_all`, the `redirectRequest` of a success lambda. -/
inductive RequestVariable where
  | argument
  | loopLocal (pass : ℕ)
  | redirectLocal (hop : ℕ)
  deriving DecidableEq

/-- The variables that are alive, the innermost first, with their values. -/
abbrev Scope := List (RequestVariable × BaseRequest)

/-- A session that waits in a context: the request it was constructed with, the variable
that its success lambda refers to, and the number of the request its callback is for. -/
structure ContextSession where
  sent : BaseRequest
  captured : RequestVariable
  ticket : ℕ
  deriving DecidableEq

/-- `net::io_context`. Once it has run out of work it is stopped, and no one restarts it. -/
structure IoContext where
  stopped : Bool := false
  sessions : List ContextSession := []
  deriving DecidableEq

/-- A copy that a success lambda made of its captured request: the request that the session
had sent, and what the variable held, if it still was there. -/
structure CapturedCopy where
  sent : BaseRequest
  held : Option BaseRequest
  deriving DecidableEq

/-- The state that `execute_in_context` and its lambdas work on. -/
structure Runtime where
  scope : Scope := []
  context : IoContext := {}
  redirects : ℕ := 0
  copies : List CapturedCopy := []
  delivered : List (ℕ × Response) := []
  deriving DecidableEq

/-- The report of a waiting session. What a copy finds where a variable was is not defined;
`stale` says what it is. -/
structure Answer where
  index : ℕ
  report : SessionReport
  stale : BaseRequest := {}

namespace Runtime

/-! ## Starting sessions -/

/-- `execute_in_context`, as far as it goes before the context runs. -/
def executeInContext (r : Runtime) (var : RequestVariable) (ticket : ℕ) : Runtime :=
  match r.scope.lookup var with
  | some request =>
    { r with context := { r.context with
        sessions := r.context.sessions ++ [⟨request, var, ticket⟩] } }
  | none => r

/-- Declare a variable and pass it to `execute_in_context`; its scope ends when that returns. -/
def executeLocal (r : Runtime) (var : RequestVariable) (request : BaseRequest) (ticket : ℕ) :
    Runtime :=
  let inner := { r with scope := (var, request) :: r.scope }.executeInContext var ticket
  { inner with scope := r.scope }

theorem executeLocal_eq (r : Runtime) (var : RequestVariable) (request : BaseRequest)
    (ticket : ℕ) :
    r.executeLocal var request ticket =
      { r with context := { r.context with
          sessions := r.context.sessions ++ [⟨request, var, ticket⟩] } } := by
  simp [executeLocal, executeInContext]

/-! ## The handlers -/

/-- The session is done: it leaves the context. -/
def dequeue (r : Runtime) (index : ℕ) : Runtime :=
  { r with context := { r.context with sessions := r.context.sessions.eraseIdx index } }

/-- When one session waits, it is the one that reports, and none is left. -/
theorem only_session {r : Runtime} {first : ContextSession} {a : Answer}
    (h : r.context.sessions = [first]) (ha : a.index < r.context.sessions.length) :
    r.context.sessions[a.index]? = some first ∧ r.context.sessions.eraseIdx a.index = [] := by
  have hindex : a.index = 0 := by
    rw [h] at ha
    exact Nat.lt_one_iff.mp ha
  rw [h, hindex]
  exact ⟨rfl, rfl⟩

/-- The callback for a request is called. -/
def deliver (r : Runtime) (ticket : ℕ) : CallbackEffect → Runtime
  | .called resp => { r with delivered := r.delivered ++ [(ticket, resp)] }
  | .threw => r
  | .skipped => r

@[simp] theorem scope_deliver (r : Runtime) (ticket : ℕ) (effect : CallbackEffect) :
    (r.deliver ticket effect).scope = r.scope := by
  cases effect <;> rfl

@[simp] theorem context_deliver (r : Runtime) (ticket : ℕ) (effect : CallbackEffect) :
    (r.deliver ticket effect).context = r.context := by
  cases effect <;> rfl

@[simp] theorem copies_deliver (r : Runtime) (ticket : ℕ) (effect : CallbackEffect) :
    (r.deliver ticket effect).copies = r.copies := by
  cases effect <;> rfl

variable [Toolbox] [BoostRegex] [BoostErrors]

/-- What the lambda of a waiting session comes to. The copy of the request is made through the
captured reference. -/
def lambda (client : Client) (cb : Bool) (r : Runtime) (a : Answer) (session : ContextSession) :
    AfterSession :=
  onReport client cb ((r.scope.lookup session.captured).getD a.stale) a.report

/-- A session reports, and one of its two lambdas runs; `cb` says whether its callback is set. -/
def completeWith (client : Client) (cb : Bool) (r : Runtime) (a : Answer) : Runtime :=
  match r.context.sessions[a.index]? with
  | none => r
  | some session =>
    let r := r.dequeue a.index
    match r.lambda client cb a session with
    | .finished effect => r.deliver session.ticket effect
    | .executeAgain redirectRequest =>
      let copy : CapturedCopy := ⟨session.sent, r.scope.lookup session.captured⟩
      { r with copies := r.copies ++ [copy], redirects := r.redirects + 1 }.executeLocal
        (.redirectLocal r.redirects) redirectRequest session.ticket

/-- The same for a callback that is set. -/
def complete (client : Client) (r : Runtime) (a : Answer) : Runtime := r.completeWith client true a

end Runtime

/-- Every copy found the request that its session had sent. A copy of a variable that is gone is
not defined, so nothing can be promised of a state without this. -/
def CopiesHold (r : Runtime) : Prop := ∀ copy ∈ r.copies, copy.held = some copy.sent

instance (r : Runtime) : Decidable (CopiesHold r) := by
  unfold CopiesHold
  infer_instance

/-! ## What a report leads to -/

section Reports

variable [Toolbox]

/-- The success lambda follows a redirect. -/
def followsRedirect (client : Client) : SessionReport → Bool
  | .error _ _ => false
  | .success result _ =>
    client.followRedirects && isRedirectStatus (responseOfAsync result).status &&
      (responseOfAsync result).hasHeader "location".toList

variable [BoostRegex]

theorem onSuccess_of_delivers {client : Client} {result : BeastResponse} {bytes : ℕ}
    (h : followsRedirect client (.success result bytes) = false) (request : BaseRequest) :
    onSuccess client true request result = .finished (.called (responseOfAsync result)) := by
  rw [followsRedirect] at h
  unfold onSuccess
  dsimp only
  split
  · rename_i hredirect
    rw [hredirect, Bool.true_and] at h
    rw [h]
    rfl
  · rfl

theorem onSuccess_of_follows {client : Client} {cb : Bool} {result : BeastResponse} {bytes : ℕ}
    (h : followsRedirect client (.success result bytes) = true) (request : BaseRequest) :
    onSuccess client cb request result =
      .executeAgain (redirectRequest request (responseOfAsync result)) := by
  rw [followsRedirect, Bool.and_eq_true] at h
  unfold onSuccess
  dsimp only
  rw [if_pos h.1, h.2]
  rfl

variable [BoostErrors]

/-- A lambda that follows no redirect does something with the callback; what, does not depend on
the request that was captured. -/
theorem onReport_of_delivers {client : Client} (cb : Bool) {report : SessionReport}
    (h : followsRedirect client report = false) :
    ∃ effect, ∀ captured, onReport client cb captured report = .finished effect := by
  cases report with
  | error ec wtf => exact ⟨_, fun _ => rfl⟩
  | success result bytes =>
    rw [followsRedirect, Bool.and_eq_false_imp] at h
    unfold onReport onSuccess
    dsimp only
    split
    · rename_i hredirect
      rw [h hredirect]
      exact ⟨_, fun _ => rfl⟩
    · exact ⟨_, fun _ => rfl⟩

/-- A callback that is set is called. -/
theorem called_of_onReport {client : Client} {captured : BaseRequest} {report : SessionReport}
    {effect : CallbackEffect} (h : onReport client true captured report = .finished effect) :
    ∃ resp, effect = .called resp := by
  cases report with
  | error ec wtf => exact ⟨_, (AfterSession.finished.inj h).symm⟩
  | success result bytes =>
    unfold onReport onSuccess at h
    dsimp only at h
    split at h
    · split at h
      · exact ⟨_, (AfterSession.finished.inj h).symm⟩
      · cases h
    · exact ⟨_, (AfterSession.finished.inj h).symm⟩

/-- A lambda that follows a redirect reads the location into the request that was captured. -/
theorem onReport_of_follows {client : Client} {report : SessionReport}
    (h : followsRedirect client report = true) :
    ∃ resp, ∀ cb captured,
      onReport client cb captured report = .executeAgain (redirectRequest captured resp) := by
  cases report with
  | error ec wtf => cases h
  | success result bytes => exact ⟨_, fun _ captured => onSuccess_of_follows h captured⟩

namespace Runtime

variable {client : Client} {cb : Bool} {r : Runtime} {a : Answer} {session : ContextSession}

theorem completeWith_of_finished (hsession : r.context.sessions[a.index]? = some session)
    {effect : CallbackEffect} (h : r.lambda client cb a session = .finished effect) :
    r.completeWith client cb a = (r.dequeue a.index).deliver session.ticket effect := by
  have hlambda : (r.dequeue a.index).lambda client cb a session = .finished effect := h
  rw [completeWith, hsession]
  simp only [hlambda]

theorem completeWith_of_executeAgain (hsession : r.context.sessions[a.index]? = some session)
    {redirectRequest : BaseRequest}
    (h : r.lambda client cb a session = .executeAgain redirectRequest) :
    r.completeWith client cb a =
      { r with
        context := { r.context with
          sessions := r.context.sessions.eraseIdx a.index ++
            [⟨redirectRequest, .redirectLocal r.redirects, session.ticket⟩] }
        redirects := r.redirects + 1
        copies := r.copies ++ [⟨session.sent, r.scope.lookup session.captured⟩] } := by
  have hlambda : (r.dequeue a.index).lambda client cb a session = .executeAgain redirectRequest := h
  rw [completeWith, hsession]
  simp only [hlambda, executeLocal_eq]
  rfl

/-- A session that does not follow a redirect delivers one response. -/
theorem complete_of_delivers (hsession : r.context.sessions[a.index]? = some session)
    (h : followsRedirect client a.report = false) :
    ∃ resp, r.complete client a =
      { r.dequeue a.index with delivered := r.delivered ++ [(session.ticket, resp)] } := by
  obtain ⟨effect, hlambda⟩ := onReport_of_delivers true h
  obtain ⟨resp, rfl⟩ := called_of_onReport (hlambda {})
  exact ⟨resp, completeWith_of_finished hsession (hlambda _)⟩

/-- A session that does follow one leaves the next session behind, under the same number. -/
theorem complete_of_follows (hsession : r.context.sessions[a.index]? = some session)
    (h : followsRedirect client a.report = true) :
    ∃ redirectRequest, r.complete client a =
      { r with
        context := { r.context with
          sessions := r.context.sessions.eraseIdx a.index ++
            [⟨redirectRequest, .redirectLocal r.redirects, session.ticket⟩] }
        redirects := r.redirects + 1
        copies := r.copies ++ [⟨session.sent, r.scope.lookup session.captured⟩] } := by
  obtain ⟨resp, hlambda⟩ := onReport_of_follows h
  exact ⟨_, completeWith_of_executeAgain hsession (hlambda true _)⟩

/-- Both cases together, for a session that waits. -/
theorem completeWith_cases (client : Client) (cb : Bool)
    (ha : a.index < r.context.sessions.length) :
    (followsRedirect client a.report = false ∧
      ∃ effect, r.completeWith client cb a =
        (r.dequeue a.index).deliver r.context.sessions[a.index].ticket effect) ∨
    (followsRedirect client a.report = true ∧
      ∃ redirectRequest, r.completeWith client cb a =
        { r with
          context := { r.context with
            sessions := r.context.sessions.eraseIdx a.index ++
              [⟨redirectRequest, .redirectLocal r.redirects,
                r.context.sessions[a.index].ticket⟩] }
          redirects := r.redirects + 1
          copies := r.copies ++ [⟨r.context.sessions[a.index].sent,
            r.scope.lookup r.context.sessions[a.index].captured⟩] }) := by
  have hsession := List.getElem?_eq_getElem ha
  cases hfollows : followsRedirect client a.report with
  | false =>
    obtain ⟨effect, hlambda⟩ := onReport_of_delivers cb hfollows
    exact .inl ⟨rfl, effect, completeWith_of_finished hsession (hlambda _)⟩
  | true =>
    obtain ⟨resp, hlambda⟩ := onReport_of_follows hfollows
    exact .inr ⟨rfl, _, completeWith_of_executeAgain hsession (hlambda cb _)⟩

/-- The same for a callback that is set: it gets a response. -/
theorem complete_cases (client : Client) (ha : a.index < r.context.sessions.length) :
    (followsRedirect client a.report = false ∧
      ∃ resp, r.complete client a =
        { r.dequeue a.index with
          delivered := r.delivered ++ [(r.context.sessions[a.index].ticket, resp)] }) ∨
    (followsRedirect client a.report = true ∧
      ∃ redirectRequest, r.complete client a =
        { r with
          context := { r.context with
            sessions := r.context.sessions.eraseIdx a.index ++
              [⟨redirectRequest, .redirectLocal r.redirects,
                r.context.sessions[a.index].ticket⟩] }
          redirects := r.redirects + 1
          copies := r.copies ++ [⟨r.context.sessions[a.index].sent,
            r.scope.lookup r.context.sessions[a.index].captured⟩] }) := by
  have hsession := List.getElem?_eq_getElem ha
  cases hfollows : followsRedirect client a.report with
  | false => exact .inl ⟨rfl, complete_of_delivers hsession hfollows⟩
  | true => exact .inr ⟨rfl, complete_of_follows hsession hfollows⟩

/-! ## Copies that are made right -/

/-- A redirect that is followed finds the request that its session sent. -/
def ReadsHeld (client : Client) (r : Runtime) (a : Answer) : Prop :=
  followsRedirect client a.report = true →
    ∀ session ∈ r.context.sessions[a.index]?, r.scope.lookup session.captured = some session.sent

omit [BoostRegex] [BoostErrors] in
theorem readsHeld_of_delivers (h : followsRedirect client a.report = false) :
    r.ReadsHeld client a := by
  intro hfollows
  rw [h] at hfollows
  cases hfollows

/-- The copies stay right exactly when the next one is. -/
theorem copiesHold_completeWith_iff (cb : Bool) (hr : CopiesHold r)
    (ha : a.index < r.context.sessions.length) :
    CopiesHold (r.completeWith client cb a) ↔ r.ReadsHeld client a := by
  rw [ReadsHeld, List.getElem?_eq_getElem ha]
  simp only [Option.mem_some_iff, forall_eq']
  rcases completeWith_cases client cb ha with ⟨hfollows, effect, heq⟩ | ⟨hfollows, next, heq⟩
  · rw [heq, CopiesHold, copies_deliver, hfollows]
    exact iff_of_true hr nofun
  · rw [heq, CopiesHold, List.forall_mem_append, List.forall_mem_singleton, hfollows]
    simp only [true_implies]
    exact and_iff_right hr

theorem copiesHold_complete_iff (hr : CopiesHold r) (ha : a.index < r.context.sessions.length) :
    CopiesHold (r.complete client a) ↔ r.ReadsHeld client a :=
  copiesHold_completeWith_iff true hr ha

/-- A redirect that reads the request its session sent is computed from it. -/
theorem complete_of_readsHeld (hsession : r.context.sessions[a.index]? = some session)
    (hfollows : followsRedirect client a.report = true) (hreads : r.ReadsHeld client a) :
    ∃ resp, (r.complete client a).context.sessions = r.context.sessions.eraseIdx a.index ++
      [⟨redirectRequest session.sent resp, .redirectLocal r.redirects, session.ticket⟩] := by
  obtain ⟨resp, hlambda⟩ := onReport_of_follows hfollows
  have hagain : r.lambda client true a session =
      .executeAgain (redirectRequest session.sent resp) := by
    rw [lambda, hreads hfollows session hsession, Option.getD_some, hlambda]
  exact ⟨resp, by rw [complete, completeWith_of_executeAgain hsession hagain]⟩

end Runtime

end Reports

end Httb
