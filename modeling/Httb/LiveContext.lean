import Httb.ContextRuns
import Httb.Foundation.Simulation

/-!
# The Operations of Many Sessions

`client::execute_in_context` (`src/client.cpp`) with the sessions that it makes: many calls share
a context, each has an `async_session` whose operations complete one by one, and a completion of
one session comes between two of another. A handler runs to its end; inside it the session calls
`onProgress` and one of the two lambdas, which calls `cb` or makes the next session.

`Httb.Context` knows of a session only that it makes one report. Here the sessions are the ones
of `Httb.AsyncSession`, and `LiveContext.calls` is what the coarser model sees of them.

## Layers

- `AsyncSession.exists_news`: what a completion adds to the log of a session
- `fire_eq`: what it does to the session, to the context and to the caller
- `calls_step`: the coarser model sees a step as one of its own, or not at all
-/

namespace Httb

open Httb.Foundation

/-! ## The sessions of a context -/

/-- A call of `onProgress` or of `cb`. -/
inductive CallerEvent where
  | progress (loaded total : UInt64) (progress : Rat)
  | response (resp : Response)
  deriving DecidableEq

/-- The response that the callback was called with. -/
def CallerEvent.asResponse : CallerEvent → Option Response
  | .progress _ _ _ => none
  | .response resp => some resp

@[simp] theorem CallerEvent.asResponse_progress (loaded total : UInt64) (progress : Rat) :
    (CallerEvent.progress loaded total progress).asResponse = none := rfl

@[simp] theorem CallerEvent.asResponse_response (resp : Response) :
    (CallerEvent.response resp).asResponse = some resp := rfl

/-- A session that is alive because a handler holds it, with the variable that its success
lambda refers to, and the number of the call it is for. -/
structure LiveSession where
  session : AsyncSession
  captured : RequestVariable
  ticket : ℕ

/-- A context with its sessions, what callers were told, and their calls: the request, and
whether `onProgress` is set. -/
structure LiveContext where
  scope : Scope := []
  live : List LiveSession := []
  redirects : ℕ := 0
  copies : List CapturedCopy := []
  told : List (ℕ × CallerEvent) := []
  asked : List (BaseRequest × Bool) := []

/-- An operation of a live session completes. What a copy finds where a variable was is not
defined; `stale` says what it is. -/
structure Firing where
  index : ℕ
  op : Operation
  completion : Completion
  stale : BaseRequest := {}

/-- What happens around a context. -/
inductive LiveEvent where
  | scope (s : Scope)
  | execute (var : RequestVariable) (onProgress : Bool)
  | fire (f : Firing)

namespace LiveContext

/-! ## Starting sessions and calling back -/

/-- `execute_in_context`: a session is made for the request and run. -/
def executeInContext (p : LiveContext) (request : BaseRequest) (var : RequestVariable)
    (onProgress : Bool) (ticket : ℕ) : LiveContext :=
  { p with live := p.live ++ [⟨.started request onProgress, var, ticket⟩] }

/-- A function of the caller is called. -/
def tell (p : LiveContext) (ticket : ℕ) (e : CallerEvent) : LiveContext :=
  { p with told := p.told ++ [(ticket, e)] }

/-- The callback for a call is called. -/
def deliver (p : LiveContext) (ticket : ℕ) : CallbackEffect → LiveContext
  | .called resp => p.tell ticket (.response resp)
  -- the callbacks here are set
  | .threw => p
  | .skipped => p

variable [Toolbox] [BoostRegex] [BoostErrors]

/-- The session calls one of the two lambdas. -/
def runLambda (client : Client) (p : LiveContext) (l : LiveSession) (stale : BaseRequest)
    (report : SessionReport) : LiveContext :=
  -- the copy of the request is made through the captured reference
  let held := p.scope.lookup l.captured
  match onReport client true (held.getD stale) report with
  | .finished effect => p.deliver l.ticket effect
  | .executeAgain redirectRequest =>
    let copy : CapturedCopy := ⟨l.session.requestRaw, held⟩
    { p with copies := p.copies ++ [copy], redirects := p.redirects + 1 }.executeInContext
      redirectRequest (.redirectLocal p.redirects) l.session.progressFunc l.ticket

/-- What a session logs, as the functions that were given to it hear it. -/
def hear (client : Client) (l : LiveSession) (stale : BaseRequest) (p : LiveContext) :
    SessionEvent → LiveContext
  | .progressed loaded total progress => p.tell l.ticket (.progress loaded total progress)
  | .reported report => p.runLambda client l stale report
  -- nobody outside hears of operations
  | .started _ => p
  | .completed _ _ => p

/-- An operation of a live session completes, and its handler runs. -/
def fire (client : Client) (p : LiveContext) (f : Firing) : LiveContext :=
  match p.live[f.index]? with
  | none => p
  | some l =>
    let session := l.session.complete f.op f.completion
    -- the functions are called inside the handler, in the order of the log
    let p := (session.log.drop l.session.log.length).foldl (hear client l f.stale) p
    -- a session that waits for nothing is held by no handler any more
    if session.pending.isEmpty then { p with live := p.live.eraseIdx f.index }
    else { p with live := p.live.set f.index { l with session } }

/-- What an event makes of a context. A call has the number of the calls before it. -/
def next (client : Client) (p : LiveContext) : LiveEvent → LiveContext
  | .scope s => { p with scope := s }
  | .execute var onProgress =>
    match p.scope.lookup var with
    | none => p
    | some request =>
      { p.executeInContext request var onProgress p.asked.length with
        asked := p.asked ++ [(request, onProgress)] }
  | .fire f => p.fire client f

/-- The event can happen: the variable is alive, or the operation is pending. -/
def possible (p : LiveContext) : LiveEvent → Bool
  | .scope _ => true
  | .execute var _ => (p.scope.lookup var).isSome
  | .fire f => (p.live[f.index]?).any fun l => l.session.pending.contains f.op

/-- The events can happen one after another. -/
def allPossible (client : Client) : LiveContext → List LiveEvent → Bool
  | _, [] => true
  | p, e :: es => p.possible e && allPossible client (p.next client e) es

end LiveContext

section Steps

variable [Toolbox] [BoostRegex] [BoostErrors]

/-- The steps of a context, in any order: any pending operation of any session completes in any
way, and in between variables come and go and calls are made. -/
inductive LiveStep (client : Client) : LiveContext → LiveEvent → LiveContext → Prop where
  | scope (p : LiveContext) (s : Scope) : LiveStep client p (.scope s) { p with scope := s }
  | execute (p : LiveContext) (var : RequestVariable) (request : BaseRequest) (onProgress : Bool)
      (h : p.scope.lookup var = some request) :
      LiveStep client p (.execute var onProgress)
        { p.executeInContext request var onProgress p.asked.length with
          asked := p.asked ++ [(request, onProgress)] }
  | fire (p : LiveContext) (f : Firing) (l : LiveSession) (hl : p.live[f.index]? = some l)
      (hop : f.op ∈ l.session.pending) : LiveStep client p (.fire f) (p.fire client f)

theorem liveStep_next {client : Client} {p : LiveContext} {e : LiveEvent}
    (h : p.possible e = true) : LiveStep client p e (p.next client e) := by
  cases e with
  | scope s => exact .scope p s
  | execute var onProgress =>
    obtain ⟨request, hrequest⟩ := Option.isSome_iff_exists.mp h
    rw [LiveContext.next, hrequest]
    exact .execute p var request onProgress hrequest
  | fire f =>
    obtain ⟨l, hl, hop⟩ := (Option.any_eq_true ..).mp h
    exact .fire p f l hl (List.contains_iff_mem.mp hop)

theorem run_of_allPossible {client : Client} {p : LiveContext} {es : List LiveEvent}
    (h : LiveContext.allPossible client p es = true) :
    Run (LiveStep client) p (traceOf (LiveContext.next client) p es) := by
  induction es generalizing p with
  | nil => exact .nil p
  | cons e es ih =>
    rw [LiveContext.allPossible, Bool.and_eq_true] at h
    exact .cons (liveStep_next h.1) (ih h.2)

end Steps

/-! ## What the coarser model sees -/

/-- Of a session that it waits, of a call that it was made. -/
def LiveSession.waiting (l : LiveSession) : ContextSession :=
  ⟨l.session.requestRaw, l.captured, l.ticket⟩

/-- Of what a caller is told only the responses. -/
def LiveContext.delivered (told : List (ℕ × CallerEvent)) : List (ℕ × Response) :=
  told.filterMap fun x => x.2.asResponse.map (x.1, ·)

/-- The context as `Httb.Context` has it. -/
def LiveContext.calls (p : LiveContext) : ContextCalls where
  runtime := {
    scope := p.scope
    context := { sessions := p.live.map LiveSession.waiting }
    redirects := p.redirects
    copies := p.copies
    delivered := LiveContext.delivered p.told }
  asked := p.asked.map Prod.fst

/-! ## What no handler writes -/

namespace AsyncSession

/-- The session went from `s` to `s'` with its request and its functions, and without a progress
function it told no progress. -/
structure Frame (s s' : AsyncSession) : Prop where
  requestRaw : s'.requestRaw = s.requestRaw
  progressFunc : s'.progressFunc = s.progressFunc
  silent : s.progressFunc = false →
    s'.log.filter SessionEvent.isProgress = s.log.filter SessionEvent.isProgress

theorem Frame.trans {s s' s'' : AsyncSession} (h : Frame s s') (h' : Frame s' s'') :
    Frame s s'' where
  requestRaw := h'.requestRaw.trans h.requestRaw
  progressFunc := h'.progressFunc.trans h.progressFunc
  silent hnone := (h'.silent (h.progressFunc.trans hnone)).trans (h.silent hnone)

variable (s : AsyncSession)

/-- To log something else than progress. -/
theorem frame_log (e : SessionEvent) (he : e.isProgress = false) :
    Frame s { s with log := s.log ++ [e] } where
  requestRaw := rfl
  progressFunc := rfl
  silent _ := by simp [List.filter_append, he]

theorem frame_start (op : Operation) : Frame s (s.start op) :=
  ⟨rfl, rfl, (frame_log s (.started op) rfl).silent⟩

theorem frame_fail (ec : ErrorCode) (where_ : Str) : Frame s (s.fail ec where_) := by
  rw [fail]
  split
  · exact frame_log s _ rfl
  · exact ⟨rfl, rfl, fun _ => rfl⟩

theorem frame_readResponse : Frame s s.readResponse := by
  obtain ⟨op, -, heq⟩ := exists_start_readResponse s
  rw [heq]
  exact frame_start s op

theorem frame_tellDone : Frame s s.tellDone := by
  obtain ⟨told, -, heq⟩ := (exists_told s).1
  refine ⟨by rw [heq], by rw [heq], fun hnone => ?_⟩
  rw [tellDone, if_neg (by simp [hnone])]

theorem frame_tellLoaded : Frame s s.tellLoaded := by
  obtain ⟨told, -, heq⟩ := (exists_told s).2
  refine ⟨by rw [heq], by rw [heq], fun hnone => ?_⟩
  rw [tellLoaded, if_neg (by simp [hnone])]

theorem frame_stage (ec : ErrorCode) (where_ : Str) {next : AsyncSession}
    (hnext : Frame s next) :
    Frame s (if ec.failed && !isIgnoredError ec then s.fail ec where_ else next) := by
  split
  · exact frame_fail s ec where_
  · exact hnext

theorem frame_onRead (ec : ErrorCode) (n : ℕ) (shutdown : ErrorCode) :
    Frame s (s.onRead ec n shutdown) := by
  refine frame_stage s ec _ ?_
  split
  · dsimp only
    split
    · exact frame_fail s shutdown _
    · refine (frame_tellDone s).trans ?_
      split
      · exact frame_log _ _ rfl
      · exact ⟨rfl, rfl, fun _ => rfl⟩
  · exact (frame_tellLoaded s).trans (frame_readResponse _)

theorem frame_handle (op : Operation) (c : Completion) : Frame s (s.handle op c) := by
  have hresponse : Frame s { s with response := c.response } := ⟨rfl, rfl, fun _ => rfl⟩
  have hread := hresponse.trans (frame_onRead _ c.ec c.bytesTransferred c.shutdown)
  cases op with
  | resolve => exact frame_stage s c.ec _ (frame_start s _)
  | connect =>
    refine frame_stage s c.ec _ ?_
    split
    · exact frame_start s _
    · exact frame_start s _
  | handshake => exact frame_stage s c.ec _ (frame_start s _)
  | write stream => exact frame_stage s c.ec _ (frame_readResponse s)
  | read stream => exact hread
  | readSome stream => exact hread

theorem frame_complete (op : Operation) (c : Completion) : Frame s (s.complete op c) := by
  have hdequeue : Frame s (s.dequeue op c.ec) :=
    ⟨rfl, rfl, (frame_log s (.completed op c.ec) rfl).silent⟩
  exact hdequeue.trans (frame_handle _ op c)

/-- What a completion adds to the log of a session that stands in a phase: progress, if there is
a function for it, and then what the handler ends in. -/
theorem exists_news {s : AsyncSession} (h : Phase s) {op : Operation} (hop : op ∈ s.pending)
    (c : Completion) :
    ∃ (told : List SessionEvent) (ending : Ending),
      (s.complete op c).log = s.log ++ .completed op c.ec :: (told ++ [ending.event]) ∧
      (s.complete op c).pending = ending.pending ∧
      (s.complete op c).reports = [ending.event].filterMap SessionEvent.asReport ∧
      (∀ e ∈ told, e.isProgress = true) ∧ (s.progressFunc = false → told = []) := by
  obtain ⟨told, ending, -, hh⟩ := handled_complete h op c
  have hreports := h.reports_complete hop hh
  have hlog : (s.complete op c).log = s.log ++ .completed op c.ec :: (told ++ [ending.event]) := by
    rw [hh.log, dequeue, List.append_assoc]
    rfl
  refine ⟨told, ending, hlog, ?_, hreports, hh.told_isProgress, fun hnone => ?_⟩
  · rw [hh.pending, dequeue, (h.waiting hop).1]
    simp
  · -- all that was told is progress, and of progress there is none
    have hsilent := (frame_complete s op c).silent hnone
    rw [hlog] at hsilent
    have hnews : (SessionEvent.completed op c.ec :: (told ++ [ending.event])).filter
        SessionEvent.isProgress = [] := by simpa [List.filter_append] using hsilent
    rw [List.filter_eq_nil_iff] at hnews
    refine List.eq_nil_iff_forall_not_mem.mpr fun e he => ?_
    exact hnews e (by simp [he]) (hh.told_isProgress e he)

end AsyncSession

/-! ## What a completion does -/

/-- The session has not reported, and waits for one operation. -/
def LiveSession.Waits (l : LiveSession) : Prop :=
  AsyncSession.Phase l.session ∧ ∃ op, l.session.pending = [op]

/-- Calls of `onProgress` for a session. -/
structure ProgressFor (l : LiveSession) (ps : List (ℕ × CallerEvent)) : Prop where
  ticket : ∀ x ∈ ps, x.1 = l.ticket
  isProgress : ∀ x ∈ ps, x.2.asResponse = none
  silent : l.session.progressFunc = false → ps = []

namespace LiveContext

variable [Toolbox] [BoostRegex] [BoostErrors] {client : Client} {p : LiveContext}
  {l : LiveSession}

/-- Progress goes to the caller, and nowhere else. -/
theorem exists_foldl_hear (client : Client) (l : LiveSession) (stale : BaseRequest)
    {told : List SessionEvent} (htold : ∀ e ∈ told, e.isProgress = true)
    (hsilent : l.session.progressFunc = false → told = []) (p : LiveContext) :
    ∃ ps, ProgressFor l ps ∧
      told.foldl (hear client l stale) p = { p with told := p.told ++ ps } := by
  induction told generalizing p with
  | nil =>
    exact ⟨[], ⟨by simp, by simp, fun _ => rfl⟩, by simp⟩
  | cons e told ih =>
    -- without a progress function nothing was logged
    cases hfunc : l.session.progressFunc with
    | false => cases hsilent hfunc
    | true =>
      obtain ⟨he, hrest⟩ := List.forall_mem_cons.mp htold
      cases e with
      | progressed loaded total progress =>
        obtain ⟨ps, hps, heq⟩ := ih hrest (by simp [hfunc])
          (p.tell l.ticket (.progress loaded total progress))
        refine ⟨(l.ticket, .progress loaded total progress) :: ps, ?_, ?_⟩
        · refine ⟨List.forall_mem_cons.mpr ⟨rfl, hps.ticket⟩,
            List.forall_mem_cons.mpr ⟨rfl, hps.isProgress⟩, by simp [hfunc]⟩
        · rw [List.foldl_cons, hear, heq]
          simp [tell]
      | _ => cases he

/-- **What a completion does.** The caller is told progress; then the session goes on with one
operation, or it calls one of the lambdas and is gone. -/
theorem fire_eq (client : Client) {f : Firing} (hl : p.live[f.index]? = some l)
    (hphase : AsyncSession.Phase l.session) (hop : f.op ∈ l.session.pending) :
    let session := l.session.complete f.op f.completion
    ∃ ps, ProgressFor l ps ∧
      ((∃ op, session.pending = [op] ∧ session.reports = [] ∧
        p.fire client f =
          { p with told := p.told ++ ps, live := p.live.set f.index { l with session } }) ∨
      ∃ report, session.reports = [report] ∧
        let q := { p with told := p.told ++ ps }.runLambda client l f.stale report
        p.fire client f = { q with live := q.live.eraseIdx f.index }) := by
  intro session
  obtain ⟨told, ending, hlog, hpending, hreports, hprogress, hsilent⟩ :=
    AsyncSession.exists_news hphase hop f.completion
  obtain ⟨ps, hps, heq⟩ := exists_foldl_hear client l f.stale hprogress hsilent p
  -- the completion itself is not heard, what the handler ends in is heard last
  have hheard : (session.log.drop l.session.log.length).foldl (hear client l f.stale) p =
      hear client l f.stale { p with told := p.told ++ ps } ending.event := by
    rw [hlog, List.drop_left, List.foldl_cons, List.foldl_append]
    show List.foldl _ (told.foldl (hear client l f.stale) p) _ = _
    rw [heq]
    rfl
  refine ⟨ps, hps, ?_⟩
  rw [fire, hl]
  show _ ∨ _
  cases ending with
  | starts op =>
    refine .inl ⟨op, hpending, hreports, ?_⟩
    show (if session.pending.isEmpty = true then _ else _) = _
    rw [hheard, hpending]
    rfl
  | reports report =>
    refine .inr ⟨report, hreports, ?_⟩
    show (if session.pending.isEmpty = true then _ else _) = _
    rw [hheard, hpending]
    rfl

/-- One of the lambdas calls the callback, or makes the next session of the call. -/
theorem runLambda_cases (client : Client) (p : LiveContext) (l : LiveSession)
    (stale : BaseRequest) (report : SessionReport) :
    (followsRedirect client report = false ∧
      ∃ resp, p.runLambda client l stale report = p.tell l.ticket (.response resp)) ∨
    (followsRedirect client report = true ∧
      ∃ redirectRequest, p.runLambda client l stale report =
        { p with
          live := p.live ++ [⟨.started redirectRequest l.session.progressFunc,
            .redirectLocal p.redirects, l.ticket⟩]
          redirects := p.redirects + 1
          copies := p.copies ++ [⟨l.session.requestRaw, p.scope.lookup l.captured⟩] }) := by
  rw [runLambda]
  cases hfollows : followsRedirect client report with
  | false =>
    obtain ⟨effect, hlambda⟩ := onReport_of_delivers true hfollows
    obtain ⟨resp, rfl⟩ := called_of_onReport (hlambda {})
    simp only [hlambda]
    exact .inl ⟨trivial, resp, rfl⟩
  | true =>
    obtain ⟨resp, hlambda⟩ := onReport_of_follows hfollows
    simp only [hlambda]
    exact .inr ⟨trivial, _, rfl⟩

/-! ## What the coarser model sees of it -/

omit [Toolbox] [BoostRegex] [BoostErrors] in
theorem delivered_append (told ps : List (ℕ × CallerEvent)) :
    delivered (told ++ ps) = delivered told ++ delivered ps := by
  rw [delivered, List.filterMap_append, delivered, delivered]

omit [Toolbox] [BoostRegex] [BoostErrors] in
theorem delivered_of_progress {ps : List (ℕ × CallerEvent)} (h : ∀ x ∈ ps, x.2.asResponse = none) :
    delivered ps = [] := by
  rw [delivered, List.filterMap_eq_nil_iff]
  intro x hx
  rw [h x hx, Option.map_none]

/-- A session that calls a lambda is seen as the report of the session that waits. -/
theorem calls_runLambda {i : ℕ} (hl : p.live[i]? = some l) {ps : List (ℕ × CallerEvent)}
    (hps : ProgressFor l ps) (stale : BaseRequest) (report : SessionReport) :
    let q := { p with told := p.told ++ ps }.runLambda client l stale report
    LiveContext.calls { q with live := q.live.eraseIdx i } =
      { p.calls with runtime := p.calls.runtime.complete client ⟨i, report, stale⟩ } := by
  intro q
  have hsession : p.calls.runtime.context.sessions[i]? = some l.waiting := by
    show (p.live.map LiveSession.waiting)[i]? = _
    rw [List.getElem?_map, hl]
    rfl
  have hlt : i < p.live.length := (List.getElem?_eq_some_iff.mp hl).1
  have htold (resp : Response) : delivered (p.told ++ ps ++ [(l.ticket, .response resp)]) =
      delivered p.told ++ [(l.ticket, resp)] := by
    rw [delivered_append, delivered_append, delivered_of_progress hps.isProgress, List.append_nil]
    rfl
  have hlive : (p.live.eraseIdx i).map LiveSession.waiting =
      (p.live.map LiveSession.waiting).eraseIdx i := (List.eraseIdx_map _ _ _).symm
  -- both levels run the same lambda on the same report and, through the same reference, the
  -- same request
  cases hfollows : followsRedirect client report with
  | false =>
    obtain ⟨effect, hlambda⟩ := onReport_of_delivers true hfollows
    obtain ⟨resp, rfl⟩ := called_of_onReport (hlambda {})
    have hfinished : p.calls.runtime.lambda client true ⟨i, report, stale⟩ l.waiting =
        .finished (.called resp) := hlambda ((p.scope.lookup l.captured).getD stale)
    have hcomplete : p.calls.runtime.complete client ⟨i, report, stale⟩ = _ :=
      Runtime.completeWith_of_finished hsession hfinished
    rw [hcomplete]
    simp only [q, runLambda, hlambda, deliver, tell, calls, htold, hlive]
    rfl
  | true =>
    obtain ⟨resp, hlambda⟩ := onReport_of_follows hfollows
    have hagain : p.calls.runtime.lambda client true ⟨i, report, stale⟩ l.waiting = _ :=
      hlambda true ((p.scope.lookup l.captured).getD stale)
    have hcomplete : p.calls.runtime.complete client ⟨i, report, stale⟩ = _ :=
      Runtime.completeWith_of_executeAgain hsession hagain
    rw [hcomplete]
    simp only [q, runLambda, hlambda, executeInContext, calls,
      List.eraseIdx_append_of_lt_length hlt, List.map_append, hlive,
      delivered_append, delivered_of_progress hps.isProgress, List.append_nil]
    rfl

/-- The sessions of a context wait for one operation each. -/
def Waiting (p : LiveContext) : Prop := ∀ l ∈ p.live, l.Waits

omit [Toolbox] [BoostRegex] [BoostErrors] in
/-- A session that was made just now waits for its host to be resolved. -/
theorem waits_append {live : List LiveSession} (h : ∀ l ∈ live, l.Waits) (request : BaseRequest)
    (var : RequestVariable) (onProgress : Bool) (ticket : ℕ) :
    ∀ l ∈ live ++ [⟨.started request onProgress, var, ticket⟩], l.Waits := by
  intro l hl
  rcases List.mem_append.mp hl with hl | hl
  · exact h l hl
  · obtain rfl := List.mem_singleton.mp hl
    exact ⟨AsyncSession.phase_started request onProgress, .resolve, rfl⟩

theorem waiting_step {p p' : LiveContext} {e : LiveEvent} (h : Waiting p)
    (hstep : LiveStep client p e p') : Waiting p' := by
  cases hstep with
  | scope s => exact h
  | execute var request onProgress hvar => exact waits_append h request var onProgress _
  | fire f l hl hop =>
    have hphase := (h l (List.mem_of_getElem? hl)).1
    obtain ⟨ps, -, ⟨op, hpending, -, heq⟩ | ⟨report, -, heq⟩⟩ :=
      fire_eq client hl hphase hop
    · -- the session has started its next operation
      rw [heq]
      intro l' hl'
      rcases List.mem_or_eq_of_mem_set hl' with hl' | rfl
      · exact h l' hl'
      · exact ⟨hphase.step (.complete _ _ _ hop), op, hpending⟩
    · rw [heq]
      intro l' hl'
      have hl' := List.mem_of_mem_eraseIdx hl'
      rcases runLambda_cases client { p with told := p.told ++ ps } l f.stale report with
        ⟨-, resp, hlambda⟩ | ⟨-, q, hlambda⟩
      · rw [hlambda] at hl'
        exact h l' hl'
      · rw [hlambda] at hl'
        exact waits_append h q _ _ _ l' hl'

/-- A session reports what it comes to alone, and a redirect reads the request that was sent. -/
def FiresAlone (client : Client) (session : BaseRequest → SessionReport) (p : LiveContext) :
    LiveEvent → Prop
  | .fire f => ∀ l ∈ p.live[f.index]?, ∀ r ∈ (l.session.complete f.op f.completion).reports,
      r = session l.session.requestRaw ∧
        (followsRedirect client r = true →
          (p.scope.lookup l.captured).getD f.stale = l.session.requestRaw)
  | _ => True

instance (client : Client) (session : BaseRequest → SessionReport) (p : LiveContext)
    (e : LiveEvent) : Decidable (FiresAlone client session p e) :=
  match e with
  | .scope _ => inferInstanceAs (Decidable True)
  | .execute _ _ => inferInstanceAs (Decidable True)
  | .fire f => inferInstanceAs (Decidable (∀ l ∈ p.live[f.index]?,
      ∀ r ∈ (l.session.complete f.op f.completion).reports, _ ∧ (_ → _)))

/-- An operation completes, and a session that reports by it reports what it comes to alone. -/
def ReportsOwn (session : BaseRequest → SessionReport) (p : LiveContext) (e : LiveEvent) : Prop :=
  ∃ f, e = .fire f ∧ ∀ l ∈ p.live[f.index]?,
    ∀ r ∈ (l.session.complete f.op f.completion).reports, r = session l.session.requestRaw

omit [BoostErrors] in
theorem followsRedirect_eq_isSome (request : BaseRequest) :
    followsRedirect client (session request) = (nextSent client session request).isSome := by
  rw [nextSent]
  cases session request with
  | error ec wtf => rfl
  | success result bytes =>
    cases hfollows : followsRedirect client (.success result bytes) with
    | false => simp [hfollows]
    | true => simp [hfollows]

/-- A redirect that is followed finds the request that its session sent. -/
def FollowsHeld (client : Client) (p : LiveContext) : LiveEvent → Prop
  | .fire f => ∀ l ∈ p.live[f.index]?, ∀ r ∈ (l.session.complete f.op f.completion).reports,
      followsRedirect client r = true → p.scope.lookup l.captured = some l.session.requestRaw
  | _ => True

instance (client : Client) (p : LiveContext) (e : LiveEvent) :
    Decidable (FollowsHeld client p e) :=
  match e with
  | .scope _ => inferInstanceAs (Decidable True)
  | .execute _ _ => inferInstanceAs (Decidable True)
  | .fire f => inferInstanceAs (Decidable (∀ l ∈ p.live[f.index]?,
      ∀ r ∈ (l.session.complete f.op f.completion).reports, _ → _))

/-- The copies that lambdas made stay right exactly when the next one is. -/
theorem copiesHold_step_iff {p p' : LiveContext} {e : LiveEvent} (h : Waiting p)
    (hcopies : CopiesHold p.calls.runtime) (hstep : LiveStep client p e p') :
    CopiesHold p'.calls.runtime ↔ FollowsHeld client p e := by
  cases hstep with
  | scope s => exact iff_of_true hcopies trivial
  | execute var request onProgress hvar => exact iff_of_true hcopies trivial
  | fire f l hl hop =>
    have hphase := (h l (List.mem_of_getElem? hl)).1
    simp only [FollowsHeld, hl, Option.mem_some_iff, forall_eq']
    obtain ⟨ps, -, ⟨op, -, hnone, heq⟩ | ⟨report, hreports, heq⟩⟩ := fire_eq client hl hphase hop
    · rw [heq, hnone]
      exact iff_of_true hcopies fun r hr => absurd hr List.not_mem_nil
    · rw [heq, hreports]
      simp only [List.mem_singleton, forall_eq]
      rcases runLambda_cases client { p with told := p.told ++ ps } l f.stale report with
        ⟨hfollows, resp, hlambda⟩ | ⟨hfollows, q, hlambda⟩
      · rw [hlambda, hfollows]
        exact iff_of_true hcopies nofun
      · -- the copy that is made here is the last one
        rw [hlambda, hfollows, CopiesHold]
        simp only [calls, List.forall_mem_append, List.forall_mem_singleton, true_implies]
        exact and_iff_right hcopies

/-- A completion is seen as the report of a session that waits, or not at all. -/
theorem calls_fire (client : Client) {f : Firing} (hl : p.live[f.index]? = some l)
    (hphase : AsyncSession.Phase l.session) (hop : f.op ∈ l.session.pending) :
    (p.fire client f).calls = p.calls ∨
    ∃ a : Answer, a.index < p.calls.runtime.context.sessions.length ∧
      (p.fire client f).calls =
        { p.calls with runtime := p.calls.runtime.complete client a } ∧
      ∀ session, FiresAlone client session p (.fire f) →
        AnswersFor client session p.calls.runtime a := by
  obtain ⟨hlt, hget⟩ := List.getElem?_eq_some_iff.mp hl
  obtain ⟨ps, hps, ⟨op, -, -, heq⟩ | ⟨report, hreports, heq⟩⟩ := fire_eq client hl hphase hop
  · -- the session goes on, and looks from outside as before
    left
    have hwaiting : LiveSession.waiting { l with
        session := l.session.complete f.op f.completion } = l.waiting := by
      rw [LiveSession.waiting, (AsyncSession.frame_complete l.session _ _).requestRaw,
        LiveSession.waiting]
    have hlive : (p.live.set f.index { l with
        session := l.session.complete f.op f.completion }).map LiveSession.waiting =
        p.live.map LiveSession.waiting := by
      rw [List.map_set, hwaiting]
      refine List.ext_getElem? fun i => ?_
      rw [List.getElem?_set]
      split
      · rename_i hi
        simp [← hi, hlt, hget]
      · rfl
    rw [heq]
    simp only [calls, hlive, delivered_append, delivered_of_progress hps.isProgress,
      List.append_nil]
  · right
    refine ⟨⟨f.index, report, f.stale⟩, by simpa [calls] using hlt, ?_, ?_⟩
    · rw [heq, calls_runLambda hl hps]
    · -- the session that waits there is the one that fired
      intro session hfires s hs
      have hsession : p.calls.runtime.context.sessions[f.index]? = some l.waiting := by
        show (p.live.map LiveSession.waiting)[f.index]? = _
        rw [List.getElem?_map, hl]
        rfl
      obtain rfl : l.waiting = s := by
        rw [hsession] at hs
        exact Option.some.inj hs
      exact hfires l hl report (by rw [hreports]; exact List.mem_singleton_self _)

/-- **A step is seen as a step, or not at all.** -/
theorem calls_step {p p' : LiveContext} {e : LiveEvent} (h : Waiting p)
    (hstep : LiveStep client p e p') :
    p'.calls = p.calls ∨ ∃ e', ContextStep client p.calls e' p'.calls ∧
      ∀ session, FiresAlone client session p e → ReportsAlone client session p.calls e' := by
  cases hstep with
  | scope s => exact .inr ⟨.scope s, .scope p.calls s, fun _ _ => trivial⟩
  | execute var request onProgress hvar =>
    refine .inr ⟨.execute var, ?_, fun _ _ => trivial⟩
    have hstep : ContextStep client p.calls (.execute var) _ := .execute p.calls var request hvar
    rw [Runtime.executeInContext_of_lookup hvar] at hstep
    have hcalls : LiveContext.calls
        { p.executeInContext request var onProgress p.asked.length with
          asked := p.asked ++ [(request, onProgress)] } =
        ⟨{ p.calls.runtime with context := { p.calls.runtime.context with
          sessions := p.calls.runtime.context.sessions ++
            [⟨request, var, p.calls.asked.length⟩] } }, p.calls.asked ++ [request]⟩ := by
      simp [calls, LiveContext.executeInContext, LiveSession.waiting, AsyncSession.started,
        AsyncSession.setOnProgressCb, AsyncSession.run, AsyncSession.start]
    rw [hcalls]
    exact hstep
  | fire f l hl hop =>
    have hphase := (h l (List.mem_of_getElem? hl)).1
    rcases calls_fire client hl hphase hop with hsame | ⟨a, ha, heq, halone⟩
    · exact .inl hsame
    · rw [heq]
      exact .inr ⟨.answer a, .answer p.calls a ha, halone⟩

end LiveContext

end Httb
