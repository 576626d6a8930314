import Httb.Context
import Httb.Foundation.Runs
import Mathlib.Data.List.Perm.Basic

/-!
# Runs of a Batch

`httb::batch_request` (`src/client.cpp`): requests are queued by `add`, and `run_all` starts
a session for each of them and runs the one context of the batch until it is out of work.
A context that has run out of work is stopped, and the next `run_all` returns without
running anything.

## Layers

- `BatchStep`: the calls of `add` and `run_all`, and what happens while `run_all` waits
- `BatchInv`: every queued request is delivered or waits, as long as the context is not stopped
- `LoopInv`, `copiesHold_batch_iff`: the variables of the loop are gone when its lambdas run, so
  every copy is right exactly when there is none
- `batch_delivers_iff`: no response is lost or duplicated exactly in the runs that never
  start requests in a stopped context and follow no redirect
-/

namespace Httb

open Httb.Foundation

/-! ## Calls -/

/-- The overloads of `run_all`: a callback for each response, or one for all. -/
inductive Overload where
  | each | all
  deriving DecidableEq

/-- A call of `run_all` that waits in `m_ctx.run()`, with the number of `add` calls since the
one before. -/
structure RunningCall where
  overload : Overload
  adds : ℕ
  deriving DecidableEq

/-- A call of `run_all` that has returned: the responses that each invocation of its callback
was given, with the numbers of their requests, and what was left in the queue. -/
structure ReturnedCall extends RunningCall where
  invocations : List (List (ℕ × Response))
  leftInQueue : ℕ
  deriving DecidableEq

/-- The call found the queue empty at its end and gave one response for each request. -/
structure ReturnedCall.Delivers (c : ReturnedCall) : Prop where
  queue_empty : c.leftInQueue = 0
  one_each : (c.invocations.flatten.map Prod.fst).Perm (List.range c.adds)

/-- So there are as many responses as there were `add` calls. -/
theorem ReturnedCall.Delivers.length_eq {c : ReturnedCall} (h : c.Delivers) :
    c.invocations.flatten.length = c.adds := by
  have hlength := h.one_each.length_eq
  rwa [List.length_map, List.length_range] at hlength

/-- `httb::batch_request`. A queued request has the number of its `add` call; `calls` logs the
calls of `run_all` that have returned. -/
structure BatchRequest where
  requests : List (ℕ × BaseRequest) := []
  runtime : Runtime := {}
  adds : ℕ := 0
  running : Option RunningCall := none
  calls : List ReturnedCall := []
  deriving DecidableEq

/-- The invocations of the callback. The vector of the second overload is passed on when
`m_ctx.run()` has returned. -/
def Overload.invocations (delivered : List (ℕ × Response)) :
    Overload → List (List (ℕ × Response))
  | .each => delivered.map fun d => [d]
  | .all => [delivered]

theorem Overload.flatten_invocations (o : Overload) (delivered : List (ℕ × Response)) :
    (o.invocations delivered).flatten = delivered := by
  cases o with
  | each =>
    rw [invocations, ← List.flatMap_def]
    exact List.flatMap_singleton' delivered
  | all => simp [invocations]

namespace BatchRequest

/-- `add`. -/
def add (b : BatchRequest) (req : BaseRequest) : BatchRequest :=
  { b with requests := b.requests ++ [(b.adds, req)], adds := b.adds + 1 }

/-- The `while` loop of `run_all`, over what is left of the queue, the last request first;
`pass` counts its passes. -/
def startLoop : (pass : ℕ) → List (ℕ × BaseRequest) → Runtime → Runtime
  | _, [], r => r
  | pass, (ticket, req) :: rest, r =>
    startLoop (pass + 1) rest (r.executeLocal (.loopLocal pass) req ticket)

/-- `run_all` up to `m_ctx.run()`. The callback or the vector of this call has got nothing yet. -/
def enter (b : BatchRequest) (o : Overload) : BatchRequest :=
  { b with
    runtime := startLoop 0 b.requests.reverse { b.runtime with delivered := [] }
    requests := []
    adds := 0
    running := some ⟨o, b.adds⟩ }

/-- `run_all` from where `m_ctx.run()` has returned. -/
def leave (b : BatchRequest) : BatchRequest :=
  match b.running with
  | none => b
  | some call =>
    { b with
      running := none
      calls := b.calls ++
        [⟨call, call.overload.invocations b.runtime.delivered, b.requests.length⟩] }

/-- `run_all`, both overloads, as far as it goes without a handler. -/
def runAll (b : BatchRequest) (o : Overload) : BatchRequest :=
  let b := b.enter o
  -- a stopped context does not run
  if b.runtime.context.stopped then b.leave else b

/-- `m_ctx.run()` has run out of work. -/
def runOut (b : BatchRequest) : BatchRequest :=
  { b with runtime := { b.runtime with
      context := { b.runtime.context with stopped := true } } }.leave

end BatchRequest

/-- What happens to a batch. -/
inductive BatchEvent where
  | add (req : BaseRequest)
  | runAll (o : Overload)
  | answer (a : Answer)
  | runOut

section Steps

variable [Toolbox] [BoostRegex] [BoostErrors]

/-- The steps of a batch: calls from outside while no `run_all` waits, and while one does,
the report of any session that waits with it, until there is none. The settings of
`m_client` are the defaults, as nothing changes them. -/
inductive BatchStep : BatchRequest → BatchEvent → BatchRequest → Prop where
  | add (b : BatchRequest) (req : BaseRequest) (h : b.running = none) :
      BatchStep b (.add req) (b.add req)
  | runAll (b : BatchRequest) (o : Overload) (h : b.running = none) :
      BatchStep b (.runAll o) (b.runAll o)
  | answer (b : BatchRequest) (a : Answer) (h : b.running ≠ none)
      (ha : a.index < b.runtime.context.sessions.length) :
      BatchStep b (.answer a) { b with runtime := b.runtime.complete {} a }
  | runOut (b : BatchRequest) (h : b.running ≠ none) (hidle : b.runtime.context.sessions = []) :
      BatchStep b .runOut b.runOut

end Steps

/-! ## The sessions of a batch -/

/-- The numbers of the requests that wait. -/
def IoContext.tickets (c : IoContext) : List ℕ := c.sessions.map ContextSession.ticket

namespace BatchRequest

/-- The loop starts one session for each request of the queue. -/
theorem startLoop_eq (pass : ℕ) (requests : List (ℕ × BaseRequest)) (r : Runtime) :
    startLoop pass requests r =
      { r with context := { r.context with
          sessions := r.context.sessions ++ (requests.zipIdx pass).map fun x =>
            ⟨x.1.2, .loopLocal x.2, x.1.1⟩ } } := by
  induction requests generalizing pass r with
  | nil => simp [startLoop]
  | cons x requests ih =>
    obtain ⟨ticket, req⟩ := x
    rw [startLoop, ih, Runtime.executeLocal_eq]
    simp

theorem tickets_startLoop (pass : ℕ) (requests : List (ℕ × BaseRequest)) (r : Runtime) :
    (startLoop pass requests r).context.tickets =
      r.context.tickets ++ requests.map Prod.fst := by
  rw [startLoop_eq, IoContext.tickets, List.map_append, List.map_map]
  have hfst : (requests.zipIdx pass).map (fun x => x.1.1) = requests.map Prod.fst := by
    conv_rhs => rw [← List.zipIdx_map_fst pass requests, List.map_map]
    rfl
  exact congrArg (r.context.tickets ++ ·) hfst

end BatchRequest

/-! ## The invariant -/

/-- All calls that have returned delivered what they should. -/
def CallsDeliver (b : BatchRequest) : Prop := ∀ c ∈ b.calls, c.Delivers

/-- The queue holds the requests since the last call; between calls nothing waits; and in a
call each of its requests is delivered or waits in a context that still runs. -/
structure BatchInv (b : BatchRequest) : Prop where
  calls : CallsDeliver b
  queued : b.requests.map Prod.fst = List.range b.adds
  idle : b.running = none → b.runtime.context.sessions = []
  empty : ∀ call ∈ b.running, b.requests = []
  live : ∀ call ∈ b.running, b.runtime.context.stopped = false
  accounted : ∀ call ∈ b.running,
    (b.runtime.delivered.map Prod.fst ++ b.runtime.context.tickets).Perm (List.range call.adds)

/-- `run_all` does not start requests in a stopped context. -/
def RunsFresh (b : BatchRequest) : BatchEvent → Prop
  | .runAll _ => b.runtime.context.stopped = false ∨ b.requests = []
  | _ => True

theorem batchInv_new : BatchInv {} where
  calls := fun c hc => absurd hc List.not_mem_nil
  queued := rfl
  idle := fun _ => rfl
  empty := fun call hcall => by cases hcall
  live := fun call hcall => by cases hcall
  accounted := fun call hcall => by cases hcall

namespace BatchInv

variable {b : BatchRequest}

theorem add (h : BatchInv b) (hidle : b.running = none) (req : BaseRequest) :
    BatchInv (b.add req) where
  calls := h.calls
  queued := by
    rw [BatchRequest.add, List.map_append, h.queued, List.range_succ]
    rfl
  idle := h.idle
  empty := fun call hcall => by
    have hrunning : b.running = some call := hcall
    rw [hidle] at hrunning
    cases hrunning
  live := fun call hcall => h.live call hcall
  accounted := fun call hcall => h.accounted call hcall

/-- A call that has delivered all of its requests returns. -/
theorem leave {call : RunningCall} (hcalls : CallsDeliver b) (hrunning : b.running = some call)
    (hempty : b.requests = []) (hadds : b.adds = 0) (hsessions : b.runtime.context.sessions = [])
    (hdelivered : (b.runtime.delivered.map Prod.fst).Perm (List.range call.adds)) :
    BatchInv b.leave := by
  rw [BatchRequest.leave, hrunning]
  exact {
    calls := by
      intro c hc
      rcases List.mem_append.mp hc with hc | hc
      · exact hcalls c hc
      · obtain rfl := List.mem_singleton.mp hc
        exact ⟨by rw [hempty]; rfl, by rwa [Overload.flatten_invocations]⟩
    queued := by rw [hempty, hadds]; rfl
    idle := fun _ => hsessions
    empty := fun call' hcall' => by cases hcall'
    live := fun call' hcall' => by cases hcall'
    accounted := fun call' hcall' => by cases hcall' }

theorem runAll (h : BatchInv b) (hidle : b.running = none) (o : Overload)
    (hfresh : RunsFresh b (.runAll o)) : BatchInv (b.runAll o) := by
  have hstopped : (b.enter o).runtime.context.stopped = b.runtime.context.stopped := by
    rw [BatchRequest.enter, BatchRequest.startLoop_eq]
  have htickets : (b.enter o).runtime.context.tickets = b.requests.reverse.map Prod.fst := by
    have hnone : ({ b.runtime with delivered := [] } : Runtime).context.tickets = [] := by
      rw [IoContext.tickets, h.idle hidle, List.map_nil]
    rw [BatchRequest.enter, BatchRequest.tickets_startLoop, hnone, List.nil_append]
  have hdelivered : (b.enter o).runtime.delivered = [] := by
    rw [BatchRequest.enter, BatchRequest.startLoop_eq]
  rw [BatchRequest.runAll]
  cases hcontext : b.runtime.context.stopped with
  | false =>
    rw [hcontext] at hstopped
    rw [if_neg (by rw [hstopped]; decide)]
    exact {
      calls := h.calls
      queued := rfl
      idle := fun hrunning => by cases hrunning
      empty := fun _ _ => rfl
      live := fun _ _ => hstopped
      accounted := by
        intro call hcall
        obtain rfl := Option.some.inj hcall
        -- the loop takes the last request first
        rw [hdelivered, htickets, List.map_nil, List.nil_append, List.map_reverse, h.queued]
        exact List.reverse_perm _ }
  | true =>
    -- the context does not run, and there is nothing to run
    have hempty : b.requests = [] := hfresh.resolve_left (by rw [hcontext]; decide)
    have hqueued := h.queued
    rw [hempty] at hqueued
    have hadds : b.adds = 0 := List.range_eq_nil.mp hqueued.symm
    have hsessions : (b.enter o).runtime.context.sessions = [] := by
      rw [hempty] at htickets
      exact List.map_eq_nil_iff.mp htickets
    rw [hcontext] at hstopped
    rw [if_pos hstopped]
    refine BatchInv.leave (b := b.enter o) h.calls rfl rfl rfl hsessions ?_
    rw [hdelivered, hadds]
    exact List.Perm.refl _

theorem runOut (h : BatchInv b) (hbusy : b.running ≠ none)
    (hsessions : b.runtime.context.sessions = []) : BatchInv b.runOut := by
  obtain ⟨call, hcall⟩ := Option.ne_none_iff_exists'.mp hbusy
  have hempty := h.empty call hcall
  have hadds : b.adds = 0 := by
    have hqueued := h.queued
    rw [hempty] at hqueued
    exact List.range_eq_nil.mp hqueued.symm
  -- nothing waits any more, so everything has been delivered
  have hdelivered := h.accounted call hcall
  rw [IoContext.tickets, hsessions, List.map_nil, List.append_nil] at hdelivered
  exact BatchInv.leave h.calls hcall hempty hadds hsessions hdelivered

end BatchInv

section Runs

variable [Toolbox] [BoostRegex] [BoostErrors]

/-! ## One report -/

/-- A report delivers a response or passes its request on; no request is lost or doubled. -/
theorem Runtime.tickets_complete {r : Runtime} {a : Answer} {client : Client}
    (ha : a.index < r.context.sessions.length) :
    ((r.complete client a).delivered.map Prod.fst ++ (r.complete client a).context.tickets).Perm
      (r.delivered.map Prod.fst ++ r.context.tickets) := by
  -- the session that reports stands for its place in the list
  have herase : (r.context.sessions[a.index].ticket ::
      (r.context.sessions.eraseIdx a.index).map ContextSession.ticket).Perm
      r.context.tickets :=
    (List.getElem_cons_eraseIdx_perm ha).map ContextSession.ticket
  rcases complete_cases client ha with ⟨-, resp, heq⟩ | ⟨-, redirectRequest, heq⟩
  · rw [heq]
    simp only [IoContext.tickets, dequeue, List.map_append, List.map_cons, List.map_nil,
      List.append_assoc]
    exact herase.append_left _
  · -- the next session has the number of this one
    rw [heq]
    simp only [IoContext.tickets, List.map_append, List.map_cons, List.map_nil]
    exact ((List.perm_append_singleton _ _).trans herase).append_left _

theorem Runtime.stopped_complete {r : Runtime} {a : Answer} {client : Client}
    (ha : a.index < r.context.sessions.length) :
    (r.complete client a).context.stopped = r.context.stopped := by
  rcases complete_cases client ha with ⟨-, resp, heq⟩ | ⟨-, redirectRequest, heq⟩
  · rw [heq]
    rfl
  · rw [heq]

/-- A report keeps what is accounted for. -/
theorem BatchInv.answer {b : BatchRequest} (h : BatchInv b) {a : Answer}
    (ha : a.index < b.runtime.context.sessions.length) (hbusy : b.running ≠ none) :
    BatchInv { b with runtime := b.runtime.complete {} a } where
  calls := h.calls
  queued := h.queued
  idle := fun hidle => absurd hidle hbusy
  empty := h.empty
  live := fun call hcall => by
    rw [Runtime.stopped_complete ha]
    exact h.live call hcall
  accounted := fun call hcall => (Runtime.tickets_complete ha).trans (h.accounted call hcall)

/-! ## Calls return -/

/-- A call that waits can always go on: a session reports, or the context runs out of work. -/
theorem exists_step_of_running {b : BatchRequest} (h : b.running ≠ none) :
    ∃ e b', BatchStep b e b' := by
  cases hsessions : b.runtime.context.sessions with
  | nil => exact ⟨_, _, .runOut b h hsessions⟩
  | cons session sessions =>
    exact ⟨_, _, .answer b ⟨0, .error {} [], {}⟩ h (by rw [hsessions]; simp)⟩

/-- The event is the report of a session, which does not or does follow a redirect. -/
def BatchEvent.answers (follows : Bool) : BatchEvent → Bool
  | .answer a => followsRedirect {} a.report == follows
  | _ => false

/-- A report that follows no redirect leaves one session less. -/
theorem length_sessions_of_answers {b : BatchRequest} {tr : List (BatchEvent × BatchRequest)}
    (h : Run BatchStep b tr) (hanswers : ∀ x ∈ tr, x.1.answers false) :
    (lastState b tr).runtime.context.sessions.length + tr.length =
      b.runtime.context.sessions.length := by
  induction h with
  | nil b => rfl
  | @cons b b' e tr hstep hrest ih =>
    obtain ⟨hanswer, hrestAnswers⟩ := List.forall_mem_cons.mp hanswers
    cases hstep with
    | answer a hbusy ha =>
      have hfollows : followsRedirect {} a.report = false := by
        simpa [BatchEvent.answers] using hanswer
      have hih := ih hrestAnswers
      have hless := List.length_eraseIdx_of_lt ha
      obtain ⟨resp, heq⟩ := Runtime.complete_of_delivers (List.getElem?_eq_getElem ha) hfollows
      rw [heq] at hih
      simp only [lastState, heq, Runtime.dequeue, List.length_cons] at hih ⊢
      omega
    | _ => simp [BatchEvent.answers] at hanswer

/-- A call that waits returns: it is never stuck, and as long as no redirect is followed, it
waits for one report of each session. -/
def CallReturns (b : BatchRequest) : Prop :=
  b.running ≠ none → (∃ e b', BatchStep b e b') ∧
    ∀ tr : List (BatchEvent × BatchRequest), Run BatchStep b tr →
      (∀ x ∈ tr, x.1.answers false) → tr.length ≤ b.runtime.context.sessions.length

theorem callReturns (b : BatchRequest) : CallReturns b := by
  intro hbusy
  refine ⟨exists_step_of_running hbusy, ?_⟩
  intro tr hrun hanswers
  have hlength := length_sessions_of_answers hrun hanswers
  omega

/-! ## The variables of the loop -/

/-- No redirect is followed. -/
def FollowsNone (_ : BatchRequest) (e : BatchEvent) : Prop := e.answers true = false

/-- The variables of the loop are gone when the context runs. -/
structure LoopInv (b : BatchRequest) : Prop where
  copies : CopiesHold b.runtime
  scope : b.runtime.scope = []

omit [Toolbox] [BoostRegex] [BoostErrors] in
theorem loopInv_new : LoopInv {} where
  copies := fun _ hcopy => absurd hcopy List.not_mem_nil
  scope := rfl

omit [Toolbox] [BoostRegex] [BoostErrors] in
theorem runtime_leave (b : BatchRequest) : b.leave.runtime = b.runtime := by
  unfold BatchRequest.leave
  split <;> rfl

omit [Toolbox] [BoostRegex] [BoostErrors] in
theorem LoopInv.runAll {b : BatchRequest} (h : LoopInv b) (o : Overload) :
    LoopInv (b.runAll o) := by
  have henter : LoopInv (b.enter o) := by
    rw [BatchRequest.enter, BatchRequest.startLoop_eq]
    exact ⟨h.copies, h.scope⟩
  rw [BatchRequest.runAll]
  split
  · exact ⟨by rw [runtime_leave]; exact henter.copies, by rw [runtime_leave]; exact henter.scope⟩
  · exact henter

theorem loopInv_step {b b' : BatchRequest} {e : BatchEvent} (h : LoopInv b)
    (hnone : FollowsNone b e) (hstep : BatchStep b e b') : LoopInv b' := by
  cases hstep with
  | add req hidle => exact ⟨h.copies, h.scope⟩
  | runAll o hidle => exact h.runAll o
  | answer a hbusy ha =>
    have hfollows : followsRedirect {} a.report = false := by
      simpa [FollowsNone, BatchEvent.answers] using hnone
    obtain ⟨resp, heq⟩ := Runtime.complete_of_delivers (List.getElem?_eq_getElem ha) hfollows
    rw [heq]
    exact ⟨h.copies, h.scope⟩
  | runOut hbusy hsessions =>
    refine ⟨?_, ?_⟩
    · rw [BatchRequest.runOut, runtime_leave]
      exact h.copies
    · rw [BatchRequest.runOut, runtime_leave]
      exact h.scope

/-- A redirect that is followed copies a variable that is gone. -/
theorem not_copiesHold_batchStep {b b' : BatchRequest} {e : BatchEvent} (h : LoopInv b)
    (hnone : ¬ FollowsNone b e) (hstep : BatchStep b e b') : ¬ CopiesHold b'.runtime := by
  cases hstep with
  | answer a hbusy ha =>
    have hfollows : followsRedirect {} a.report = true := by
      simpa [FollowsNone, BatchEvent.answers] using hnone
    rw [Runtime.copiesHold_complete_iff h.copies ha, Runtime.ReadsHeld, h.scope]
    intro hreads
    cases hreads hfollows _ (List.getElem?_eq_getElem ha)
  | _ => exact absurd rfl hnone

/-- Behind `run_all` every copy is right exactly when there is none. -/
theorem copiesHold_batch_iff {tr : List (BatchEvent × BatchRequest)} (h : Run BatchStep {} tr) :
    Always (fun b => CopiesHold b.runtime) {} tr ↔ Guarded FollowsNone {} tr :=
  h.always_iff_guarded loopInv_new (fun _ hinv => hinv.copies)
    (fun _ _ _ hinv hnone hstep => loopInv_step hinv hnone hstep)
    (fun _ _ _ hinv hnone hstep => not_copiesHold_batchStep hinv hnone hstep)

/-! ## Runs -/

theorem batchInv_step {b b' : BatchRequest} {e : BatchEvent} (h : BatchInv b)
    (hfresh : RunsFresh b e) (hstep : BatchStep b e b') : BatchInv b' := by
  cases hstep with
  | add req hidle => exact h.add hidle req
  | runAll o hidle => exact h.runAll hidle o hfresh
  | answer a hbusy ha => exact h.answer ha hbusy
  | runOut hbusy hsessions => exact h.runOut hbusy hsessions

/-- A call that starts requests in a stopped context returns without a response. -/
theorem not_callsDeliver_step {b b' : BatchRequest} {e : BatchEvent} (h : BatchInv b)
    (hfresh : ¬ RunsFresh b e) (hstep : BatchStep b e b') : ¬ CallsDeliver b' := by
  cases hstep with
  | runAll o hidle =>
    obtain ⟨hstopped, hqueue⟩ := not_or.mp hfresh
    rw [Bool.not_eq_false] at hstopped
    have henter : (b.enter o).runtime.context.stopped = true := by
      rw [BatchRequest.enter, BatchRequest.startLoop_eq]
      exact hstopped
    have hdelivered : (b.enter o).runtime.delivered = [] := by
      rw [BatchRequest.enter, BatchRequest.startLoop_eq]
    intro hcalls
    rw [BatchRequest.runAll, if_pos henter] at hcalls
    have hlast := hcalls ⟨⟨o, b.adds⟩, o.invocations (b.enter o).runtime.delivered, 0⟩
      (List.mem_append_right _ (List.mem_singleton_self _))
    have hlength := hlast.length_eq
    rw [Overload.flatten_invocations, hdelivered] at hlength
    have hadds : 0 = b.adds := hlength
    -- but there were requests
    have hqueued := h.queued
    rw [← hadds] at hqueued
    exact hqueue (List.map_eq_nil_iff.mp hqueued)
  | _ => exact absurd trivial hfresh

/-- The calls of a batch return, those that have delivered what they should, and no lambda has
copied a request that was not there. -/
structure BatchSound (b : BatchRequest) : Prop where
  delivers : CallsDeliver b
  returns : CallReturns b
  copies : CopiesHold b.runtime

/-- Both invariants. -/
structure SoundInv (b : BatchRequest) : Prop where
  batch : BatchInv b
  loop : LoopInv b

/-- A step that keeps a batch sound: `run_all` does not start requests in a stopped context, and
no report is a redirect that is followed. -/
structure KeepsBatch (b : BatchRequest) (e : BatchEvent) : Prop where
  fresh : RunsFresh b e
  follows : FollowsNone b e

/-- **No response is lost or duplicated, exactly.** In a run of a batch from its construction,
every `run_all` returns, delivers one response for each request queued since the one before, and
copies no request that is gone, if and only if no `run_all` starts requests in a context that an
earlier one has left stopped, and no session reports a redirect that is followed. -/
theorem batch_delivers_iff {tr : List (BatchEvent × BatchRequest)} (h : Run BatchStep {} tr) :
    Always BatchSound {} tr ↔ Guarded KeepsBatch {} tr := by
  have hnew : SoundInv {} := ⟨batchInv_new, loopInv_new⟩
  apply h.always_iff_guarded hnew
  · exact fun b hinv => ⟨hinv.batch.calls, callReturns b, hinv.loop.copies⟩
  · intro b e b' hinv hkeeps hstep
    exact ⟨batchInv_step hinv.batch hkeeps.fresh hstep,
      loopInv_step hinv.loop hkeeps.follows hstep⟩
  · intro b e b' hinv hkeeps hstep hsound
    by_cases hfresh : RunsFresh b e
    · have hfollows : ¬ FollowsNone b e := fun h => hkeeps ⟨hfresh, h⟩
      exact not_copiesHold_batchStep hinv.loop hfollows hstep hsound.copies
    · exact not_callsDeliver_step hinv.batch hfresh hstep hsound.delivers

/-- One request, run to its end; then another one. -/
def usedTwice : List (BatchEvent × BatchRequest) :=
  let a : Answer := { index := 0, report := .error ErrorCode.eof "read".toList }
  let b₁ := ({} : BatchRequest).add {}
  let b₂ := b₁.runAll .each
  let b₃ := { b₂ with runtime := b₂.runtime.complete {} a }
  let b₄ := b₃.runOut
  let b₅ := b₄.add {}
  let b₆ := b₅.runAll .all
  [(.add {}, b₁), (.runAll .each, b₂), (.answer a, b₃), (.runOut, b₄), (.add {}, b₅),
    (.runAll .all, b₆)]

theorem run_usedTwice : Run BatchStep {} usedTwice := by
  refine .cons (.add _ _ rfl) <| .cons (.runAll _ _ rfl) <| .cons (.answer _ _ ?_ ?_) <|
    .cons (.runOut _ ?_ rfl) <| .cons (.add _ _ rfl) <| .cons (.runAll _ _ rfl) <| .nil _
  · decide
  · decide
  · exact Option.some_ne_none _

end Runs

/-- Its first four events are those of a batch that is used once. -/
theorem batchSound_usedOnce :
    letI := Toolbox.reference
    letI := BoostRegex.reference
    letI := BoostErrors.silent
    Always BatchSound {} (usedTwice.take 4) := by
  let := Toolbox.reference
  let := BoostRegex.reference
  let := BoostErrors.silent
  have hrun : Run BatchStep {} (usedTwice.take 4) := by
    obtain _ | ⟨h₁, _ | ⟨h₂, _ | ⟨h₃, _ | ⟨h₄, _⟩⟩⟩⟩ := run_usedTwice
    exact .cons h₁ <| .cons h₂ <| .cons h₃ <| .cons h₄ <| .nil _
  exact (batch_delivers_iff hrun).mpr
    ⟨⟨trivial, rfl⟩, ⟨.inl rfl, rfl⟩, ⟨trivial, rfl⟩, ⟨trivial, rfl⟩, trivial⟩

/-- **The second `run_all` returns without the response to its request.** -/
theorem usedTwice_loses_response :
    letI := Toolbox.reference
    letI := BoostRegex.reference
    letI := BoostErrors.silent
    Run BatchStep {} usedTwice ∧
      (lastState {} usedTwice).calls.map (fun c => (c.adds, c.invocations.flatten.length)) =
        [(1, 1), (1, 0)] ∧
      ¬ Always BatchSound {} usedTwice := by
  let := Toolbox.reference
  let := BoostRegex.reference
  let := BoostErrors.silent
  have hcalls : (lastState {} usedTwice).calls.map
      (fun c => (c.adds, c.invocations.flatten.length)) = [(1, 1), (1, 0)] := rfl
  refine ⟨run_usedTwice, hcalls, fun h => ?_⟩
  -- the last call was for one request
  obtain ⟨c, hc, hpair⟩ : ∃ c ∈ (lastState {} usedTwice).calls,
      (c.adds, c.invocations.flatten.length) = (1, 0) := by
    apply List.mem_map.mp
    rw [hcalls]
    decide
  have hlength := (h.last.delivers c hc).length_eq
  rw [Prod.mk.injEq] at hpair
  omega

end Httb
