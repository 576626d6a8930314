import Httb.OutOfWork

/-!
# A Batch, Operation by Operation

`httb::batch_request` (`src/client.cpp`) over the sessions of `Httb.LiveContext`. A call of
`run_all` makes a session for each request of the queue and then runs the context: handlers run,
one after another, until no operation is pending. The callback of the first overload is called
from inside these handlers; the second overload collects what its own callback is given, and
passes it on after the context has run out of work.

## Layers

- `LiveBatchStep`: the calls of `add` and `run_all`, and what the context does in `run_all`
- `simulates_batch`: `Httb.BatchRuns`, where a session only reports, sees every step
- `guarded_firesOnly`: sessions that report no redirect read no variable of the loop
- `runAll_returns`: a batch that is filled with requests which are not redirected, and run
-/

namespace Httb

open Httb.Foundation Httb.Foundation.Traced

/-! ## The batch -/

/-- `httb::batch_request` with the operations in its context; what the callback of `run_all` was
told is what the context told. -/
structure LiveBatch where
  requests : List (ℕ × BaseRequest) := []
  context : LiveContext := {}
  stopped : Bool := false
  adds : ℕ := 0
  running : Option RunningCall := none
  calls : List ReturnedCall := []

namespace LiveBatch

/-- `add`. -/
def add (b : LiveBatch) (req : BaseRequest) : LiveBatch :=
  { b with requests := b.requests ++ [(b.adds, req)], adds := b.adds + 1 }

/-- The `while` loop of `run_all`, over what is left of the queue, the last request first. The
variable of a pass is gone when the context runs, and no progress is asked for. -/
def startLoop : (pass : ℕ) → List (ℕ × BaseRequest) → LiveContext → LiveContext
  | _, [], p => p
  | pass, (ticket, req) :: rest, p =>
    startLoop (pass + 1) rest (p.executeInContext req (.loopLocal pass) false ticket)

/-- `run_all` up to `m_ctx.run()`. The callback or the vector of this call has got nothing yet. -/
def enter (b : LiveBatch) (o : Overload) : LiveBatch :=
  { b with
    context := startLoop 0 b.requests.reverse { b.context with told := [] }
    requests := []
    adds := 0
    running := some ⟨o, b.adds⟩ }

/-- `run_all` from where `m_ctx.run()` has returned. -/
def leave (b : LiveBatch) : LiveBatch :=
  match b.running with
  | none => b
  | some call =>
    { b with
      running := none
      calls := b.calls ++ [⟨call, call.overload.invocations (LiveContext.delivered b.context.told),
        b.requests.length⟩] }

/-- `run_all`, both overloads, as far as it goes without a handler. -/
def runAll (b : LiveBatch) (o : Overload) : LiveBatch :=
  let b := b.enter o
  -- a stopped context does not run
  if b.stopped then b.leave else b

/-- `m_ctx.run()` has run out of work. -/
def runOut (b : LiveBatch) : LiveBatch := { b with stopped := true }.leave

end LiveBatch

/-- What happens to a batch. -/
inductive LiveBatchEvent where
  | add (req : BaseRequest)
  | runAll (o : Overload)
  | fire (f : Firing)
  | runOut

section Steps

variable [Toolbox] [BoostRegex] [BoostErrors]

/-- An operation of a session completes; `m_client` has the default settings, as nothing changes
them. -/
def LiveBatch.fire (b : LiveBatch) (f : Firing) : LiveBatch :=
  { b with context := b.context.fire {} f }

/-- The steps of a batch: calls from outside while no `run_all` waits, and while one does, any
pending operation of any session completes in any way, until no operation is pending. -/
inductive LiveBatchStep : LiveBatch → LiveBatchEvent → LiveBatch → Prop where
  | add (b : LiveBatch) (req : BaseRequest) (h : b.running = none) :
      LiveBatchStep b (.add req) (b.add req)
  | runAll (b : LiveBatch) (o : Overload) (h : b.running = none) :
      LiveBatchStep b (.runAll o) (b.runAll o)
  | fire (b : LiveBatch) (f : Firing) (l : LiveSession) (h : b.running ≠ none)
      (hl : b.context.live[f.index]? = some l) (hop : f.op ∈ l.session.pending) :
      LiveBatchStep b (.fire f) (b.fire f)
  | runOut (b : LiveBatch) (h : b.running ≠ none)
      (hidle : ∀ l ∈ b.context.live, l.session.pending = []) :
      LiveBatchStep b .runOut b.runOut

end Steps

/-! ## What the coarser model sees -/

/-- The batch as `Httb.BatchRuns` has it. -/
def LiveBatch.batch (b : LiveBatch) : BatchRequest where
  requests := b.requests
  runtime := { b.context.calls.runtime with
    context := { b.context.calls.runtime.context with stopped := b.stopped } }
  adds := b.adds
  running := b.running
  calls := b.calls

/-- The sessions wait for one operation each, and the context of a call that waits runs. -/
structure LiveBatch.Stands (b : LiveBatch) : Prop where
  waiting : b.context.Waiting
  runs : b.running ≠ none → b.stopped = false

namespace LiveBatch

/-- The loop makes one session for each request of the queue. -/
theorem startLoop_eq (pass : ℕ) (requests : List (ℕ × BaseRequest)) (p : LiveContext) :
    startLoop pass requests p =
      { p with live := p.live ++ (requests.zipIdx pass).map fun x =>
          ⟨.started x.1.2 false, .loopLocal x.2, x.1.1⟩ } := by
  induction requests generalizing pass p with
  | nil => simp [startLoop]
  | cons x requests ih =>
    obtain ⟨ticket, req⟩ := x
    rw [startLoop, ih]
    simp [LiveContext.executeInContext]

theorem batch_enter (b : LiveBatch) (o : Overload) : (b.enter o).batch = b.batch.enter o := by
  have hsent (req : BaseRequest) : (AsyncSession.started req false).requestRaw = req := rfl
  -- both loops make the same sessions
  rw [BatchRequest.enter, BatchRequest.startLoop_eq, enter, startLoop_eq]
  simp [batch, LiveContext.calls, LiveContext.delivered, LiveSession.waiting, hsent]

@[simp] theorem context_leave (b : LiveBatch) : b.leave.context = b.context := by
  rw [leave]
  split <;> rfl

@[simp] theorem running_leave (b : LiveBatch) : b.leave.running = none := by
  rw [leave]
  split
  · assumption
  · rfl

theorem batch_leave (b : LiveBatch) : b.leave.batch = b.batch.leave := by
  rw [leave, BatchRequest.leave]
  cases hrunning : b.running with
  | none =>
    have hnone : b.batch.running = none := hrunning
    rw [hnone]
  | some call =>
    have hsome : b.batch.running = some call := hrunning
    rw [hsome]
    rfl

theorem batch_runAll (b : LiveBatch) (o : Overload) : (b.runAll o).batch = b.batch.runAll o := by
  have hstopped : (b.batch.enter o).runtime.context.stopped = (b.enter o).stopped := by
    rw [← batch_enter]
    rfl
  rw [runAll, BatchRequest.runAll]
  rw [hstopped, ← batch_enter]
  split
  · exact batch_leave _
  · rfl

theorem batch_runOut (b : LiveBatch) : b.runOut.batch = b.batch.runOut := batch_leave _

/-- The requests that are added have the numbers that follow. -/
theorem foldl_add_eq (queue : List BaseRequest) (b : LiveBatch) :
    queue.foldl add b =
      { b with
        requests := b.requests ++ (queue.zipIdx b.adds).map Prod.swap
        adds := b.adds + queue.length } := by
  induction queue generalizing b with
  | nil => simp
  | cons req queue ih =>
    rw [List.foldl_cons, ih]
    simp [add, Nat.add_assoc, Nat.add_comm 1]

theorem batchInv_foldl_add {queue : List BaseRequest} {b : LiveBatch} (h : BatchInv b.batch)
    (hidle : b.running = none) : BatchInv (queue.foldl add b).batch := by
  induction queue generalizing b with
  | nil => exact h
  | cons req queue ih => exact ih (h.add hidle req) hidle

/-- A new batch has the requests that were added, each with its place. -/
theorem queued_foldl_add {queue : List BaseRequest} {ticket : ℕ} {request : BaseRequest}
    (h : (queue.foldl add {}).batch.Queued ticket request) : queue[ticket]? = some request := by
  have hget : (queue.foldl add {}).requests[ticket]? = some (ticket, request) := h
  rw [foldl_add_eq] at hget
  have hplace : ((queue.zipIdx 0).map Prod.swap)[ticket]? = some (ticket, request) := hget
  rw [List.getElem?_map, List.getElem?_zipIdx] at hplace
  simpa using hplace

end LiveBatch

/-! ## One step -/

section Runs

variable [Toolbox] [BoostRegex] [BoostErrors] {session : BaseRequest → SessionReport}
  {b b' : LiveBatch} {e : LiveBatchEvent}

namespace LiveBatch

omit [Toolbox] [BoostRegex] [BoostErrors] in
theorem waiting_startLoop {p : LiveContext} (h : p.Waiting) (pass : ℕ)
    (requests : List (ℕ × BaseRequest)) : (startLoop pass requests p).Waiting := by
  induction requests generalizing pass p with
  | nil => exact h
  | cons x requests ih =>
    exact ih (p := p.executeInContext x.2 (.loopLocal pass) false x.1)
      (LiveContext.waits_append h _ _ _ _) _

theorem stands_step (h : b.Stands) (hstep : LiveBatchStep b e b') : b'.Stands := by
  cases hstep with
  | add req hidle => exact ⟨h.waiting, fun hbusy => absurd hidle hbusy⟩
  | runAll o hidle =>
    have hnone : LiveContext.Waiting { b.context with told := [] } := h.waiting
    have hwaiting : (b.enter o).context.Waiting := waiting_startLoop hnone 0 _
    rw [runAll]
    split
    · exact ⟨by rw [context_leave]; exact hwaiting, fun hbusy => absurd (running_leave _) hbusy⟩
    · rename_i hstopped
      exact ⟨hwaiting, fun _ => Bool.eq_false_iff.mpr hstopped⟩
  | fire f l hbusy hl hop =>
    exact ⟨LiveContext.waiting_step h.waiting (.fire _ f l hl hop), h.runs⟩
  | runOut hbusy hidle =>
    exact ⟨by rw [runOut, context_leave]; exact h.waiting,
      fun hbusy => absurd (running_leave _) hbusy⟩

omit [Toolbox] [BoostRegex] [BoostErrors] in
/-- A context that runs is seen as its sessions are. -/
theorem runtime_batch (h : b.stopped = false) : b.batch.runtime = b.context.calls.runtime := by
  rw [batch, h]
  rfl

omit [Toolbox] [BoostRegex] [BoostErrors] in
/-- No operation is pending only when no session is alive. -/
theorem Stands.live_eq_nil (h : b.Stands)
    (hidle : ∀ l ∈ b.context.live, l.session.pending = []) : b.context.live = [] := by
  refine List.eq_nil_iff_forall_not_mem.mpr fun l hl => ?_
  obtain ⟨-, op, hop⟩ := h.waiting l hl
  rw [hidle l hl] at hop
  cases hop

/-- The event is the completion of an operation, and a session that reports by it reports what it
comes to alone. -/
def FiresOnly (session : BaseRequest → SessionReport) (b : LiveBatch) (e : LiveBatchEvent) :
    Prop :=
  ∃ f, e = .fire f ∧ LiveContext.FiresAlone {} session b.context (.fire f)

/-- The event is the completion of an operation, and a session that reports by it reports what it
comes to. -/
def ReportsOwn (session : BaseRequest → SessionReport) (b : LiveBatch) (e : LiveBatchEvent) :
    Prop :=
  ∃ f, e = .fire f ∧ ∀ l ∈ b.context.live[f.index]?,
    ∀ r ∈ (l.session.complete f.op f.completion).reports, r = session l.session.requestRaw

/-- **A step is seen as a step, or not at all.** -/
theorem batch_step (h : b.Stands) (hstep : LiveBatchStep b e b') :
    b'.batch = b.batch ∨ ∃ e', BatchStep b.batch e' b'.batch ∧
      ∀ session, FiresOnly session b e → BatchReportsAlone session b.batch e' := by
  cases hstep with
  | add req hidle =>
    exact .inr ⟨.add req, .add b.batch req hidle, fun _ ⟨_, hfire, _⟩ => nomatch hfire⟩
  | runAll o hidle =>
    rw [batch_runAll]
    exact .inr ⟨.runAll o, .runAll b.batch o hidle, fun _ ⟨_, hfire, _⟩ => nomatch hfire⟩
  | fire f l hbusy hl hop =>
    have hseen := runtime_batch (h.runs hbusy)
    have hphase := (h.waiting l (List.mem_of_getElem? hl)).1
    rcases LiveContext.calls_fire {} hl hphase hop with hsame | ⟨a, ha, heq, halone⟩
    · left
      simp only [batch, fire, hsame]
    · right
      rw [← hseen] at ha halone
      have hruns : (b.fire f).stopped = false := h.runs hbusy
      have hruntime : (b.fire f).batch.runtime = b.batch.runtime.complete {} a := by
        rw [runtime_batch hruns, hseen]
        exact congrArg ContextCalls.runtime heq
      have hbatch : (b.fire f).batch =
          { b.batch with runtime := b.batch.runtime.complete {} a } :=
        congrArg (fun r => { b.batch with runtime := r }) hruntime
      rw [hbatch]
      refine ⟨.answer a, .answer b.batch a hbusy ha, ?_⟩
      rintro session ⟨f', hf', hfires⟩
      obtain rfl := LiveBatchEvent.fire.inj hf'
      exact ⟨a, rfl, halone session hfires⟩
  | runOut hbusy hidle =>
    have hsessions : b.batch.runtime.context.sessions = [] :=
      congrArg (List.map LiveSession.waiting) (h.live_eq_nil hidle)
    rw [batch_runOut]
    exact .inr ⟨.runOut, .runOut b.batch hbusy hsessions, fun _ ⟨_, hfire, _⟩ => nomatch hfire⟩

/-- So the operations of a batch make the steps of the model where a session only reports. -/
theorem simulates_batch : Simulates LiveBatchStep (FiresOnly session) BatchStep
    (BatchReportsAlone session) batch Stands where
  inv b e b' := stands_step
  matched b e b' h hfires hstep := by
    rcases batch_step h hstep with hsame | ⟨e', hstep', hreports⟩
    · exact .inl hsame
    · exact .inr ⟨e', hreports session hfires, hstep'⟩

/-- A call that waits is never stuck. -/
theorem Stands.exists_step (h : b.Stands) (hbusy : b.running ≠ none) :
    (∃ f b', LiveBatchStep b (.fire f) b') ∨
      b.context.live = [] ∧ LiveBatchStep b .runOut b.runOut := by
  by_cases hlive : b.context.live = []
  · exact .inr ⟨hlive, .runOut b hbusy (by simp [hlive])⟩
  · obtain ⟨f, hpossible⟩ := LiveContext.exists_possible h.waiting hlive
    obtain ⟨l, hl, hop⟩ := (Option.any_eq_true ..).mp hpossible
    exact .inl ⟨f, _, .fire b f l hbusy hl (List.contains_iff_mem.mp hop)⟩

end LiveBatch

/-! ## What is left to do in a batch -/

/-- As for a context: completions that are no reads which leave more to read. -/
def LiveBatchEvent.work : LiveBatchEvent → ℕ
  | .fire f => LiveEvent.work (.fire f)
  | _ => 0

namespace LiveBatch

/-- The work that was done in a run of a batch. -/
def workOf (tr : List (LiveBatchEvent × LiveBatch)) : ℕ := (tr.map fun x => x.1.work).sum

omit [Toolbox] [BoostRegex] [BoostErrors] in
/-- The loop brings one session for each request, with its redirects. -/
theorem rank_startLoop {k : ℕ} {hops : BaseRequest → ℕ} (hhops : ∀ q, hops q ≤ k) (pass : ℕ)
    (requests : List (ℕ × BaseRequest)) (p : LiveContext) :
    (startLoop pass requests p).rank hops ≤
      p.rank hops + sessionSteps * (k + 1) * requests.length := by
  induction requests generalizing pass p with
  | nil => exact Nat.le_refl _
  | cons x requests ih =>
    have hrest := ih (pass + 1) (p.executeInContext x.2 (.loopLocal pass) false x.1)
    have hfirst := Nat.mul_le_mul_left sessionSteps (hhops x.2)
    have hrank : (p.executeInContext x.2 (.loopLocal pass) false x.1).rank hops =
        p.rank hops + (sessionSteps + sessionSteps * hops x.2) := by
      simp [LiveContext.rank, LiveContext.executeInContext, LiveContext.rank_started]
    rw [hrank] at hrest
    rw [startLoop]
    simp only [List.length_cons, Nat.mul_add, Nat.mul_one] at hrest ⊢
    omega

omit [BoostErrors] in
theorem ending_startLoop {k : ℕ} (requests : List (ℕ × BaseRequest))
    (hends : ∀ x ∈ requests, endsWithin (nextSent {} session) k x.2 = true) (pass : ℕ)
    {p : LiveContext} (hp : LiveContext.Ending {} session k p) :
    LiveContext.Ending {} session k (startLoop pass requests p) := by
  induction requests generalizing pass p with
  | nil => exact hp
  | cons x requests ih =>
    obtain ⟨hx, hrest⟩ := List.forall_mem_cons.mp hends
    refine ih hrest _ fun l hl => ?_
    rcases List.mem_append.mp hl with hl | hl
    · exact hp l hl
    · obtain rfl := List.mem_singleton.mp hl
      exact hx

/-- The completions of a run are paid for by what was left to do. -/
theorem workOf_le {k : ℕ} {tr : List (LiveBatchEvent × LiveBatch)} (h : b.Stands)
    (hends : LiveContext.Ending {} session k b.context)
    (hfires : Guarded (FiresOnly session) b tr) (hrun : Run LiveBatchStep b tr) :
    workOf tr ≤ b.context.rank (hopsWithin (nextSent {} session) k) := by
  induction hrun with
  | nil b => exact Nat.zero_le _
  | @cons b b' e tr hstep hrest ih =>
    obtain ⟨⟨f, rfl, halone⟩, hlater⟩ := hfires
    have h' := stands_step h hstep
    cases hstep with
    | fire f l hbusy hl hop =>
      have hwaits := h.waiting l (List.mem_of_getElem? hl)
      obtain ⟨hends', hrank⟩ := LiveContext.rank_fire hl hwaits hop hends halone
      have hbound : workOf tr ≤ (b.context.fire {} f).rank _ := ih h' hends' hlater
      have hcons : workOf ((.fire f, b.fire f) :: tr) =
          LiveEvent.work (.fire f) + workOf tr := by
        rw [workOf, List.map_cons, List.sum_cons, workOf]
        rfl
      rw [hcons]
      omega

omit [BoostErrors] in
/-- Sessions that report no redirect read no variable that a lambda refers to. -/
theorem firesOnly_of_reportsOwn (hends : LiveContext.Ending {} session 0 b.context)
    (hreports : ReportsOwn session b e) : FiresOnly session b e := by
  obtain ⟨f, rfl, hown⟩ := hreports
  refine ⟨f, rfl, fun l hl r hr => ?_⟩
  obtain rfl := hown l hl r hr
  refine ⟨rfl, fun hfollows => ?_⟩
  have hnone : nextSent {} session l.session.requestRaw = none :=
    Option.isNone_iff_eq_none.mp (hends l (List.mem_of_getElem? hl))
  rw [LiveContext.followsRedirect_eq_isSome, hnone] at hfollows
  cases hfollows

theorem guarded_firesOnly {tr : List (LiveBatchEvent × LiveBatch)} (h : b.Stands)
    (hends : LiveContext.Ending {} session 0 b.context)
    (hreports : Guarded (ReportsOwn session) b tr) (hrun : Run LiveBatchStep b tr) :
    Guarded (FiresOnly session) b tr := by
  induction hrun with
  | nil b => trivial
  | @cons b b' e tr hstep hrest ih =>
    have honly := firesOnly_of_reportsOwn hends hreports.1
    have h' := stands_step h hstep
    refine ⟨honly, ih h' ?_ hreports.2⟩
    obtain ⟨f, rfl, halone⟩ := honly
    cases hstep with
    | fire f l hbusy hl hop =>
      exact (LiveContext.rank_fire hl (h.waiting l (List.mem_of_getElem? hl)) hop hends halone).1

omit [Toolbox] [BoostRegex] [BoostErrors] in
theorem runAll_of_running (h : b.stopped = false) (o : Overload) : b.runAll o = b.enter o := by
  have hstopped : (b.enter o).stopped = false := h
  rw [runAll, hstopped]
  rfl

omit [BoostErrors] in
/-- The sessions of the queue are all there is when the context begins to run. -/
theorem rank_runAll {k : ℕ} (hfresh : b.stopped = false) (hnone : b.context.live = [])
    (hends : ∀ x ∈ b.requests, endsWithin (nextSent {} session) k x.2 = true) (o : Overload) :
    LiveContext.Ending {} session k (b.runAll o).context ∧
      (b.runAll o).context.rank (hopsWithin (nextSent {} session) k) ≤
        sessionSteps * (k + 1) * b.requests.length := by
  have hcontext : (b.runAll o).context =
      startLoop 0 b.requests.reverse { b.context with told := [] } := by
    rw [runAll_of_running hfresh]
    rfl
  have hempty : ({ b.context with told := [] } : LiveContext).live = [] := hnone
  rw [hcontext]
  constructor
  · refine ending_startLoop _ (fun x hx => hends x (List.mem_reverse.mp hx)) 0 fun l hl => ?_
    rw [hempty] at hl
    cases hl
  · have hrank := rank_startLoop (hopsWithin_le (nextSent {} session) k) 0 b.requests.reverse
      { b.context with told := [] }
    have hzero : LiveContext.rank (hopsWithin (nextSent {} session) k)
        { b.context with told := [] } = 0 := by
      rw [LiveContext.rank, hempty, List.map_nil, List.sum_nil]
    rwa [hzero, Nat.zero_add, List.length_reverse] at hrank

/-! ## A batch that is filled and run -/

/-- **When `run_all` returns, and with what.** Let a batch be filled with requests that are not
redirected and run, and the sessions that it makes report what sessions for their requests report.
Whatever the order in which their operations complete, no more than five for each request do, but
for reads that leave more to read. The call is never stuck: an operation is pending, or it returns;
and then it has called back with one response for each request, which is the response that the
request gets alone. -/
theorem runAll_returns {queue : List BaseRequest}
    (hnext : ∀ q ∈ queue, nextSent {} session q = none) (o : Overload)
    {tr : List (LiveBatchEvent × LiveBatch)}
    (h : Run LiveBatchStep ((queue.foldl add {}).runAll o) tr)
    (hreports : Guarded (ReportsOwn session) ((queue.foldl add {}).runAll o) tr) :
    workOf tr ≤ sessionSteps * queue.length ∧
    ((∃ f b', LiveBatchStep (lastState ((queue.foldl add {}).runAll o) tr) (.fire f) b') ∨
      ∃ b', LiveBatchStep (lastState ((queue.foldl add {}).runAll o) tr) .runOut b' ∧
        ∃ delivered, b'.calls = [⟨⟨o, queue.length⟩, o.invocations delivered, 0⟩] ∧
          (delivered.map Prod.fst).Perm (List.range queue.length) ∧
          ∀ x ∈ delivered, ∃ request, queue[x.1]? = some request ∧
            Returns (fun n => executeInContext {} true session n request) [request]
              (.called x.2)) := by
  have hqueued {t : ℕ} {q : BaseRequest} := @queued_foldl_add queue t q
  have hfilled := foldl_add_eq queue {}
  have hinv : BatchInv (queue.foldl add {}).batch := batchInv_foldl_add batchInv_new rfl
  generalize queue.foldl add {} = b₀ at hqueued hfilled hinv h hreports
  have hidle : b₀.running = none := by rw [hfilled]
  have hfresh : b₀.stopped = false := by rw [hfilled]
  have hlive : b₀.context.live = [] := by rw [hfilled]
  have hadds : b₀.batch.adds = queue.length := by
    show b₀.adds = _
    rw [hfilled]
    exact Nat.zero_add _
  have hbefore : b₀.batch.calls = [] := by
    show b₀.calls = _
    rw [hfilled]
  have hstands : (b₀.runAll o).Stands := by
    refine stands_step ⟨fun l hl => ?_, fun hbusy => absurd hidle hbusy⟩ (.runAll b₀ o hidle)
    rw [hlive] at hl
    cases hl
  have hrequests : ∀ x ∈ b₀.requests, endsWithin (nextSent {} session) 0 x.2 = true := by
    intro x hx
    exact Option.isNone_iff_eq_none.mpr
      (hnext x.2 (List.mem_of_getElem? (hqueued (hinv.queued_of_mem hx))))
  have hlength : b₀.requests.length = queue.length := by
    have hnumbers := congrArg List.length hinv.queued
    rwa [List.length_map, List.length_range, hadds] at hnumbers
  obtain ⟨hending, hrank⟩ := rank_runAll hfresh hlive hrequests o
  have hfires := guarded_firesOnly hstands hending hreports h
  constructor
  · rw [hlength, Nat.zero_add, Nat.mul_one] at hrank
    exact (workOf_le hstands hending hfires h).trans hrank
  · have hstart : RunAllOnTrack session b₀.batch o (b₀.runAll o).batch := by
      rw [batch_runAll]
      exact hinv.runAllOnTrack session hidle hfresh o
    obtain ⟨hlast, htrack⟩ := (simulates_batch.always h hstands hfires hstart
      fun _ _ _ hinv hG hstep => hinv.step hG hstep).last
    generalize lastState (b₀.runAll o) tr = b at hlast htrack
    have hrunning : b.running = some ⟨o, b₀.batch.adds⟩ := htrack.running
    rcases hlast.exists_step (by rw [hrunning]; exact Option.some_ne_none _) with
      hfire | ⟨hdone, hout⟩
    · exact .inl hfire
    · -- the call is seen to return as it does in the coarser model
      have hsessions : b.batch.runtime.context.sessions = [] :=
        congrArg (List.map LiveSession.waiting) hdone
      obtain ⟨hcalls, hperm, halone⟩ := htrack.runOut hsessions
      rw [hadds] at hperm
      rw [hbefore, hadds, ← batch_runOut] at hcalls
      refine .inr ⟨_, hout, _, hcalls, hperm, fun x hx => ?_⟩
      obtain ⟨request, hrequest, sent, hreturns⟩ := halone x hx
      have hplace := hqueued hrequest
      refine ⟨request, hplace, ?_⟩
      -- no request follows this one
      obtain ⟨z, hchain, heffect⟩ := executeInContext_returns_iff.mp hreturns
      have hstop := hnext request (List.mem_of_getElem? hplace)
      cases hchain with
      | stop => exact executeInContext_returns_iff.mpr ⟨request, .stop hstop, heffect⟩
      | hop hhop =>
        rw [hstop] at hhop
        cases hhop

end LiveBatch

end Runs

/-! ## Two requests -/

namespace LiveBatch

section Firings

variable [Toolbox] [BoostRegex] [BoostErrors]

/-- Operations that complete one after another. -/
def firings (b : LiveBatch) (fs : List Firing) : List (LiveBatchEvent × LiveBatch) :=
  (traceOf fire b fs).map fun x => (.fire x.1, x.2)

/-- The operations can complete one after another. -/
def allPossible : LiveBatch → List Firing → Bool
  | _, [] => true
  | b, f :: fs => b.running.isSome && b.context.possible (.fire f) && allPossible (b.fire f) fs

theorem run_firings {b : LiveBatch} {fs : List Firing} (h : b.allPossible fs = true) :
    Run LiveBatchStep b (b.firings fs) := by
  induction fs generalizing b with
  | nil => exact .nil b
  | cons f fs ih =>
    simp only [allPossible, Bool.and_eq_true] at h
    obtain ⟨⟨hbusy, hpossible⟩, hrest⟩ := h
    obtain ⟨l, hl, hop⟩ := (Option.any_eq_true ..).mp hpossible
    refine .cons (.fire b f l ?_ hl (List.contains_iff_mem.mp hop)) (ih hrest)
    exact Option.isSome_iff_ne_none.mp hbusy

end Firings

/-- Host `b` is not found, and every other host answers. -/
def foundUnlessB (request : BaseRequest) : SessionReport :=
  if request.host = "b".toList then .error ⟨1, .netdb⟩ "resolve".toList
  else .success { body := "here".toList } 0

/-- What happens to a request for host `a` and a request for host `b`, which was started first:
that one is not found between two operations of the other. -/
def twoFirings : List Firing :=
  let notFound : Completion := { ec := ⟨1, .netdb⟩ }
  let done : ResponseParser := { isDone := true, message := { body := "here".toList } }
  [⟨1, .resolve, {}, {}⟩, ⟨0, .resolve, notFound, {}⟩, ⟨0, .connect, {}, {}⟩,
    ⟨0, .write .raw, {}, {}⟩, ⟨0, .read .raw, { response := done }, {}⟩]

/-- `run_all` returns with the responses to both. -/
theorem runAll_returns_two :
    letI := Toolbox.reference
    letI := BoostRegex.reference
    letI := BoostErrors.silent
    let queue : List BaseRequest := [{ host := "a".toList }, { host := "b".toList }]
    let tr := firings ((queue.foldl add {}).runAll .all) twoFirings
    workOf tr ≤ sessionSteps * 2 ∧
      ∃ b', LiveBatchStep (lastState ((queue.foldl add {}).runAll .all) tr) .runOut b' ∧
        ∃ delivered, b'.calls = [⟨⟨.all, 2⟩, [delivered], 0⟩] ∧
          (delivered.map Prod.fst).Perm (List.range 2) := by
  let := Toolbox.reference
  let := BoostRegex.reference
  let := BoostErrors.silent
  intro queue tr
  have hrun : Run LiveBatchStep ((queue.foldl add {}).runAll .all) tr := run_firings (by decide)
  have hreports : Guarded (ReportsOwn foundUnlessB) ((queue.foldl add {}).runAll .all) tr := by
    refine ⟨⟨_, rfl, ?_⟩, ⟨_, rfl, ?_⟩, ⟨_, rfl, ?_⟩, ⟨_, rfl, ?_⟩, ⟨_, rfl, ?_⟩, trivial⟩
    all_goals decide
  have hnone : (lastState ((queue.foldl add {}).runAll .all) tr).context.live.length = 0 := by
    decide
  obtain ⟨hbound, hreturns⟩ := runAll_returns (by decide) .all hrun hreports
  refine ⟨hbound, ?_⟩
  generalize lastState ((queue.foldl add {}).runAll .all) tr = b at hnone hreturns
  rcases hreturns with ⟨f, b', hstep⟩ | ⟨b', hstep, delivered, hcalls, hperm, -⟩
  · -- no session is alive any more
    cases hstep with
    | fire f l hbusy hl hop =>
      rw [List.eq_nil_of_length_eq_zero hnone] at hl
      cases hl
  · exact ⟨b', hstep, delivered, hcalls, hperm⟩

end LiveBatch

end Httb
