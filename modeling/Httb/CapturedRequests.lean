import Httb.BatchRuns

/-!
# What the Success Lambdas Read

The success lambda of `client::execute_in_context` (`src/client.cpp`) copies the request that
it follows a redirect from, through a reference. Behind `client::execute` the caller's
argument lives as long as the context runs, so the first copy is right; the variables of
later hops, and those of the loop of `run_all`, are gone when they are read.

## Layers

- `CallInv`, `copiesHold_call_iff`: the runs of one call of `execute_in_context` in which every
  copy finds the request of its session
- `copiesHold_execute_iff`: the same behind `execute`
- `captured_request_iff`: those, and the runs of a batch
- `returns_of_copiesHold`, `exists_run_execute`: such a run of `execute` is one of
  `executeInContext`, and there is one
-/

namespace Httb

open Httb.Foundation

/-! ## execute -/

/-- `client::execute`, up to `ioc.run()`. -/
def Runtime.ofExecute (request : BaseRequest) : Runtime :=
  { scope := [(.argument, request)] : Runtime }.executeInContext .argument 0

/-- `execute_in_context`, when it has returned to its caller; `later` is what the variable of the
caller holds while the context runs, if it is still there. -/
def Runtime.ofCall (request : BaseRequest) (later : Option BaseRequest) : Runtime :=
  { Runtime.ofExecute request with scope := (later.map (RequestVariable.argument, ·)).toList }

section Steps

variable [Toolbox] [BoostRegex] [BoostErrors]

/-- While `ioc.run()` runs, any session that waits may report. -/
inductive AnswerStep (client : Client) : Runtime → Answer → Runtime → Prop where
  | answer (r : Runtime) (a : Answer) (ha : a.index < r.context.sessions.length) :
      AnswerStep client r a (r.complete client a)

theorem AnswerStep.eq {client : Client} {r r' : Runtime} {a : Answer}
    (h : AnswerStep client r a r') :
    a.index < r.context.sessions.length ∧ r' = r.complete client a := by
  cases h with
  | answer ha => exact ⟨ha, rfl⟩

/-- A redirect is followed only from the session that `execute` itself started. -/
def FollowsArgument (client : Client) (r : Runtime) (a : Answer) : Prop :=
  followsRedirect client a.report = true →
    ∀ session ∈ r.context.sessions[a.index]?, session.captured = .argument

/-- A redirect is followed only from the session that the call itself started, while the caller's
variable holds the request. -/
def FollowsCaller (client : Client) (r : Runtime) (a : Answer) : Prop :=
  followsRedirect client a.report = true →
    ∀ session ∈ r.context.sessions[a.index]?,
      session.captured = .argument ∧ r.scope.lookup .argument = some session.sent

/-- While the context runs the caller's variable holds `later`, and the sessions refer to it or
to a variable that is gone. -/
structure CallInv (request : BaseRequest) (later : Option BaseRequest) (r : Runtime) : Prop where
  copies : CopiesHold r
  scope : r.scope = (later.map (RequestVariable.argument, ·)).toList
  sessions : ∀ session ∈ r.context.sessions,
    session.captured = .argument ∧ session.sent = request ∨
      ∃ hop, session.captured = .redirectLocal hop

variable {client : Client} {request : BaseRequest} {later : Option BaseRequest}
  {r r' : Runtime} {a : Answer}

omit [Toolbox] [BoostRegex] [BoostErrors] in
theorem callInv_ofCall : CallInv request later (Runtime.ofCall request later) where
  copies := fun _ hcopy => absurd hcopy List.not_mem_nil
  scope := rfl
  sessions := by
    intro session hsession
    obtain rfl := List.mem_singleton.mp hsession
    exact .inl ⟨rfl, rfl⟩

omit [Toolbox] [BoostRegex] [BoostErrors] in
theorem CallInv.lookup_argument (h : CallInv request later r) :
    r.scope.lookup .argument = later := by
  rw [h.scope]
  cases later <;> rfl

omit [Toolbox] [BoostRegex] [BoostErrors] in
theorem CallInv.lookup_redirectLocal (h : CallInv request later r) (hop : ℕ) :
    r.scope.lookup (.redirectLocal hop) = none := by
  rw [h.scope]
  cases later <;> rfl

omit [BoostRegex] [BoostErrors] in
/-- What a copy finds in the scope of a call. -/
theorem CallInv.readsHeld_iff (h : CallInv request later r)
    (ha : a.index < r.context.sessions.length) :
    r.ReadsHeld client a ↔ FollowsCaller client r a := by
  have hsession := List.getElem?_eq_getElem ha
  simp only [Runtime.ReadsHeld, FollowsCaller, hsession, Option.mem_some_iff, forall_eq']
  refine imp_congr_right fun _ => ⟨fun hreads => ?_, fun hcaller => ?_⟩
  · rcases h.sessions _ (List.getElem_mem ha) with ⟨hcaptured, -⟩ | ⟨hop, hlocal⟩
    · exact ⟨hcaptured, by rw [← hcaptured, hreads]⟩
    · -- the local of an earlier hop is gone
      rw [hlocal, h.lookup_redirectLocal] at hreads
      cases hreads
  · rw [hcaller.1, hcaller.2]

omit [BoostRegex] [BoostErrors] in
/-- Behind `execute` the caller's variable is the argument, which keeps its value. -/
theorem CallInv.followsCaller_iff (h : CallInv request (some request) r)
    (ha : a.index < r.context.sessions.length) :
    FollowsCaller client r a ↔ FollowsArgument client r a := by
  have hsession := List.getElem?_eq_getElem ha
  simp only [FollowsCaller, FollowsArgument, hsession, Option.mem_some_iff, forall_eq',
    h.lookup_argument]
  refine imp_congr_right fun _ => ⟨And.left, fun hcaptured => ⟨hcaptured, ?_⟩⟩
  rcases h.sessions _ (List.getElem_mem ha) with ⟨-, hsent⟩ | ⟨hop, hlocal⟩
  · rw [hsent]
  · rw [hcaptured] at hlocal
    cases hlocal

/-- A report whose copy is right keeps the invariant, whether or not the callback is set. -/
theorem CallInv.completeWith (h : CallInv request later r) (cb : Bool)
    (ha : a.index < r.context.sessions.length) (hreads : r.ReadsHeld client a) :
    CallInv request later (r.completeWith client cb a) := by
  have hcopies := (Runtime.copiesHold_completeWith_iff cb h.copies ha).mpr hreads
  have hrest : ∀ session ∈ r.context.sessions.eraseIdx a.index,
      session.captured = .argument ∧ session.sent = request ∨
        ∃ hop, session.captured = .redirectLocal hop :=
    fun session hs => h.sessions session (List.mem_of_mem_eraseIdx hs)
  rcases Runtime.completeWith_cases client cb ha with ⟨-, effect, heq⟩ | ⟨-, next, heq⟩
  · rw [heq] at hcopies ⊢
    exact ⟨hcopies, by rw [Runtime.scope_deliver]; exact h.scope,
      by rw [Runtime.context_deliver]; exact hrest⟩
  · rw [heq] at hcopies ⊢
    refine ⟨hcopies, h.scope, fun session hs => ?_⟩
    rcases List.mem_append.mp hs with hs | hs
    · exact hrest session hs
    · obtain rfl := List.mem_singleton.mp hs
      exact .inr ⟨_, rfl⟩

/-- The guards that say what a copy finds say when all of them are right. -/
theorem copiesHold_iff_guarded {G : Runtime → Answer → Prop}
    (hG : ∀ r a, CallInv request later r → a.index < r.context.sessions.length →
      (r.ReadsHeld client a ↔ G r a))
    {tr : List (Answer × Runtime)}
    (h : Run (AnswerStep client) (Runtime.ofCall request later) tr) :
    Always CopiesHold (Runtime.ofCall request later) tr ↔
      Guarded G (Runtime.ofCall request later) tr := by
  apply h.always_iff_guarded callInv_ofCall
  · exact fun _ hinv => hinv.copies
  · intro r a r' hinv hguard hstep
    obtain ⟨ha, rfl⟩ := hstep.eq
    exact hinv.completeWith true ha ((hG r a hinv ha).mpr hguard)
  · intro r a r' hinv hguard hstep
    obtain ⟨ha, rfl⟩ := hstep.eq
    rw [Runtime.copiesHold_complete_iff hinv.copies ha, hG r a hinv ha]
    exact hguard

/-- In a call of `execute_in_context` every copy is right exactly when only its first session is
redirected, from a variable that holds the request. -/
theorem copiesHold_call_iff {tr : List (Answer × Runtime)}
    (h : Run (AnswerStep client) (Runtime.ofCall request later) tr) :
    Always CopiesHold (Runtime.ofCall request later) tr ↔
      Guarded (FollowsCaller client) (Runtime.ofCall request later) tr :=
  copiesHold_iff_guarded (fun _ _ hinv ha => hinv.readsHeld_iff ha) h

/-- Behind `execute` every copy is right exactly when only the first session is redirected. -/
theorem copiesHold_execute_iff {tr : List (Answer × Runtime)}
    (h : Run (AnswerStep client) (Runtime.ofExecute request) tr) :
    Always CopiesHold (Runtime.ofExecute request) tr ↔
      Guarded (FollowsArgument client) (Runtime.ofExecute request) tr :=
  copiesHold_iff_guarded
    (fun _ _ hinv ha => (hinv.readsHeld_iff ha).trans (hinv.followsCaller_iff ha)) h

/-! ## The whole of execute -/

/-- What the report of a session leads to when the copy it makes finds its request: the next
step of `executeInContext`. -/
theorem complete_of_copiesHold {session : BaseRequest → SessionReport} {first : ContextSession}
    (hfirst : r.context.sessions = [first]) (hdelivered : r.delivered = [])
    (hr : CopiesHold r) (ha : a.index < r.context.sessions.length)
    (hreport : a.report = session first.sent)
    (hhold : CopiesHold (r.complete client a)) :
    (∃ resp, (r.complete client a).context.sessions = [] ∧
      (r.complete client a).delivered = [(first.ticket, resp)] ∧
      ∀ n, executeInContext client true session (n + 1) first.sent =
        .emit first.sent (.done (.called resp))) ∨
    ∃ next, (r.complete client a).context.sessions = [next] ∧
      (r.complete client a).delivered = [] ∧ next.ticket = first.ticket ∧
      ∀ n, executeInContext client true session (n + 1) first.sent =
        .emit first.sent (executeInContext client true session n next.sent) := by
  obtain ⟨hsession, hnone⟩ := Runtime.only_session hfirst ha
  cases hfollows : followsRedirect client a.report with
  | false =>
    obtain ⟨effect, hlambda⟩ := onReport_of_delivers true hfollows
    obtain ⟨resp, rfl⟩ := called_of_onReport (hlambda {})
    have hcomplete : r.complete client a =
        (r.dequeue a.index).deliver first.ticket (.called resp) :=
      Runtime.completeWith_of_finished hsession (hlambda _)
    rw [hcomplete]
    refine .inl ⟨resp, hnone, congrArg (· ++ [(first.ticket, resp)]) hdelivered, fun n => ?_⟩
    rw [executeInContext_eq_onReport, ← hreport, hlambda]
  | true =>
    obtain ⟨resp, hlambda⟩ := onReport_of_follows hfollows
    -- the variable holds the request that the session sent
    have hread : r.scope.lookup first.captured = some first.sent :=
      (Runtime.copiesHold_complete_iff hr ha).mp hhold hfollows first hsession
    have hagain : r.lambda client true a first =
        .executeAgain (redirectRequest first.sent resp) := by
      rw [Runtime.lambda, hread, Option.getD_some, hlambda]
    have hcomplete := Runtime.completeWith_of_executeAgain hsession hagain
    rw [Runtime.complete, hcomplete, hnone]
    refine .inr ⟨_, rfl, hdelivered, rfl, fun n => ?_⟩
    rw [executeInContext_eq_onReport, ← hreport, hlambda]

/-- **Such a run of `execute` is one of `executeInContext`.** When every copy finds its request
and the context has run out of work, the callback was called once, with what
`executeInContext` ends with. -/
theorem returns_of_copiesHold {session : BaseRequest → SessionReport}
    {tr : List (Answer × Runtime)} {first : ContextSession} (h : Run (AnswerStep client) r tr)
    (hfirst : r.context.sessions = [first]) (hdelivered : r.delivered = [])
    (hhold : Always CopiesHold r tr)
    (hreports : Guarded (fun r a => ∀ s ∈ r.context.sessions[a.index]?, a.report = session s.sent)
      r tr)
    (hend : (lastState r tr).context.sessions = []) :
    ∃ resp sent, (lastState r tr).delivered = [(first.ticket, resp)] ∧
      Traced.Returns (fun n => executeInContext client true session n first.sent) sent
        (.called resp) := by
  induction h generalizing first with
  | nil r =>
    rw [lastState, hfirst] at hend
    cases hend
  | @cons r r' a tr hstep hrest ih =>
    obtain ⟨ha, rfl⟩ := hstep.eq
    have hreport : a.report = session first.sent :=
      hreports.1 first (Runtime.only_session hfirst ha).1
    rcases complete_of_copiesHold hfirst hdelivered hhold.1 ha hreport hhold.2.head with
      ⟨resp, hnone, hcalled, hsteps⟩ | ⟨next, hnext, hwaits, hticket, hsteps⟩
    · -- nothing waits any more
      have htr : tr = [] := by
        cases hrest with
        | nil _ => rfl
        | cons hstep _ =>
          have hlt := hstep.eq.1
          rw [hnone] at hlt
          exact absurd hlt (Nat.not_lt_zero _)
      subst htr
      exact ⟨resp, [first.sent], hcalled, 1, hsteps 0⟩
    · obtain ⟨resp, sent, hlast, n, hn⟩ := ih hnext hwaits hhold.2 hreports.2 hend
      refine ⟨resp, first.sent :: sent, by rw [← hticket]; exact hlast, n + 1, ?_⟩
      exact (hsteps n).trans (congrArg (Traced.emit first.sent) hn)

/-- So `execute` does what `executeInContext` says when only its own session is redirected. -/
theorem execute_returns {session : BaseRequest → SessionReport} {tr : List (Answer × Runtime)}
    (h : Run (AnswerStep client) (Runtime.ofExecute request) tr)
    (hargument : Guarded (FollowsArgument client) (Runtime.ofExecute request) tr)
    (hreports : Guarded (fun r a => ∀ s ∈ r.context.sessions[a.index]?, a.report = session s.sent)
      (Runtime.ofExecute request) tr)
    (hend : (lastState (Runtime.ofExecute request) tr).context.sessions = []) :
    ∃ resp sent, (lastState (Runtime.ofExecute request) tr).delivered = [(0, resp)] ∧
      Traced.Returns (fun n => executeInContext client true session n request) sent
        (.called resp) :=
  returns_of_copiesHold h rfl rfl ((copiesHold_execute_iff h).mpr hargument) hreports hend

/-- There is such a run when the request is redirected once: its copy is made of the argument. -/
theorem exists_run_execute {session : BaseRequest → SessionReport} {q : BaseRequest}
    (hagain : onReport client true request (session request) = .executeAgain q)
    (hfollows : followsRedirect client (session q) = false) :
    ∃ tr, Run (AnswerStep client) (.ofExecute request) tr ∧
      Always CopiesHold (.ofExecute request) tr ∧
      Guarded (fun r a => ∀ s ∈ r.context.sessions[a.index]?, a.report = session s.sent)
        (.ofExecute request) tr ∧
      (lastState (.ofExecute request) tr).context.sessions = [] := by
  let r₀ : Runtime := .ofExecute request
  let first : Answer := ⟨0, session request, {}⟩
  let second : Answer := ⟨0, session q, {}⟩
  let r₁ := r₀.complete client first
  -- the session of the redirect waits
  have hlambda : r₀.lambda client true first ⟨request, .argument, 0⟩ = .executeAgain q := hagain
  have hwaits : r₁.context.sessions = [⟨q, .redirectLocal 0, 0⟩] :=
    congrArg (fun r => r.context.sessions) (Runtime.completeWith_of_executeAgain rfl hlambda)
  have ha : second.index < r₁.context.sessions.length := by
    rw [hwaits]
    exact Nat.zero_lt_one
  obtain ⟨hsecond, hnone⟩ := Runtime.only_session hwaits ha
  have hrun : Run (AnswerStep client) r₀ [(first, r₁), (second, r₁.complete client second)] :=
    .cons (.answer _ _ Nat.zero_lt_one) <| .cons (.answer _ _ ha) <| .nil _
  have harguments : Guarded (FollowsArgument client) r₀
      [(first, r₁), (second, r₁.complete client second)] :=
    ⟨fun _ s hs => by rw [← Option.some.inj hs],
      fun htrue => absurd (hfollows.symm.trans htrue) Bool.false_ne_true, trivial⟩
  refine ⟨_, hrun, (copiesHold_execute_iff hrun).mpr harguments,
    ⟨fun s hs => ?_, fun s hs => ?_, trivial⟩, ?_⟩
  · obtain rfl := Option.some.inj hs
    rfl
  · rw [hsecond] at hs
    obtain rfl := Option.some.inj hs
    rfl
  · obtain ⟨resp, heq⟩ := Runtime.complete_of_delivers hsecond hfollows
    exact (congrArg (fun r => r.context.sessions) heq).trans hnone

/-! ## Both entry points -/

/-- **Which redirects are computed from their own request, exactly.** In the runs of `execute`,
those of the first session; in the runs of a batch, none. -/
theorem captured_request_iff :
    (∀ (client : Client) (request : BaseRequest) (tr : List (Answer × Runtime)),
      Run (AnswerStep client) (Runtime.ofExecute request) tr →
        (Always CopiesHold (Runtime.ofExecute request) tr ↔
          Guarded (FollowsArgument client) (Runtime.ofExecute request) tr)) ∧
    ∀ tr : List (BatchEvent × BatchRequest), Run BatchStep {} tr →
      (Always (fun b => CopiesHold b.runtime) {} tr ↔ Guarded FollowsNone {} tr) :=
  ⟨fun _ _ _ h => copiesHold_execute_iff h, fun _ h => copiesHold_batch_iff h⟩

end Steps

/-- A redirect to `http://b/`. -/
def redirectToB : Answer where
  index := 0
  report := .success { result := .found, fields := [("Location".toList, "http://b/".toList)] } 0

/-- Two redirects behind `execute`. -/
def redirectedTwice [Toolbox] [BoostRegex] [BoostErrors] : List (Answer × Runtime) :=
  traceOf (Runtime.complete {}) (.ofExecute (.ofUrl "http://a/".toList)) [redirectToB, redirectToB]

/-- One redirect behind `run_all`. -/
def redirectedInBatch [Toolbox] [BoostRegex] [BoostErrors] : List (BatchEvent × BatchRequest) :=
  let b₁ := ({} : BatchRequest).add (.ofUrl "http://a/".toList)
  let b₂ := b₁.runAll .each
  [(.add (.ofUrl "http://a/".toList), b₁), (.runAll .each, b₂),
    (.answer redirectToB, { b₂ with runtime := b₂.runtime.complete {} redirectToB })]

/-- The first redirect behind `execute`, and a batch whose requests have just been started. -/
theorem captured_request_first :
    letI := Toolbox.reference
    letI := BoostRegex.reference
    letI := BoostErrors.silent
    Always CopiesHold (.ofExecute (.ofUrl "http://a/".toList)) (redirectedTwice.take 1) ∧
      Always (fun b => CopiesHold b.runtime) {} (redirectedInBatch.take 2) := by
  let := Toolbox.reference
  let := BoostRegex.reference
  let := BoostErrors.silent
  have hexecute : Run (AnswerStep {}) (.ofExecute (.ofUrl "http://a/".toList))
      (redirectedTwice.take 1) := .cons (.answer _ _ (by decide)) (.nil _)
  have hbatch : Run BatchStep {} (redirectedInBatch.take 2) :=
    .cons (.add _ _ rfl) <| .cons (.runAll _ _ rfl) <| .nil _
  constructor
  · refine (captured_request_iff.1 _ _ _ hexecute).mpr ⟨fun _ session hsession => ?_, trivial⟩
    obtain rfl := Option.some.inj hsession
    rfl
  · exact (captured_request_iff.2 _ hbatch).mpr ⟨rfl, rfl, trivial⟩

/-- **The second redirect of a chain, and the first one in a batch, read a variable that is
gone.** -/
theorem captured_request_gone :
    letI := Toolbox.reference
    letI := BoostRegex.reference
    letI := BoostErrors.silent
    Run (AnswerStep {}) (.ofExecute (.ofUrl "http://a/".toList)) redirectedTwice ∧
      ¬ Always CopiesHold (.ofExecute (.ofUrl "http://a/".toList)) redirectedTwice ∧
      Run BatchStep {} redirectedInBatch ∧
      ¬ Always (fun b => CopiesHold b.runtime) {} redirectedInBatch := by
  let := Toolbox.reference
  let := BoostRegex.reference
  let := BoostErrors.silent
  refine ⟨.cons (.answer _ _ (by decide)) <| .cons (.answer _ _ (by decide)) <| .nil _, ?_,
    .cons (.add _ _ rfl) <| .cons (.runAll _ _ rfl) <|
      .cons (.answer _ _ (by decide) (by decide)) <| .nil _, ?_⟩
  · exact fun h => absurd h.last (by decide)
  · exact fun h => absurd h.last (by decide)

end Httb
