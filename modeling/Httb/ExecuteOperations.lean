import Httb.OutOfWork

/-!
# execute, Operation by Operation

`client::execute` (`src/client.cpp`) makes a context, passes its argument to `execute_in_context`
and runs the context. The success lambda of the first session reads the argument, which is alive;
those of later sessions read variables that are gone. With at most one redirect only the first
lambda reads, so the call does what it should with no word on what the others would find.

## Layers

- `ExecuteStands`: which variable a session refers to, and when it may be read
- `guarded_firesAlone`: so every redirect reads the request that was sent
- `execute_returns_told`: the call returns, and what its caller is told
-/

namespace Httb

open Httb.Foundation Httb.Foundation.Traced

namespace LiveContext

/-! ## The call -/

/-- `client::execute`, up to `ioc.run()`. -/
def ofExecute (request : BaseRequest) (onProgress : Bool) : LiveContext :=
  { ({ scope := [(.argument, request)] } : LiveContext).executeInContext request .argument
      onProgress 0 with
    asked := [(request, onProgress)] }

section Steps

variable [Toolbox] [BoostRegex] [BoostErrors] {client : Client}
  {session : BaseRequest → SessionReport} {request : BaseRequest} {onProgress : Bool}
  {p p' : LiveContext}

/-- The argument is alive, and a session refers to it and sent it, or follows no redirect. -/
structure ExecuteStands (client : Client) (session : BaseRequest → SessionReport)
    (request : BaseRequest) (onProgress : Bool) (p : LiveContext) : Prop where
  waiting : Waiting p
  scope : p.scope = [(.argument, request)]
  asked : p.asked = [(request, onProgress)]
  live : ∀ l ∈ p.live, l.captured = .argument ∧ l.session.requestRaw = request ∨
    nextSent client session l.session.requestRaw = none

omit [BoostErrors] in
theorem executeStands_ofExecute :
    ExecuteStands client session request onProgress (ofExecute request onProgress) where
  waiting := waits_append (fun l hl => absurd hl List.not_mem_nil) _ _ _ _
  scope := rfl
  asked := rfl
  live l hl := by
    obtain rfl := List.mem_singleton.mp hl
    exact .inl ⟨rfl, rfl⟩

omit [BoostErrors] in
/-- So a redirect reads the request that was sent. -/
theorem ExecuteStands.firesAlone (h : ExecuteStands client session request onProgress p)
    {e : LiveEvent} (hreports : ReportsOwn session p e) : FiresAlone client session p e := by
  obtain ⟨f, rfl, hown⟩ := hreports
  intro l hl r hr
  obtain rfl := hown l hl r hr
  refine ⟨rfl, fun hfollows => ?_⟩
  rcases h.live l (List.mem_of_getElem? hl) with ⟨hcaptured, hsent⟩ | hnone
  · -- the variable is the argument, which is still there
    rw [h.scope, hcaptured, hsent]
    rfl
  · rw [followsRedirect_eq_isSome, hnone] at hfollows
    cases hfollows

/-- Handlers write to no variable of a caller, and are no calls. -/
theorem frame_fire (client : Client) {f : Firing} {l : LiveSession}
    (hl : p.live[f.index]? = some l) (hphase : AsyncSession.Phase l.session)
    (hop : f.op ∈ l.session.pending) :
    (p.fire client f).scope = p.scope ∧ (p.fire client f).asked = p.asked := by
  obtain ⟨ps, -, ⟨op, -, -, heq⟩ | ⟨report, -, heq⟩⟩ := fire_eq client hl hphase hop
  · rw [heq]
    exact ⟨rfl, rfl⟩
  · rcases runLambda_cases client { p with told := p.told ++ ps } l f.stale report with
      ⟨-, resp, hlambda⟩ | ⟨-, q, hlambda⟩
    · rw [heq, hlambda]
      exact ⟨rfl, rfl⟩
    · rw [heq, hlambda]
      exact ⟨rfl, rfl⟩

/-- The sessions after a completion: one that is not new has its request and its variable, and a
new one is for the request that follows one of a session that was there. -/
theorem live_fire {f : Firing} {l : LiveSession} (hl : p.live[f.index]? = some l)
    (hphase : AsyncSession.Phase l.session) (hop : f.op ∈ l.session.pending)
    (halone : FiresAlone client session p (.fire f)) :
    ∀ l' ∈ (p.fire client f).live,
      (∃ l₀ ∈ p.live, l'.captured = l₀.captured ∧
        l'.session.requestRaw = l₀.session.requestRaw) ∨
      nextSent client session l.session.requestRaw = some l'.session.requestRaw := by
  intro l' hl'
  obtain ⟨ps, -, ⟨op, -, -, heq⟩ | ⟨report, hreport, heq⟩⟩ := fire_eq client hl hphase hop
  · -- the session goes on with its request
    rw [heq] at hl'
    rcases List.mem_or_eq_of_mem_set hl' with hl' | rfl
    · exact .inl ⟨l', hl', rfl, rfl⟩
    · exact .inl ⟨l, List.mem_of_getElem? hl, rfl,
        (AsyncSession.frame_complete l.session f.op f.completion).requestRaw⟩
  · obtain ⟨hown, hread⟩ := halone l hl report (by simp [hreport])
    rw [heq] at hl'
    have hl' := List.mem_of_mem_eraseIdx hl'
    rcases live_runLambda (p := { p with told := p.told ++ ps }) hown hread with
      hlive | ⟨q, var, hnext, hlive⟩
    · rw [hlive] at hl'
      exact .inl ⟨l', hl', rfl, rfl⟩
    · rw [hlive] at hl'
      rcases List.mem_append.mp hl' with hl' | hl'
      · exact .inl ⟨l', hl', rfl, rfl⟩
      · obtain rfl := List.mem_singleton.mp hl'
        exact .inr hnext

theorem ExecuteStands.step
    (hone : ∀ q, nextSent client session request = some q → nextSent client session q = none)
    (h : ExecuteStands client session request onProgress p) {e : LiveEvent}
    (hreports : ReportsOwn session p e) (hstep : LiveStep client p e p') :
    ExecuteStands client session request onProgress p' := by
  have halone := h.firesAlone hreports
  have hwaiting := waiting_step h.waiting hstep
  obtain ⟨f, rfl, -⟩ := hreports
  cases hstep with
  | fire f l hl hop =>
    have hmem := List.mem_of_getElem? hl
    have hphase := (h.waiting l hmem).1
    obtain ⟨hscope, hasked⟩ := frame_fire client hl hphase hop
    refine ⟨hwaiting, hscope.trans h.scope, hasked.trans h.asked, fun l' hl' => ?_⟩
    rcases live_fire hl hphase hop halone l' hl' with ⟨l₀, hl₀, hcaptured, hsent⟩ | hnext
    · rw [hcaptured, hsent]
      exact h.live l₀ hl₀
    · -- only the session of the argument has a next one, and that one has none
      rcases h.live l hmem with ⟨-, hsent⟩ | hnone
      · rw [hsent] at hnext
        exact .inr (hone _ hnext)
      · rw [hnone] at hnext
        cases hnext

/-- In such a run every redirect reads the request that was sent. -/
theorem guarded_firesAlone {tr : List (LiveEvent × LiveContext)}
    (hone : ∀ q, nextSent client session request = some q → nextSent client session q = none)
    (h : ExecuteStands client session request onProgress p)
    (hreports : Guarded (ReportsOwn session) p tr) (hrun : Run (LiveStep client) p tr) :
    Guarded (FiresAlone client session) p tr := by
  induction hrun with
  | nil p => trivial
  | cons hstep _ ih =>
    exact ⟨h.firesAlone hreports.1, ih (h.step hone hreports.1 hstep) hreports.2⟩

/-! ## The whole call -/

/-- **`execute` returns.** Let the sessions of a call of `execute` report what sessions for their
requests report alone, and let no more than one redirect follow its request. Then, however the
operations complete, no more than ten do, but for reads that leave more to read; the call is never
stuck; and when it returns its caller has been told progress, and then, once, the response that
the call gets alone. -/
theorem execute_returns_told (hends : endsWithin (nextSent client session) 1 request = true)
    {tr : List (LiveEvent × LiveContext)}
    (h : Run (LiveStep client) (ofExecute request onProgress) tr)
    (hreports : Guarded (ReportsOwn session) (ofExecute request onProgress) tr) :
    workOf tr ≤ sessionSteps * 2 ∧
    ((lastState (ofExecute request onProgress) tr).live ≠ [] →
      ∃ f, (lastState (ofExecute request onProgress) tr).possible (.fire f) = true) ∧
    ((lastState (ofExecute request onProgress) tr).live = [] →
      ∃ before resp sent,
        (lastState (ofExecute request onProgress) tr).told.map Prod.snd =
          before ++ [.response resp] ∧
        (∀ e ∈ before, e.asResponse = none) ∧
        Returns (fun n => Httb.executeInContext client true session n request) sent
          (.called resp)) := by
  have hone : ∀ q, nextSent client session request = some q →
      nextSent client session q = none := by
    intro q hq
    simpa [endsWithin, hq] using hends
  have hstart : ExecuteStands client session request onProgress (ofExecute request onProgress) :=
    executeStands_ofExecute
  have halone := guarded_firesAlone hone hstart hreports h
  have hstands := (h.always_of_guarded hstart (fun _ _ _ hp hG hstep => hp.step hone hG hstep)
    hreports).last
  -- the call is one of any number of calls
  have hcalls : Run (LiveStep client) {} ((.scope [(.argument, request)], _) ::
      (.execute .argument onProgress, ofExecute request onProgress) :: tr) :=
    .cons (.scope {} _) (.cons (.execute _ .argument request onProgress rfl) h)
  have hserved := (servedAlone_run hcalls ⟨trivial, trivial, halone⟩).last.2
  obtain ⟨-, haccounted, htold⟩ := (tellsWell_run hcalls).last
  simp only [lastState] at hserved haccounted htold
  refine ⟨?_, exists_possible hstands.waiting, fun hidle => ?_⟩
  · have hending : Ending client session 1 (ofExecute request onProgress) := by
      intro l hl
      obtain rfl := List.mem_singleton.mp hl
      exact hends
    have hlast : ∀ x ∈ (lastState (ofExecute request onProgress) tr).asked,
        endsWithin (nextSent client session) 1 x.1 = true := by
      rw [hstands.asked]
      exact List.forall_mem_singleton.mpr hends
    have hpaid := rank_run hstart.waiting hending hlast halone h
    have hhops := hopsWithin_le (nextSent client session) 1 request
    have hrank : (ofExecute request onProgress).rank (hopsWithin (nextSent client session) 1) =
        sessionSteps + sessionSteps * hopsWithin (nextSent client session) 1 request := by
      simp [LiveContext.rank, ofExecute, executeInContext, rank_started]
    rw [hrank, hstands.asked, hstart.asked] at hpaid
    have hmul := Nat.mul_le_mul_left sessionSteps hhops
    omega
  · generalize lastState (ofExecute request onProgress) tr = p at *
    have hasked : p.asked[0]? = some (request, onProgress) := by rw [hstands.asked]; rfl
    have hfirst : ∀ x ∈ p.told, x.1 = 0 := by
      intro x hx
      have hknown := htold.known x hx
      rw [hstands.asked] at hknown
      exact Nat.lt_one_iff.mp hknown
    have hcall := htold.toldInOrder haccounted hstands.waiting
      (List.getElem?_eq_some_iff.mp hasked).1
    rcases hcall.stands with ⟨l, op, hsessions, -, -⟩ | ⟨-, before, resp, hview, hbefore⟩
    · -- no session is alive
      rw [sessionsOf, hidle] at hsessions
      cases hsessions
    · have hresp : .response resp ∈ view p.told 0 := by simp [hview]
      obtain ⟨sent, hreturns⟩ := returns_of_view hserved hasked hresp
      rw [view_of_ticket hfirst] at hview
      exact ⟨before, resp, sent, hview, hbefore, hreturns⟩

end Steps

/-! ## One call -/

/-- What happens to a call for host `a`: one part of the response is read before its end, the
redirect leads to host `b`, and that is not found. -/
def oneCall : List LiveEvent :=
  let a : BaseRequest := { host := "a".toList }
  let half : ResponseParser := { contentLength := some 4, contentLengthRemaining := some 2 }
  [.fire ⟨0, .resolve, {}, {}⟩, .fire ⟨0, .connect, {}, {}⟩, .fire ⟨0, .write .raw, {}, {}⟩,
    .fire ⟨0, .readSome .raw, { response := half }, {}⟩,
    .fire ⟨0, .readSome .raw,
      { response := { half with isDone := true, message := movingServer a } }, {}⟩,
    .fire ⟨0, .resolve, { ec := ⟨1, .netdb⟩ }, {}⟩]

/-- Its caller has been told progress and a response. -/
theorem oneCall_returns :
    letI := Toolbox.reference
    letI := BoostRegex.reference
    letI := BoostErrors.silent
    let call := ofExecute { host := "a".toList } true
    let tr := traceOf (next {}) call oneCall
    workOf tr ≤ sessionSteps * 2 ∧ (lastState call tr).told.length = 3 ∧
      ∃ before resp, (lastState call tr).told.map Prod.snd = before ++ [.response resp] := by
  let := Toolbox.reference
  let := BoostRegex.reference
  let := BoostErrors.silent
  intro call tr
  have hrun : Run (LiveStep {}) call tr := run_of_allPossible (by decide)
  have hreports : Guarded (ReportsOwn movedToNowhere) call tr := by
    refine ⟨⟨_, rfl, ?_⟩, ⟨_, rfl, ?_⟩, ⟨_, rfl, ?_⟩, ⟨_, rfl, ?_⟩, ⟨_, rfl, ?_⟩, ⟨_, rfl, ?_⟩,
      trivial⟩
    all_goals decide
  have hnone : (lastState call tr).live.length = 0 := by decide
  obtain ⟨hbound, -, hreturns⟩ := execute_returns_told (by decide) hrun hreports
  obtain ⟨before, resp, -, htold, -, -⟩ := hreturns (List.eq_nil_of_length_eq_zero hnone)
  exact ⟨hbound, by decide, before, resp, htold⟩

end LiveContext

end Httb
