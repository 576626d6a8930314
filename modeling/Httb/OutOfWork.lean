import Httb.CallerView
import Httb.FailureReports
import Mathlib.Algebra.GroupWithZero.Nat

/-!
# When a Context Runs Out of Work

`io_context::run` returns when no operation is pending. With any number of calls in the context,
whatever the order in which the operations of their sessions complete, that is a question of the
redirects alone: a session gets by with five operations, but for reads that leave more to read,
and every redirect makes one more session.

## Layers

- `LiveContext.rank`: how many completions can still follow
- `rank_step`: every completion that is not such a read lowers it
- `context_runs_out`: the completions of a run are bounded, and a context that is out of work has
  come to the end of all redirects
-/

namespace Httb

open Httb.Foundation Httb.Foundation.Traced

/-! ## What is left to do -/

/-- How many operations a session can have. -/
def sessionSteps : ℕ := 5

/-- How many completions can follow for a session, its redirects included; `hops` says how many
there are. -/
def LiveSession.rank (hops : BaseRequest → ℕ) (l : LiveSession) : ℕ :=
  l.session.completionsLeft + sessionSteps * hops l.session.requestRaw

/-- How many completions can follow in a context. -/
def LiveContext.rank (hops : BaseRequest → ℕ) (p : LiveContext) : ℕ :=
  (p.live.map (LiveSession.rank hops)).sum

/-- The completions of a run that are no reads which leave more to read. -/
def LiveEvent.work : LiveEvent → ℕ
  | .fire f => if AsyncSession.leavesMore f.op f.completion then 0 else 1
  | _ => 0

/-- The work that was done in a run. -/
def workOf (tr : List (LiveEvent × LiveContext)) : ℕ := (tr.map fun x => x.1.work).sum

namespace LiveContext

theorem rank_started (hops : BaseRequest → ℕ) (request : BaseRequest) (var : RequestVariable)
    (onProgress : Bool) (ticket : ℕ) :
    LiveSession.rank hops ⟨.started request onProgress, var, ticket⟩ =
      sessionSteps + sessionSteps * hops request := rfl

theorem sum_rank_eraseIdx (hops : BaseRequest → ℕ) {live : List LiveSession} {i : ℕ}
    {l : LiveSession} (hl : live[i]? = some l) :
    (live.map (LiveSession.rank hops)).sum =
      l.rank hops + ((live.eraseIdx i).map (LiveSession.rank hops)).sum := by
  obtain ⟨hlt, rfl⟩ := List.getElem?_eq_some_iff.mp hl
  rw [← List.sum_cons, ← List.map_cons]
  exact ((List.getElem_cons_eraseIdx_perm hlt).map _).sum_nat.symm

theorem sum_rank_set (hops : BaseRequest → ℕ) {live : List LiveSession} {i : ℕ}
    (hlt : i < live.length) (l : LiveSession) :
    ((live.set i l).map (LiveSession.rank hops)).sum =
      l.rank hops + ((live.eraseIdx i).map (LiveSession.rank hops)).sum := by
  rw [← List.sum_cons, ← List.map_cons]
  exact ((List.set_perm_cons_eraseIdx hlt l).map _).sum_nat

/-- A session that waits has something left to do. -/
theorem rank_of_pending {hops : BaseRequest → ℕ} {l : LiveSession} {op : Operation}
    (h : l.session.pending = [op]) :
    l.rank hops = AsyncSession.stepsLeft op + 1 + sessionSteps * hops l.session.requestRaw := by
  rw [LiveSession.rank, AsyncSession.completionsLeft, h]
  rfl

/-! ## What a completion leaves -/

section Steps

variable [Toolbox] [BoostRegex] [BoostErrors] {client : Client}
  {session : BaseRequest → SessionReport} {p : LiveContext} {l : LiveSession}

/-- When the session reports what it reports alone, the redirect that follows is the one of its
request. -/
theorem live_runLambda {stale : BaseRequest} {report : SessionReport}
    (hreport : report = session l.session.requestRaw)
    (hread : followsRedirect client report = true →
      (p.scope.lookup l.captured).getD stale = l.session.requestRaw) :
    (p.runLambda client l stale report).live = p.live ∨
      ∃ q var, nextSent client session l.session.requestRaw = some q ∧
        (p.runLambda client l stale report).live =
          p.live ++ [⟨.started q l.session.progressFunc, var, l.ticket⟩] := by
  rw [nextSent, ← hreport, runLambda]
  cases report with
  | error ec wtf => exact .inl rfl
  | success result bytes =>
    -- the request that follows is made of the one that the session sent
    cases hfollows : followsRedirect client (.success result bytes) with
    | false =>
      simp only [onReport, onSuccess_of_delivers hfollows]
      exact .inl rfl
    | true =>
      refine .inr ⟨redirectRequest l.session.requestRaw (responseOfAsync result),
        .redirectLocal p.redirects, by simp [hfollows], ?_⟩
      simp only [onReport, onSuccess_of_follows hfollows, hread hfollows]
      rfl

/-- The calls before keep their places. -/
theorem asked_prefix_step {p' : LiveContext} {e : LiveEvent} (hwaiting : Waiting p)
    (hstep : LiveStep client p e p') : p.asked <+: p'.asked := by
  cases hstep with
  | scope s => exact List.prefix_refl _
  | execute var request onProgress hvar => exact List.prefix_append _ _
  | fire f l hl hop =>
    obtain ⟨_, _, _, _, hasked, _⟩ :=
      exists_told_fire client hl (hwaiting l (List.mem_of_getElem? hl)).1 hop
    rw [hasked]

theorem asked_prefix_run {tr : List (LiveEvent × LiveContext)} (hwaiting : Waiting p)
    (h : Run (LiveStep client) p tr) : p.asked <+: (lastState p tr).asked := by
  induction h with
  | nil p => exact List.prefix_refl _
  | cons hstep _ ih =>
    exact (asked_prefix_step hwaiting hstep).trans (ih (waiting_step hwaiting hstep))

/-- The redirects of the sessions that are alive end, `k` of them at most. -/
def Ending (client : Client) (session : BaseRequest → SessionReport) (k : ℕ) (p : LiveContext) :
    Prop :=
  ∀ l ∈ p.live, endsWithin (nextSent client session) k l.session.requestRaw = true

/-- **A completion lowers the rank**, and the session that a redirect makes has a redirect less
before it. -/
theorem rank_fire {k : ℕ} {f : Firing} (hl : p.live[f.index]? = some l)
    (hwaits : l.Waits) (hop : f.op ∈ l.session.pending) (hends : Ending client session k p)
    (hfires : FiresAlone client session p (.fire f)) :
    Ending client session k (p.fire client f) ∧
      (p.fire client f).rank (hopsWithin (nextSent client session) k) + (LiveEvent.fire f).work ≤
        p.rank (hopsWithin (nextSent client session) k) := by
  have hmem := List.mem_of_getElem? hl
  have hlt : f.index < p.live.length := (List.getElem?_eq_some_iff.mp hl).1
  obtain ⟨hphase, op, hpending⟩ := hwaits
  obtain rfl : f.op = op := by simpa [hpending] using hop
  have hwork : (LiveEvent.fire f).work ≤ 1 := by
    rw [LiveEvent.work]
    split
    · exact Nat.zero_le 1
    · exact Nat.le_refl 1
  have herased : ∀ l' ∈ p.live.eraseIdx f.index,
      endsWithin (nextSent client session) k l'.session.requestRaw = true :=
    fun l' hl' => hends l' (List.mem_of_mem_eraseIdx hl')
  have hbefore := sum_rank_eraseIdx (hopsWithin (nextSent client session) k) hl
  unfold LiveContext.rank
  obtain ⟨ps, -, ⟨_, -, -, heq⟩ | ⟨report, hreports, heq⟩⟩ :=
    fire_eq client hl hphase hop
  · -- the session goes on with less to do, or after a part was read
    have hkeeps := (AsyncSession.frame_complete l.session f.op f.completion).requestRaw
    have hcloser := hphase.completionsLeft_complete hop f.completion
    rw [heq]
    refine ⟨fun l' hl' => ?_, ?_⟩
    · rcases List.mem_or_eq_of_mem_set hl' with hl' | rfl
      · exact hends l' hl'
      · rw [hkeeps]
        exact hends l hmem
    · rw [sum_rank_set _ hlt, hbefore, LiveSession.rank, hkeeps, LiveSession.rank, LiveEvent.work]
      dsimp only
      omega
  · -- the session is gone, and there may be one for the next request
    rw [rank_of_pending hpending] at hbefore
    obtain ⟨hreport, hread⟩ := hfires l hl report (by simp [hreports])
    rw [heq]
    rcases live_runLambda (p := { p with told := p.told ++ ps }) hreport hread with
      hlive | ⟨q, var, hnext, hlive⟩
    · simp only [hlive]
      exact ⟨herased, by omega⟩
    · obtain ⟨hqends, hqhops⟩ := hopsWithin_next (hends l hmem) hnext
      simp only [hlive, List.eraseIdx_append_of_lt_length hlt]
      refine ⟨fun l' hl' => ?_, ?_⟩
      · rcases List.mem_append.mp hl' with hl' | hl'
        · exact herased l' hl'
        · obtain rfl := List.mem_singleton.mp hl'
          exact hqends
      · rw [List.map_append, List.sum_append, List.map_singleton, List.sum_singleton,
          rank_started, hbefore, ← hqhops, Nat.mul_add]
        omega

/-- **Every step is paid for**, by the rank or by a new call. -/
theorem rank_step {k : ℕ} {p' : LiveContext} {e : LiveEvent} (hwaiting : Waiting p)
    (hends : Ending client session k p)
    (hasked : ∀ x ∈ p'.asked, endsWithin (nextSent client session) k x.1 = true)
    (hfires : FiresAlone client session p e) (hstep : LiveStep client p e p') :
    Ending client session k p' ∧
      p'.rank (hopsWithin (nextSent client session) k) + e.work +
          sessionSteps * (k + 1) * p.asked.length ≤
        p.rank (hopsWithin (nextSent client session) k) +
          sessionSteps * (k + 1) * p'.asked.length := by
  cases hstep with
  | scope s => exact ⟨hends, Nat.le_refl _⟩
  | fire f l hl hop =>
    obtain ⟨hends', hrank⟩ := rank_fire hl (hwaiting l (List.mem_of_getElem? hl)) hop hends hfires
    have hfire : LiveStep client p (.fire f) (p.fire client f) := .fire p f l hl hop
    have hsame := (asked_prefix_step hwaiting hfire).length_le
    refine ⟨hends', ?_⟩
    have := Nat.mul_le_mul_left (sessionSteps * (k + 1)) hsame
    omega
  | execute var request onProgress hvar =>
    have hrequest : endsWithin (nextSent client session) k request = true :=
      hasked (request, onProgress) (List.mem_append_right _ (List.mem_singleton_self _))
    refine ⟨fun l hl => ?_, ?_⟩
    · rcases List.mem_append.mp hl with hl | hl
      · exact hends l hl
      · obtain rfl := List.mem_singleton.mp hl
        exact hrequest
    · -- a new call brings one session, with its redirects
      have hhops := hopsWithin_le (nextSent client session) k request
      have hnew := Nat.mul_le_mul_left sessionSteps hhops
      simp only [LiveContext.rank, executeInContext, List.map_append, List.sum_append,
        List.map_singleton, List.sum_singleton, rank_started, LiveEvent.work,
        List.length_append, List.length_singleton, Nat.mul_add, Nat.mul_one]
      omega

theorem rank_run {k : ℕ} {tr : List (LiveEvent × LiveContext)} (hwaiting : Waiting p)
    (hends : Ending client session k p)
    (hasked : ∀ x ∈ (lastState p tr).asked,
      endsWithin (nextSent client session) k x.1 = true)
    (hfires : Guarded (FiresAlone client session) p tr) (h : Run (LiveStep client) p tr) :
    workOf tr + sessionSteps * (k + 1) * p.asked.length ≤
      p.rank (hopsWithin (nextSent client session) k) +
        sessionSteps * (k + 1) * (lastState p tr).asked.length := by
  induction h with
  | nil p => exact Nat.add_le_add_right (Nat.zero_le _) _
  | @cons p p' e tr hstep hrest ih =>
    have hwaiting' := waiting_step hwaiting hstep
    have hkept := asked_prefix_run hwaiting' hrest
    obtain ⟨hends', hrank⟩ := rank_step hwaiting hends (fun x hx => hasked x (hkept.subset hx))
      hfires.1 hstep
    have hlater := ih hwaiting' hends' hasked hfires.2
    have hcons : workOf ((e, p') :: tr) = e.work + workOf tr := by
      rw [workOf, List.map_cons, List.sum_cons, workOf]
    rw [hcons, lastState]
    omega

omit [Toolbox] [BoostRegex] [BoostErrors] in
/-- While a session is alive, an operation is pending. -/
theorem exists_possible (hwaiting : Waiting p) (halive : p.live ≠ []) :
    ∃ f, p.possible (.fire f) = true := by
  obtain ⟨l, hl⟩ := List.exists_mem_of_ne_nil _ halive
  obtain ⟨-, op, hop⟩ := hwaiting l hl
  obtain ⟨i, hi⟩ := List.mem_iff_getElem?.mp hl
  refine ⟨⟨i, op, {}, {}⟩, ?_⟩
  show (p.live[i]?).any _ = true
  rw [hi]
  simp [hop]

/-- **When a context runs out of work.** Let the sessions in a context report what sessions for
their requests report alone. If no call has more than `k` redirects before it, then whatever the
order of the operations, no more than five for each of `k + 1` sessions of each call complete in
all, but for reads that leave more to read. While a session is alive, an operation is pending; and
when none is, the redirects of every call have come to an end. -/
theorem context_runs_out {tr : List (LiveEvent × LiveContext)} (h : Run (LiveStep client) {} tr)
    (hfires : Guarded (FiresAlone client session) {} tr) :
    (∀ k, (∀ x ∈ (lastState {} tr).asked,
        endsWithin (nextSent client session) k x.1 = true) →
      workOf tr ≤ sessionSteps * (k + 1) * (lastState {} tr).asked.length) ∧
    ((lastState {} tr).live ≠ [] → ∃ f, (lastState {} tr).possible (.fire f) = true) ∧
    ((lastState {} tr).live = [] → ∀ x ∈ (lastState {} tr).asked,
      ∃ k, endsWithin (nextSent client session) k x.1 = true) := by
  obtain ⟨hwaiting, hserved⟩ := (servedAlone_run h hfires).last
  refine ⟨fun k hasked => ?_, fun halive => ?_, fun hidle x hx => ?_⟩
  · have hrank := rank_run (fun l hl => absurd hl List.not_mem_nil)
      (fun l hl => absurd hl List.not_mem_nil) hasked hfires h
    simpa [LiveContext.rank] using hrank
  · exact exists_possible hwaiting halive
  · -- nothing waits, so this call has got its response
    obtain ⟨ticket, hticket⟩ := List.mem_iff_getElem?.mp hx
    generalize lastState {} tr = p at hserved hidle hticket
    have haccounted : (p.calls.runtime.delivered.map Prod.fst).Perm
        (List.range p.calls.asked.length) := by
      simpa [calls, hidle, IoContext.tickets] using hserved.accounted
    have hrequest : p.calls.asked[ticket]? = some x.1 := calls_asked hticket
    have hmem : ticket ∈ p.calls.runtime.delivered.map Prod.fst :=
      haccounted.mem_iff.mpr (List.mem_range.mpr (List.getElem?_eq_some_iff.mp hrequest).1)
    obtain ⟨⟨t, resp⟩, hdelivered, rfl⟩ := List.mem_map.mp hmem
    obtain ⟨request, hasked, sent, hreturns⟩ := hserved.onTrack.delivered _ hdelivered
    obtain rfl : x.1 = request := Option.some.inj (hrequest.symm.trans hasked)
    obtain ⟨z, hchain, -⟩ := executeInContext_returns_iff.mp hreturns
    exact ⟨sent.length, endsWithin_iff.mpr ⟨sent, z, hchain, Nat.le_succ _⟩⟩

end Steps

/-- Two calls with one redirect make no more than twenty completions, and ran out of work. -/
theorem twoCalls_run_out :
    letI := Toolbox.reference
    letI := BoostRegex.reference
    letI := BoostErrors.silent
    let tr := traceOf (next {}) {} twoCalls
    workOf tr ≤ sessionSteps * 2 * 2 ∧
      ∀ x ∈ (lastState {} tr).asked, ∃ k, endsWithin (nextSent {} movedToNowhere) k x.1 = true := by
  let := Toolbox.reference
  let := BoostRegex.reference
  let := BoostErrors.silent
  intro tr
  have hrun : Run (LiveStep {}) {} tr := run_of_allPossible (by decide)
  have hfires : Guarded (FiresAlone {} movedToNowhere) {} tr := by decide
  obtain ⟨hbound, -, hidle⟩ := context_runs_out hrun hfires
  exact ⟨hbound 1 (by decide), hidle (by decide)⟩

end LiveContext

end Httb
