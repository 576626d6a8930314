import Httb.CallerView
import Httb.MockClient

/-!
# The Mock in the Place of the Client

Code that takes a `httb::client` is tested with a `mock_client`
(`include/httb/mocker/mock_client.h`). Each call of the mock's `execute` calls back at once. A call
of the real client may share its context with any number of others, and gets its response after
many operations and redirects; yet what its callback is given in the end is what the mock's is, if
the executor answers as the network does.

## Main facts

- `exists_answersAs`: there is such an executor, whatever the network does
- `mock_stands_in`: each call of the real client still waits, or has got what the mock gives
-/

namespace Httb

open Httb.Foundation Httb.Foundation.Traced

section Substitute

variable [Toolbox] [BoostRegex] [BoostErrors] {client : Client}
  {session : BaseRequest → SessionReport} {executor : BaseRequest → Response}

/-- The executor answers what a call gets alone, when that comes to an end. -/
def AnswersAs (client : Client) (session : BaseRequest → SessionReport)
    (executor : BaseRequest → Response) : Prop :=
  ∀ request sent resp,
    Returns (fun n => executeInContext client true session n request) sent (.called resp) →
      executor request = resp

/-- Whatever the network does, some executor answers as it does. -/
theorem exists_answersAs (client : Client) (session : BaseRequest → SessionReport) :
    ∃ executor, AnswersAs client session executor := by
  classical
  let ends (request : BaseRequest) (resp : Response) : Prop :=
    ∃ sent, Returns (fun n => executeInContext client true session n request) sent (.called resp)
  refine ⟨fun request => if h : ∃ resp, ends request resp then h.choose else {}, ?_⟩
  intro request sent resp hreturns
  have hends : ∃ resp, ends request resp := ⟨resp, sent, hreturns⟩
  obtain ⟨sent', hchosen⟩ := hends.choose_spec
  -- a call has one end
  have hgrowing : Growing fun n => executeInContext client true session n request := by
    simp only [executeInContext_eq_follow]
    exact growing_follow request
  show dite _ _ _ = _
  rw [dif_pos hends]
  exact CallbackEffect.called.inj (hgrowing.returns_unique hchosen hreturns).2

/-- **The mock stands in for the client.** However many calls share a context of the real client,
let its sessions report what sessions for their requests report alone. Then, in whatever order
their operations complete, a call either waits, and its callback was not called, or the callback
was given what the mock's `execute` gives it. -/
theorem mock_stands_in (hexecutor : AnswersAs client session executor)
    {tr : List (LiveEvent × LiveContext)} (h : Run (LiveStep client) {} tr)
    (hfires : Guarded (LiveContext.FiresAlone client session) {} tr) :
    Always (fun p => ∀ ticket request onProgress,
      p.asked[ticket]? = some (request, onProgress) →
      let resps := (LiveContext.view p.told ticket).filterMap CallerEvent.asResponse
      p.sessionsOf ticket ≠ [] ∧ resps = [] ∨
        p.sessionsOf ticket = [] ∧
          MockClient.execute ⟨some executor⟩ { request } = .ok resps) {} tr := by
  refine ((LiveContext.servedAlone_run h hfires).and (LiveContext.tellsWell_run h)).mono ?_
  rintro p ⟨⟨-, hserved⟩, -, haccounted, -⟩ ticket request onProgress hasked resps
  have hone : (p.sessionsOf ticket).length + resps.length = 1 :=
    LiveContext.one_of_accounted haccounted (List.getElem?_eq_some_iff.mp hasked).1
  cases hsessions : p.sessionsOf ticket with
  | cons l rest =>
    -- the one session that there is has not reported
    rw [hsessions, List.length_cons] at hone
    exact .inl ⟨List.cons_ne_nil l rest, List.length_eq_zero_iff.mp (by omega)⟩
  | nil =>
    rw [hsessions, List.length_nil, Nat.zero_add] at hone
    obtain ⟨resp, hresp⟩ := List.length_eq_one_iff.mp hone
    have hmem : .response resp ∈ LiveContext.view p.told ticket := by
      have hresps : resp ∈ resps := by
        rw [hresp]
        exact List.mem_singleton_self resp
      obtain ⟨e, he, hasResponse⟩ := List.mem_filterMap.mp hresps
      cases e with
      | progress loaded total progress => cases hasResponse
      | response resp' =>
        obtain rfl := Option.some.inj hasResponse
        exact he
    obtain ⟨sent, hreturns⟩ := LiveContext.returns_of_view hserved hasked hmem
    refine .inr ⟨rfl, ?_⟩
    rw [MockClient.execute_eq, hresp, ← hexecutor _ _ _ hreturns]
    rfl

end Substitute

/-- Two calls of the real client, and what they would have got from a mock. -/
theorem mock_stands_in_twoCalls :
    letI := Toolbox.reference
    letI := BoostRegex.reference
    letI := BoostErrors.silent
    ∃ executor, AnswersAs {} LiveContext.movedToNowhere executor ∧
      let p := lastState {} (traceOf (LiveContext.next {}) {} LiveContext.twoCalls)
      ∀ ticket request onProgress, p.asked[ticket]? = some (request, onProgress) →
        MockClient.execute ⟨some executor⟩ { request } =
          .ok ((LiveContext.view p.told ticket).filterMap CallerEvent.asResponse) := by
  let := Toolbox.reference
  let := BoostRegex.reference
  let := BoostErrors.silent
  obtain ⟨executor, hexecutor⟩ := exists_answersAs {} LiveContext.movedToNowhere
  refine ⟨executor, hexecutor, fun ticket request onProgress hasked => ?_⟩
  have hrun : Run (LiveStep {}) {} (traceOf (LiveContext.next {}) {} LiveContext.twoCalls) :=
    run_of_allPossible (by decide)
  have hfires : Guarded (LiveContext.FiresAlone {} LiveContext.movedToNowhere) {}
      (traceOf (LiveContext.next {}) {} LiveContext.twoCalls) := by decide
  have hnone : (lastState {} (traceOf (LiveContext.next {}) {}
      LiveContext.twoCalls)).live.length = 0 := by decide
  rcases (mock_stands_in hexecutor hrun hfires).last ticket request onProgress hasked with
    ⟨hwaits, -⟩ | ⟨-, hmock⟩
  · -- nothing waits any more
    refine absurd ?_ hwaits
    rw [LiveContext.sessionsOf, List.eq_nil_of_length_eq_zero hnone, List.filter_nil]
  · exact hmock

end Httb
