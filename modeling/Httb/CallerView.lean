import Httb.LiveContext

/-!
# What Callers Are Told

The callers of `execute_in_context` see nothing of sessions and redirects: they see calls of
`onProgress` and one call of `cb`, whatever other calls do in the same context at the same time.

## Key Results

- `one_of_accounted`: a call has one session that is alive, or it has got one response
- `callers_told_in_order`: a caller is told progress, then one response, then nothing, in the runs
  in which every copy of a request is right
- `operations_served_alone`: and the response is the one that the call gets alone
-/

namespace Httb

open Httb.Foundation Httb.Foundation.Traced

namespace LiveContext

/-! ## What a caller is told -/

/-- What was told for a call. -/
def view (told : List (ℕ × CallerEvent)) (ticket : ℕ) : List CallerEvent :=
  (told.filter fun x => x.1 = ticket).map Prod.snd

/-- The sessions that are alive for a call. -/
def sessionsOf (p : LiveContext) (ticket : ℕ) : List LiveSession :=
  p.live.filter fun l => l.ticket = ticket

theorem view_append (told xs : List (ℕ × CallerEvent)) (ticket : ℕ) :
    view (told ++ xs) ticket = view told ticket ++ view xs ticket := by
  rw [view, List.filter_append, List.map_append, view, view]

theorem view_of_ticket {xs : List (ℕ × CallerEvent)} {ticket : ℕ} (h : ∀ x ∈ xs, x.1 = ticket) :
    view xs ticket = xs.map Prod.snd := by
  rw [view, List.filter_eq_self.mpr (by simpa using h)]

theorem view_of_ne {xs : List (ℕ × CallerEvent)} {ticket : ℕ} (h : ∀ x ∈ xs, x.1 ≠ ticket) :
    view xs ticket = [] := by
  rw [view, List.filter_eq_nil_iff.mpr (by simpa using h), List.map_nil]

/-- The responses come last. -/
def Ordered (es : List CallerEvent) : Prop :=
  ∃ (before : List CallerEvent) (resps : List Response),
    es = before ++ resps.map .response ∧ ∀ e ∈ before, e.asResponse = none

theorem filterMap_of_ordered {before : List CallerEvent} {resps : List Response}
    (h : ∀ e ∈ before, e.asResponse = none) :
    (before ++ resps.map CallerEvent.response).filterMap CallerEvent.asResponse = resps := by
  have hresps : (resps.map CallerEvent.response).filterMap CallerEvent.asResponse = resps := by
    rw [List.filterMap_map]
    exact List.filterMap_some
  rw [List.filterMap_append, List.filterMap_eq_nil_iff.mpr h, List.nil_append, hresps]

theorem count_delivered (told : List (ℕ × CallerEvent)) (ticket : ℕ) :
    ((delivered told).map Prod.fst).count ticket =
      ((view told ticket).filterMap CallerEvent.asResponse).length := by
  induction told with
  | nil => rfl
  | cons x told ih =>
    obtain ⟨t, e⟩ := x
    -- both sides count entry by entry
    have hcons (xs : List (ℕ × CallerEvent)) : (t, e) :: xs = [(t, e)] ++ xs := rfl
    rw [hcons, delivered_append, view_append, List.map_append, List.count_append,
      List.filterMap_append, List.length_append, ih]
    congr 1
    by_cases ht : t = ticket
    · cases e <;> simp [delivered, view, List.filterMap_cons, ht]
    · cases e <;> simp [delivered, view, List.filterMap_cons, ht]

/-- A call has one session that is alive, or it has got one response. -/
theorem one_of_accounted {p : LiveContext} (h : p.calls.Accounted) {ticket : ℕ}
    (ht : ticket < p.asked.length) :
    (p.sessionsOf ticket).length +
      ((view p.told ticket).filterMap CallerEvent.asResponse).length = 1 := by
  -- each number up to the number of calls counts once
  have hcount := h.count_eq ticket
  have hlength : p.calls.asked.length = p.asked.length := List.length_map _
  have htickets :
      p.calls.runtime.context.tickets.count ticket = (p.sessionsOf ticket).length := by
    show ((p.live.map LiveSession.waiting).map ContextSession.ticket).count ticket = _
    rw [List.map_map, List.count_eq_countP, List.countP_map, List.countP_eq_length_filter,
      sessionsOf]
    rfl
  rw [List.count_append, htickets, hlength,
    List.count_eq_one_of_mem List.nodup_range (List.mem_range.mpr ht)] at hcount
  rw [← count_delivered, Nat.add_comm]
  exact hcount

/-- What callers were told is in order, and goes to those who asked for it. -/
structure ToldWell (p : LiveContext) : Prop where
  known : ∀ x ∈ p.told, x.1 < p.asked.length
  asked : ∀ l ∈ p.live, ∃ request, p.asked[l.ticket]? = some (request, l.session.progressFunc)
  ordered : ∀ ticket, Ordered (view p.told ticket)
  silent : ∀ ticket request, p.asked[ticket]? = some (request, false) →
    ∀ e ∈ view p.told ticket, e.asResponse ≠ none

/-- While a session of a call is alive, its caller has been told progress alone. -/
theorem ToldWell.progress_alone {p : LiveContext} (h : ToldWell p)
    (haccounted : p.calls.Accounted) {l : LiveSession} (hl : l ∈ p.live) :
    ∀ e ∈ view p.told l.ticket, e.asResponse = none := by
  obtain ⟨before, resps, heq, hbefore⟩ := h.ordered l.ticket
  obtain ⟨request, hasked⟩ := h.asked l hl
  have hone := one_of_accounted haccounted (List.getElem?_eq_some_iff.mp hasked).1
  have halive : 0 < (p.sessionsOf l.ticket).length :=
    List.length_pos_of_mem (List.mem_filter.mpr ⟨hl, by simp⟩)
  rw [heq, filterMap_of_ordered hbefore] at hone
  obtain rfl : resps = [] := List.length_eq_zero_iff.mp (by omega)
  rw [heq, List.map_nil, List.append_nil]
  exact hbefore

section Steps

variable [Toolbox] [BoostRegex] [BoostErrors] {client : Client} {p : LiveContext}
  {l : LiveSession}

/-- What a completion tells the caller of its call, and whose sessions are alive after it. -/
theorem exists_told_fire (client : Client) {f : Firing} (hl : p.live[f.index]? = some l)
    (hphase : AsyncSession.Phase l.session) (hop : f.op ∈ l.session.pending) :
    ∃ (ps : List (ℕ × CallerEvent)) (resps : List Response), ProgressFor l ps ∧
      (p.fire client f).told =
        p.told ++ (ps ++ resps.map fun resp => (l.ticket, .response resp)) ∧
      (p.fire client f).asked = p.asked ∧
      ∀ l' ∈ (p.fire client f).live, l' ∈ p.live ∨
        (l'.ticket = l.ticket ∧ l'.session.progressFunc = l.session.progressFunc) := by
  -- progress first, and then what a lambda tells, if one is called
  obtain ⟨ps, hps, ⟨op, -, -, heq⟩ | ⟨report, -, heq⟩⟩ := fire_eq client hl hphase hop
  · refine ⟨ps, [], hps, by simp [heq], by rw [heq], fun l' hl' => ?_⟩
    rw [heq] at hl'
    rcases List.mem_or_eq_of_mem_set hl' with hl' | rfl
    · exact .inl hl'
    · exact .inr ⟨rfl, (AsyncSession.frame_complete l.session _ _).progressFunc⟩
  · rcases runLambda_cases client { p with told := p.told ++ ps } l f.stale report with
      ⟨-, resp, hlambda⟩ | ⟨-, q, hlambda⟩
    · rw [hlambda] at heq
      refine ⟨ps, [resp], hps, by simp [heq, tell], by rw [heq]; rfl, fun l' hl' => ?_⟩
      rw [heq] at hl'
      exact .inl (List.mem_of_mem_eraseIdx hl')
    · rw [hlambda] at heq
      refine ⟨ps, [], hps, by simp [heq], by rw [heq], fun l' hl' => ?_⟩
      rw [heq] at hl'
      rcases List.mem_append.mp (List.mem_of_mem_eraseIdx hl') with hl' | hl'
      · exact .inl hl'
      · -- the next session is for the same call, and has its progress function
        obtain rfl := List.mem_singleton.mp hl'
        exact .inr ⟨rfl, rfl⟩

theorem ToldWell.fire (h : ToldWell p) (haccounted : p.calls.Accounted) {f : Firing}
    (hl : p.live[f.index]? = some l) (hphase : AsyncSession.Phase l.session)
    (hop : f.op ∈ l.session.pending) : ToldWell (p.fire client f) := by
  obtain ⟨ps, resps, hps, htold, hasked, hlive⟩ :=
    exists_told_fire client hl hphase hop
  have hmem := List.mem_of_getElem? hl
  obtain ⟨request, hrequest⟩ := h.asked l hmem
  have hticket : ∀ x ∈ ps ++ resps.map fun resp => (l.ticket, .response resp), x.1 = l.ticket := by
    intro x hx
    rcases List.mem_append.mp hx with hx | hx
    · exact hps.ticket x hx
    · obtain ⟨resp, -, rfl⟩ := List.mem_map.mp hx
      rfl
  -- the caller of this call was told progress alone, the others are told nothing now
  have hsame : view (p.fire client f).told l.ticket =
      view p.told l.ticket ++ ps.map Prod.snd ++ resps.map .response := by
    rw [htold, view_append, view_of_ticket hticket, List.map_append, List.map_map,
      List.append_assoc]
    rfl
  have hother {ticket : ℕ} (hne : ticket ≠ l.ticket) :
      view (p.fire client f).told ticket = view p.told ticket := by
    rw [htold, view_append, view_of_ne fun x hx => (hticket x hx).trans_ne hne.symm,
      List.append_nil]
  constructor
  case known =>
    rw [htold, hasked]
    intro x hx
    rcases List.mem_append.mp hx with hx | hx
    · exact h.known x hx
    · rw [hticket x hx]
      exact (List.getElem?_eq_some_iff.mp hrequest).1
  case asked =>
    rw [hasked]
    intro l' hl'
    rcases hlive l' hl' with hl' | ⟨hsameTicket, hfunc⟩
    · exact h.asked l' hl'
    · exact ⟨request, by rw [hsameTicket, hfunc, hrequest]⟩
  case ordered =>
    intro ticket
    by_cases hne : ticket = l.ticket
    · subst hne
      refine ⟨view p.told l.ticket ++ ps.map Prod.snd, resps, hsame, fun e he => ?_⟩
      rcases List.mem_append.mp he with he | he
      · exact h.progress_alone haccounted hmem e he
      · obtain ⟨x, hx, rfl⟩ := List.mem_map.mp he
        exact hps.isProgress x hx
    · rw [hother hne]
      exact h.ordered ticket
  case silent =>
    rw [hasked]
    intro ticket request' hnone
    by_cases hne : ticket = l.ticket
    · subst hne
      -- no progress function, no progress
      have hps' : ps = [] := by
        rw [hrequest] at hnone
        exact hps.silent (Prod.ext_iff.mp (Option.some.inj hnone)).2
      rw [hsame, hps', List.map_nil, List.append_nil]
      intro e he
      rcases List.mem_append.mp he with he | he
      · exact h.silent _ request' hnone e he
      · obtain ⟨resp, -, rfl⟩ := List.mem_map.mp he
        simp
    · rw [hother hne]
      exact h.silent ticket request' hnone

theorem toldWell_step {p' : LiveContext} {e : LiveEvent} (h : ToldWell p)
    (haccounted : p.calls.Accounted) (hwaiting : Waiting p) (hstep : LiveStep client p e p') :
    ToldWell p' := by
  cases hstep with
  | scope s => exact ⟨h.known, h.asked, h.ordered, h.silent⟩
  | fire f l hl hop => exact h.fire haccounted hl (hwaiting l (List.mem_of_getElem? hl)).1 hop
  | execute var request onProgress hvar =>
    -- the calls before keep their numbers
    have hkeeps {ticket : ℕ} {x : BaseRequest × Bool} (hx : p.asked[ticket]? = some x) :
        (p.asked ++ [(request, onProgress)])[ticket]? = some x := by
      rw [List.getElem?_append_left (List.getElem?_eq_some_iff.mp hx).1]
      exact hx
    constructor
    case known =>
      intro x hx
      rw [List.length_append]
      exact Nat.lt_add_right 1 (h.known x hx)
    case asked =>
      intro l hl
      rcases List.mem_append.mp hl with hl | hl
      · obtain ⟨request', hrequest'⟩ := h.asked l hl
        exact ⟨request', hkeeps hrequest'⟩
      · obtain rfl := List.mem_singleton.mp hl
        exact ⟨request, List.getElem?_concat_length ..⟩
    case ordered => exact h.ordered
    case silent =>
      intro ticket request' hnone e he
      by_cases hold : ticket < p.asked.length
      · rw [List.getElem?_append_left hold] at hnone
        exact h.silent ticket request' hnone e he
      · -- of the new call nobody was told anything
        obtain ⟨x, hx, rfl⟩ := List.mem_map.mp he
        obtain ⟨hx, hticket⟩ := List.mem_filter.mp hx
        have hknown := h.known x hx
        rw [of_decide_eq_true hticket] at hknown
        exact absurd hknown hold

/-! ## Every run -/

end Steps

/-- How a call stands: it waits, with one operation of one session pending, and has heard of
progress alone; or its session is gone, and the last it heard was its one response. A caller
that asked for no progress has heard of none. -/
structure ToldInOrder (p : LiveContext) (ticket : ℕ) : Prop where
  stands : (∃ l op, p.sessionsOf ticket = [l] ∧ l.session.pending = [op] ∧
      ∀ e ∈ view p.told ticket, e.asResponse = none) ∨
    (p.sessionsOf ticket = [] ∧ ∃ before resp, view p.told ticket = before ++ [.response resp] ∧
      ∀ e ∈ before, e.asResponse = none)
  silent : ∀ request, p.asked[ticket]? = some (request, false) →
    ∀ e ∈ view p.told ticket, e.asResponse ≠ none

theorem ToldWell.toldInOrder {p : LiveContext} (h : ToldWell p) (haccounted : p.calls.Accounted)
    (hwaiting : Waiting p) {ticket : ℕ} (ht : ticket < p.asked.length) : ToldInOrder p ticket := by
  refine ⟨?_, h.silent ticket⟩
  have hone := one_of_accounted haccounted ht
  obtain ⟨before, resps, heq, hbefore⟩ := h.ordered ticket
  rw [heq, filterMap_of_ordered hbefore] at hone
  -- the call has no session and one response, or one session and none
  cases hsessions : p.sessionsOf ticket with
  | nil =>
    rw [hsessions, List.length_nil, Nat.zero_add] at hone
    obtain ⟨resp, rfl⟩ := List.length_eq_one_iff.mp hone
    exact .inr ⟨rfl, before, resp, heq, hbefore⟩
  | cons l rest =>
    rw [hsessions, List.length_cons] at hone
    obtain rfl : rest = [] := List.length_eq_zero_iff.mp (by omega)
    have hmem : l ∈ p.sessionsOf ticket := by simp [hsessions]
    obtain ⟨hlive, hticket⟩ := List.mem_filter.mp hmem
    obtain ⟨-, op, hop⟩ := hwaiting l hlive
    refine .inl ⟨l, op, rfl, hop, ?_⟩
    rw [← of_decide_eq_true hticket]
    exact h.progress_alone haccounted hlive

section Runs

variable [Toolbox] [BoostRegex] [BoostErrors] {client : Client}
  {session : BaseRequest → SessionReport}

/-- What callers were told is well told, whether or not the copies were right. -/
structure TellsWell (p : LiveContext) : Prop where
  waiting : Waiting p
  accounted : p.calls.Accounted
  told : ToldWell p

omit [Toolbox] [BoostRegex] [BoostErrors] in
theorem tellsWell_new : TellsWell {} where
  waiting := fun l hl => absurd hl List.not_mem_nil
  accounted := .refl _
  told := ⟨by simp, by simp, fun ticket => ⟨[], [], rfl, by simp⟩, by simp⟩

theorem tellsWell_step {p p' : LiveContext} {e : LiveEvent} (h : TellsWell p)
    (hstep : LiveStep client p e p') : TellsWell p' := by
  refine ⟨waiting_step h.waiting hstep, ?_, toldWell_step h.told h.accounted h.waiting hstep⟩
  rcases calls_step h.waiting hstep with hsame | ⟨e', hstep', -⟩
  · rw [hsame]
    exact h.accounted
  · exact accounted_step h.accounted hstep'

theorem tellsWell_run {tr : List (LiveEvent × LiveContext)} (h : Run (LiveStep client) {} tr) :
    Always TellsWell {} tr :=
  h.always tellsWell_new fun _ _ _ hp hstep => tellsWell_step hp hstep

/-- What the callers of a context can rely on: they are told in order, nothing is told to anyone
else, and no lambda has copied a request that was not there. -/
structure CallersServed (p : LiveContext) : Prop where
  inOrder : ∀ ticket < p.asked.length, ToldInOrder p ticket
  known : ∀ x ∈ p.told, x.1 < p.asked.length
  copies : CopiesHold p.calls.runtime

/-- The invariant behind it. -/
structure ServesCallers (p : LiveContext) : Prop extends TellsWell p where
  copies : CopiesHold p.calls.runtime

/-- The operations of sessions make the steps of the model where a session only reports. -/
theorem simulates_calls : Simulates (LiveStep client) (FiresAlone client session)
    (ContextStep client) (ReportsAlone client session) calls Waiting where
  inv p e p' := waiting_step
  matched p e p' hwaiting hfires hstep := by
    rcases calls_step hwaiting hstep with hsame | ⟨e', hstep', hreports⟩
    · exact .inl hsame
    · exact .inr ⟨e', hreports session hfires, hstep'⟩

/-- So every state is seen as one in which each call is served alone. -/
theorem servedAlone_run {tr : List (LiveEvent × LiveContext)} (h : Run (LiveStep client) {} tr)
    (hfires : Guarded (FiresAlone client session) {} tr) :
    Always (fun p => Waiting p ∧ ServedAlone client session p.calls) {} tr := by
  have hnew : Waiting {} := fun l hl => absurd hl List.not_mem_nil
  have hserved₀ : ServedAlone client session (calls {}) :=
    ⟨.refl _, fun _ hs => absurd hs List.not_mem_nil, fun _ hx => absurd hx List.not_mem_nil⟩
  exact simulates_calls.always h hnew hfires hserved₀
    fun c e c' hc hG hstep => servedAlone_step hc hG hstep

omit [Toolbox] [BoostRegex] [BoostErrors] in
theorem calls_asked {p : LiveContext} {ticket : ℕ} {request : BaseRequest} {onProgress : Bool}
    (h : p.asked[ticket]? = some (request, onProgress)) :
    p.calls.asked[ticket]? = some request := by
  show (p.asked.map Prod.fst)[ticket]? = _
  rw [List.getElem?_map, h]
  rfl

/-- A response that a caller was told is the one that its call gets alone. -/
theorem returns_of_view {p : LiveContext} (h : ServedAlone client session p.calls) {ticket : ℕ}
    {request : BaseRequest} {onProgress : Bool}
    (hasked : p.asked[ticket]? = some (request, onProgress)) {resp : Response}
    (hresp : .response resp ∈ view p.told ticket) :
    ∃ sent, Returns (fun n => Httb.executeInContext client true session n request) sent
      (.called resp) := by
  obtain ⟨⟨t, e⟩, hx, rfl⟩ := List.mem_map.mp hresp
  obtain ⟨htold, hticket⟩ := List.mem_filter.mp hx
  obtain rfl : t = ticket := of_decide_eq_true hticket
  have hdelivered : (t, resp) ∈ p.calls.runtime.delivered :=
    List.mem_filterMap.mpr ⟨(t, .response resp), htold, rfl⟩
  obtain ⟨request', hasked', hreturns⟩ := h.onTrack.delivered _ hdelivered
  rw [calls_asked hasked] at hasked'
  rwa [Option.some.inj hasked']

/-- **The operations of other calls do not matter.** Let the sessions that share a context report
what sessions for their requests report alone. Then, in whatever order their operations complete,
each session that is alive was made for a request that the redirects of its own call lead to, and
each response that a caller got is the one that its call gets alone. -/
theorem operations_served_alone {tr : List (LiveEvent × LiveContext)}
    (h : Run (LiveStep client) {} tr) (hfires : Guarded (FiresAlone client session) {} tr) :
    (∃ tr', Run (ContextStep client) {} tr' ∧ Guarded (ReportsAlone client session) {} tr' ∧
      lastState {} tr' = (lastState {} tr).calls) ∧
    Always (fun p => ∀ ticket request onProgress,
      p.asked[ticket]? = some (request, onProgress) →
      (∀ l ∈ p.sessionsOf ticket, LeadsTo client session request l.session.requestRaw) ∧
      ∀ resp, .response resp ∈ view p.told ticket →
        ∃ sent, Returns (fun n => Httb.executeInContext client true session n request) sent
          (.called resp)) {} tr := by
  have hnew : Waiting {} := fun l hl => absurd hl List.not_mem_nil
  refine ⟨simulates_calls.exists_run h hnew hfires, (servedAlone_run h hfires).mono ?_⟩
  rintro p ⟨-, hp⟩ ticket request onProgress hasked
  refine ⟨fun l hl => ?_, fun resp hresp => returns_of_view hp hasked hresp⟩
  obtain ⟨hlive, hticket⟩ := List.mem_filter.mp hl
  obtain ⟨request', hasked', hleads⟩ :=
    hp.onTrack.waiting l.waiting (List.mem_map_of_mem hlive)
  have hsame : l.waiting.ticket = ticket := of_decide_eq_true hticket
  rw [hsame, calls_asked hasked] at hasked'
  rwa [Option.some.inj hasked']

end Runs

/-! ## Two calls -/

/-- Host `a` is moved to host `b`, and host `b` is not found. -/
def movedToNowhere (request : BaseRequest) : SessionReport :=
  if request.host = "a".toList then .success (movingServer request) 0
  else .error ⟨1, .netdb⟩ "resolve".toList

/-- What happens to a call for host `a`, with progress, and a call for host `b`, without: the
second one fails between two operations of the first, the first one tells progress and fails
after its redirect. -/
def twoCalls [Toolbox] [BoostRegex] : List LiveEvent :=
  let a : BaseRequest := .ofUrl "http://a/".toList
  let b : BaseRequest := .ofUrl "http://b/".toList
  let notFound : Completion := { ec := ⟨1, .netdb⟩ }
  let half : ResponseParser := { contentLength := some 4, contentLengthRemaining := some 2 }
  [.scope [(.loopLocal 0, b), (.argument, a)], .execute .argument true,
    .execute (.loopLocal 0) false, .fire ⟨0, .resolve, {}, {}⟩, .fire ⟨0, .connect, {}, {}⟩,
    .fire ⟨1, .resolve, notFound, {}⟩, .fire ⟨0, .write .raw, {}, {}⟩,
    .fire ⟨0, .readSome .raw, { response := half }, {}⟩,
    .fire ⟨0, .readSome .raw,
      { response := { half with isDone := true, message := movingServer a } }, {}⟩,
    .fire ⟨0, .resolve, notFound, {}⟩]

/-- Each of the two calls gets the response that it gets alone. -/
theorem twoCalls_served_alone :
    letI := Toolbox.reference
    letI := BoostRegex.reference
    letI := BoostErrors.silent
    let p := lastState {} (traceOf (next {}) {} twoCalls)
    ∀ ticket request onProgress, p.asked[ticket]? = some (request, onProgress) →
      ∀ resp, .response resp ∈ view p.told ticket →
        ∃ sent, Returns (fun n => Httb.executeInContext {} true movedToNowhere n request) sent
          (.called resp) := by
  let := Toolbox.reference
  let := BoostRegex.reference
  let := BoostErrors.silent
  intro p ticket request onProgress hasked
  have hrun : Run (LiveStep {}) {} (traceOf (next {}) {} twoCalls) :=
    run_of_allPossible (by decide)
  have hfires : Guarded (FiresAlone {} movedToNowhere) {} (traceOf (next {}) {} twoCalls) := by
    decide
  exact ((operations_served_alone hrun hfires).2.last ticket request onProgress hasked).2

end LiveContext

end Httb
