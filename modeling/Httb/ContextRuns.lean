import Httb.BatchRuns
import Httb.Redirects

/-!
# Many Requests in One Context

Any number of calls of `execute_in_context` (`src/client.cpp`) on one context, in the style the
README shows, and the two overloads of `run_all`: all their sessions wait in the same context,
and report in any order, redirects between them. No response may end up with another request,
and no request may see what the others do.

A redirect reads its request through a reference (`CapturedRequests`). Here every copy reads the
request its session sent, wherever that comes from.

## Layers

- `executeInContext_eq_follow`: the client alone follows the chain of its own redirects, over
  sessions that may fail
- `OnTrack.complete`: the report of a session keeps every request on its own chain
- `served_alone`: in every run of a context each response is the one its request gets alone
- `runAll_serves_alone`: so it is in `run_all`
-/

namespace Httb

open Httb.Foundation Httb.Foundation.Traced

section Runs

variable [Toolbox] [BoostRegex]

/-! ## One request alone -/

/-- The request that follows, when the session of this one makes its report. -/
def nextSent (client : Client) (session : BaseRequest → SessionReport) (request : BaseRequest) :
    Option BaseRequest :=
  match session request with
  | .error _ _ => none
  | .success result bytes =>
    if followsRedirect client (.success result bytes) then
      some (redirectRequest request (responseOfAsync result))
    else none

/-- One request leads to another along the redirects. -/
def LeadsTo (client : Client) (session : BaseRequest → SessionReport) :
    BaseRequest → BaseRequest → Prop :=
  Relation.ReflTransGen fun p q => nextSent client session p = some q

variable [BoostErrors]

/-- The response that the callback gets when no request follows. -/
def finalResponse (session : BaseRequest → SessionReport) (request : BaseRequest) : Response :=
  match session request with
  | .error ec wtf =>
    let resp := boostErrToRepErr {} ec
    resp.setBody (resp.getBody ++ ("::".toList ++ wtf))
  | .success result _ => responseOfAsync result

variable {client : Client} {session : BaseRequest → SessionReport} {request : BaseRequest}

/-- The client alone follows its own redirects. -/
theorem executeInContext_eq_follow (n : ℕ) (request : BaseRequest) :
    executeInContext client true session n request =
      follow (nextSent client session) (fun q => .called (finalResponse session q)) n request := by
  induction n generalizing request with
  | zero => rfl
  | succ n ih =>
    rw [executeInContext, follow, nextSent, finalResponse]
    cases hreport : session request with
    | error ec wtf => rfl
    | success result bytes =>
      cases hfollows : followsRedirect client (.success result bytes) with
      | false => simp [onSuccess_of_delivers hfollows, hfollows]
      | true => simp [onSuccess_of_follows hfollows, hfollows, ih]

/-- What the client alone sends and answers. -/
theorem executeInContext_returns_iff {sent : List BaseRequest} {effect : CallbackEffect} :
    Returns (fun n => executeInContext client true session n request) sent effect ↔
      ∃ z, Chain (nextSent client session) request sent z ∧
        effect = .called (finalResponse session z) := by
  simp only [executeInContext_eq_follow]
  exact returns_follow_iff

/-- A request whose redirects have led to an end returns what that end gives. -/
theorem returns_of_leadsTo {z : BaseRequest} (h : LeadsTo client session request z)
    (hend : nextSent client session z = none) :
    ∃ sent, Returns (fun n => executeInContext client true session n request) sent
      (.called (finalResponse session z)) := by
  obtain ⟨sent, hchain⟩ := Chain.of_reflTransGen h hend
  exact ⟨sent, executeInContext_returns_iff.mpr ⟨z, hchain, rfl⟩⟩

/-! ## One report among others -/

/-- The answer is the report that its session makes, and a redirect reads the request that was
sent. -/
def AnswersFor (client : Client) (session : BaseRequest → SessionReport) (r : Runtime)
    (a : Answer) : Prop :=
  ∀ s ∈ r.context.sessions[a.index]?, a.report = session s.sent ∧
    (followsRedirect client a.report = true → (r.scope.lookup s.captured).getD a.stale = s.sent)

/-- A report delivers the final response of the request that was sent, or sends the next one. -/
theorem Runtime.complete_of_answersFor {r : Runtime} {a : Answer}
    (ha : a.index < r.context.sessions.length) (h : AnswersFor client session r a) :
    let s := r.context.sessions[a.index]
    (nextSent client session s.sent = none ∧
      r.complete client a = { r.dequeue a.index with
        delivered := r.delivered ++ [(s.ticket, finalResponse session s.sent)] }) ∨
    ∃ q, nextSent client session s.sent = some q ∧
      (r.complete client a).context.sessions =
        r.context.sessions.eraseIdx a.index ++ [⟨q, .redirectLocal r.redirects, s.ticket⟩] ∧
      (r.complete client a).delivered = r.delivered := by
  intro s
  have hsession : r.context.sessions[a.index]? = some s := List.getElem?_eq_getElem ha
  obtain ⟨hreport, hreads⟩ := h s hsession
  have hlambda : r.lambda client true a s =
      onReport client true ((r.scope.lookup s.captured).getD a.stale) (session s.sent) := by
    rw [Runtime.lambda, hreport]
  rw [nextSent, finalResponse]
  cases hreported : session s.sent with
  | error ec wtf =>
    rw [hreported] at hlambda
    exact .inl ⟨rfl, Runtime.completeWith_of_finished hsession hlambda⟩
  | success result bytes =>
    rw [hreported] at hlambda
    cases hfollows : followsRedirect client (.success result bytes) with
    | false =>
      rw [onReport, onSuccess_of_delivers hfollows] at hlambda
      exact .inl ⟨by simp [hfollows], Runtime.completeWith_of_finished hsession hlambda⟩
    | true =>
      -- the copy holds the request that was sent
      rw [onReport, onSuccess_of_follows hfollows,
        hreads (by rw [hreport, hreported, hfollows])] at hlambda
      refine .inr ⟨redirectRequest s.sent (responseOfAsync result), by simp [hfollows], ?_⟩
      rw [Runtime.complete, Runtime.completeWith_of_executeAgain hsession hlambda]
      exact ⟨rfl, rfl⟩

/-- Every request is on its own chain: a session that waits sent one of the requests that its
call leads to, and what was delivered is what the call gives alone. -/
structure OnTrack (client : Client) (session : BaseRequest → SessionReport)
    (asked : ℕ → BaseRequest → Prop) (r : Runtime) : Prop where
  waiting : ∀ s ∈ r.context.sessions, ∃ request, asked s.ticket request ∧
    LeadsTo client session request s.sent
  delivered : ∀ x ∈ r.delivered, ∃ request, asked x.1 request ∧
    ∃ sent, Returns (fun n => executeInContext client true session n request) sent (.called x.2)

/-- **A report keeps every request on its own chain.** -/
theorem OnTrack.complete {asked : ℕ → BaseRequest → Prop} {r : Runtime} {a : Answer}
    (h : OnTrack client session asked r) (ha : a.index < r.context.sessions.length)
    (hanswers : AnswersFor client session r a) :
    OnTrack client session asked (r.complete client a) := by
  obtain ⟨request, hasked, hleads⟩ := h.waiting _ (List.getElem_mem ha)
  have hothers : ∀ s ∈ r.context.sessions.eraseIdx a.index, ∃ request,
      asked s.ticket request ∧ LeadsTo client session request s.sent :=
    fun s hs => h.waiting s (List.mem_of_mem_eraseIdx hs)
  -- the session either was the last of its chain or passes the call on
  rcases Runtime.complete_of_answersFor ha hanswers with ⟨hend, heq⟩ | ⟨q, hnext, hsessions, hsame⟩
  · rw [heq]
    refine ⟨hothers, ?_⟩
    intro x hx
    rcases List.mem_append.mp hx with hx | hx
    · exact h.delivered x hx
    · obtain rfl := List.mem_singleton.mp hx
      exact ⟨request, hasked, returns_of_leadsTo hleads hend⟩
  · refine ⟨?_, by rw [hsame]; exact h.delivered⟩
    rw [hsessions]
    intro s hs
    rcases List.mem_append.mp hs with hs | hs
    · exact hothers s hs
    · obtain rfl := List.mem_singleton.mp hs
      exact ⟨request, hasked, hleads.tail hnext⟩

/-! ## Calls on one context -/

end Runs

/-- A context with the requests that it was asked for; a request has the number of its call. -/
structure ContextCalls where
  runtime : Runtime := {}
  asked : List BaseRequest := []
  deriving DecidableEq

/-- What happens around a context: variables of callers come and go, one of them is passed to
`execute_in_context`, and a session reports. -/
inductive ContextEvent where
  | scope (s : Scope)
  | execute (var : RequestVariable)
  | answer (a : Answer)

section Steps

variable [Toolbox] [BoostRegex] [BoostErrors]

/-- The steps of a context, in any order. -/
inductive ContextStep (client : Client) : ContextCalls → ContextEvent → ContextCalls → Prop where
  | scope (c : ContextCalls) (s : Scope) :
      ContextStep client c (.scope s) { c with runtime := { c.runtime with scope := s } }
  | execute (c : ContextCalls) (var : RequestVariable) (request : BaseRequest)
      (h : c.runtime.scope.lookup var = some request) :
      ContextStep client c (.execute var)
        ⟨c.runtime.executeInContext var c.asked.length, c.asked ++ [request]⟩
  | answer (c : ContextCalls) (a : Answer) (ha : a.index < c.runtime.context.sessions.length) :
      ContextStep client c (.answer a) { c with runtime := c.runtime.complete client a }

variable {client : Client} {session : BaseRequest → SessionReport}

/-- Sessions report what they come to. -/
def ReportsAlone (client : Client) (session : BaseRequest → SessionReport) (c : ContextCalls) :
    ContextEvent → Prop
  | .answer a => AnswersFor client session c.runtime a
  | _ => True

/-- Each call either waits or has got its one response. -/
def ContextCalls.Accounted (c : ContextCalls) : Prop :=
  (c.runtime.delivered.map Prod.fst ++ c.runtime.context.tickets).Perm (List.range c.asked.length)

omit [Toolbox] [BoostRegex] [BoostErrors] in
/-- To pass a variable to `execute_in_context` is to start one session. -/
theorem Runtime.executeInContext_of_lookup {r : Runtime} {var : RequestVariable}
    {request : BaseRequest} (h : r.scope.lookup var = some request) (ticket : ℕ) :
    r.executeInContext var ticket =
      { r with context := { r.context with
          sessions := r.context.sessions ++ [⟨request, var, ticket⟩] } } := by
  rw [Runtime.executeInContext, h]

theorem accounted_step {c c' : ContextCalls} {e : ContextEvent} (h : c.Accounted)
    (hstep : ContextStep client c e c') : c'.Accounted := by
  cases hstep with
  | scope s => exact h
  | execute var request hvar =>
    -- the new call has the next number
    rw [ContextCalls.Accounted, Runtime.executeInContext_of_lookup hvar, IoContext.tickets,
      List.map_append, ← List.append_assoc, List.length_append, List.length_singleton,
      List.range_succ]
    exact h.append_right _
  | answer a ha => exact (Runtime.tickets_complete ha).trans h

/-- Every call is accounted for, and its callback gets what the call gives alone. -/
structure ServedAlone (client : Client) (session : BaseRequest → SessionReport)
    (c : ContextCalls) : Prop where
  accounted : (c.runtime.delivered.map Prod.fst ++ c.runtime.context.tickets).Perm
    (List.range c.asked.length)
  onTrack : OnTrack client session (fun t request => c.asked[t]? = some request) c.runtime

theorem servedAlone_step {c c' : ContextCalls} {e : ContextEvent}
    (h : ServedAlone client session c) (hreports : ReportsAlone client session c e)
    (hstep : ContextStep client c e c') : ServedAlone client session c' := by
  refine ⟨accounted_step h.accounted hstep, ?_⟩
  cases hstep with
  | scope s => exact ⟨h.onTrack.waiting, h.onTrack.delivered⟩
  | execute var request hvar =>
    -- the calls before keep their numbers
    have hkeeps {t : ℕ} {q : BaseRequest} (hq : c.asked[t]? = some q) :
        (c.asked ++ [request])[t]? = some q := by
      rw [List.getElem?_append_left (List.getElem?_eq_some_iff.mp hq).1]
      exact hq
    rw [Runtime.executeInContext_of_lookup hvar]
    constructor
    · intro s hs
      rcases List.mem_append.mp hs with hs | hs
      · obtain ⟨q, hq, hleads⟩ := h.onTrack.waiting s hs
        exact ⟨q, hkeeps hq, hleads⟩
      · obtain rfl := List.mem_singleton.mp hs
        exact ⟨request, List.getElem?_concat_length .., .refl⟩
    · intro x hx
      obtain ⟨q, hq, hreturns⟩ := h.onTrack.delivered x hx
      exact ⟨q, hkeeps hq, hreturns⟩
  | answer a ha => exact h.onTrack.complete ha hreports

/-- **Requests do not mix.** However many calls of `execute_in_context` share a context, and in
whatever order their sessions report, in every state each call either waits or has got its one
response, and a response is the one that the call gives alone. -/
theorem served_alone {tr : List (ContextEvent × ContextCalls)}
    (h : Run (ContextStep client) {} tr)
    (hreports : Guarded (ReportsAlone client session) {} tr) :
    Always (ServedAlone client session) {} tr := by
  have hnew : ServedAlone client session {} :=
    ⟨.refl _, fun _ hs => absurd hs List.not_mem_nil, fun _ hx => absurd hx List.not_mem_nil⟩
  exact h.always_of_guarded hnew
    (fun _ _ _ hinv hG hstep => servedAlone_step hinv hG hstep) hreports

/-! ## run_all -/

/-- The request that was added as the one of the given number. -/
def BatchRequest.Queued (b : BatchRequest) (ticket : ℕ) (request : BaseRequest) : Prop :=
  b.requests[ticket]? = some (ticket, request)

omit [Toolbox] [BoostRegex] [BoostErrors] in
theorem BatchInv.queued_of_mem {b : BatchRequest} (h : BatchInv b) {x : ℕ × BaseRequest}
    (hx : x ∈ b.requests) : b.Queued x.1 x.2 := by
  obtain ⟨i, hi⟩ := List.mem_iff_getElem?.mp hx
  -- the numbers count the places
  have hnumber : (b.requests.map Prod.fst)[i]? = some x.1 := by
    rw [List.getElem?_map, hi]
    rfl
  rw [h.queued] at hnumber
  obtain ⟨hlt, heq⟩ := List.getElem?_eq_some_iff.mp hnumber
  rw [List.getElem_range] at heq
  rw [BatchRequest.Queued, ← heq, hi, heq]

/-- The sessions that `run_all` starts are those of its queue. -/
theorem BatchInv.onTrack_enter {b : BatchRequest} (h : BatchInv b) (hidle : b.running = none)
    (o : Overload) : OnTrack client session b.Queued (b.enter o).runtime := by
  rw [BatchRequest.enter, BatchRequest.startLoop_eq]
  refine ⟨?_, fun _ hx => absurd hx List.not_mem_nil⟩
  intro s hs
  rw [h.idle hidle, List.nil_append, List.mem_map] at hs
  obtain ⟨⟨x, pass⟩, hx, rfl⟩ := hs
  exact ⟨x.2, h.queued_of_mem (List.mem_reverse.mp (List.fst_mem_of_mem_zipIdx hx)), .refl⟩

/-- The sessions of `run_all` report what they come to. -/
def BatchReportsAlone (session : BaseRequest → SessionReport) (b : BatchRequest)
    (e : BatchEvent) : Prop :=
  ∃ a, e = .answer a ∧ AnswersFor {} session b.runtime a

/-- While `run_all` waits, its requests are on their chains. -/
structure RunAllOnTrack (session : BaseRequest → SessionReport) (b : BatchRequest) (o : Overload)
    (b' : BatchRequest) : Prop where
  inv : BatchInv b'
  onTrack : OnTrack {} session b.Queued b'.runtime
  running : b'.running = some ⟨o, b.adds⟩
  calls : b'.calls = b.calls

theorem RunAllOnTrack.step {b b' b'' : BatchRequest} {o : Overload} {e : BatchEvent}
    (h : RunAllOnTrack session b o b') (hreports : BatchReportsAlone session b' e)
    (hstep : BatchStep b' e b'') : RunAllOnTrack session b o b'' := by
  obtain ⟨a, rfl, hanswers⟩ := hreports
  cases hstep with
  | answer a hbusy ha =>
    exact ⟨h.inv.answer ha hbusy, h.onTrack.complete ha hanswers, h.running, h.calls⟩

/-- `run_all` in a context that is not stopped starts its requests. -/
theorem BatchInv.runAllOnTrack (session : BaseRequest → SessionReport) {b : BatchRequest}
    (h : BatchInv b) (hidle : b.running = none)
    (hfresh : b.runtime.context.stopped = false) (o : Overload) :
    RunAllOnTrack session b o (b.runAll o) := by
  have henter : b.runAll o = b.enter o := by
    have hstopped : (b.enter o).runtime.context.stopped = false := by
      rw [BatchRequest.enter, BatchRequest.startLoop_eq]
      exact hfresh
    rw [BatchRequest.runAll, if_neg (by rw [hstopped]; decide)]
  refine ⟨h.runAll hidle o (.inl hfresh), ?_, ?_, ?_⟩
  · rw [henter]; exact h.onTrack_enter hidle o
  · rw [henter]; rfl
  · rw [henter]; rfl

/-- When nothing waits any more, all requests of the queue have been delivered. -/
theorem RunAllOnTrack.runOut {b b' : BatchRequest} {o : Overload}
    (h : RunAllOnTrack session b o b') (hdone : b'.runtime.context.sessions = []) :
    b'.runOut.calls = b.calls ++ [⟨⟨o, b.adds⟩, o.invocations b'.runtime.delivered, 0⟩] ∧
      (b'.runtime.delivered.map Prod.fst).Perm (List.range b.adds) ∧
      ∀ x ∈ b'.runtime.delivered, ∃ request, b.Queued x.1 request ∧
        ∃ sent, Returns (fun n => executeInContext {} true session n request) sent
          (.called x.2) := by
  have haccounted := h.inv.accounted _ h.running
  rw [IoContext.tickets, hdone, List.map_nil, List.append_nil] at haccounted
  refine ⟨?_, haccounted, h.onTrack.delivered⟩
  have hempty := h.inv.empty _ h.running
  rw [BatchRequest.runOut, BatchRequest.leave]
  simp only [h.running, h.calls, hempty, List.length_nil]

/-- **A batch gives every request what it gets alone.** Let a batch be used in any way that never
starts requests in a stopped context, and `run_all` be called on it. Whatever the order in which
the sessions report, when it returns it has called back with one response for each request that
was queued, which is the response that this request gets alone. -/
theorem runAll_serves_alone {tr₀ tr : List (BatchEvent × BatchRequest)} {b : BatchRequest}
    {o : Overload} (h₀ : Run BatchStep {} tr₀) (hfresh₀ : Guarded RunsFresh {} tr₀)
    (hb : lastState {} tr₀ = b) (hidle : b.running = none)
    (hfresh : b.runtime.context.stopped = false) (h : Run BatchStep (b.runAll o) tr)
    (hreports : Guarded (BatchReportsAlone session) (b.runAll o) tr)
    (hdone : (lastState (b.runAll o) tr).runtime.context.sessions = []) :
    ∃ c, (lastState (b.runAll o) tr).runOut.calls = b.calls ++ [c] ∧
      (c.invocations.flatten.map Prod.fst).Perm (List.range b.adds) ∧
      ∀ x ∈ c.invocations.flatten, ∃ request, b.Queued x.1 request ∧
        ∃ sent, Returns (fun n => executeInContext {} true session n request) sent
          (.called x.2) := by
  have hinv : BatchInv b := by
    rw [← hb]
    exact (h₀.always_of_guarded batchInv_new
      (fun _ _ _ hinv hG hstep => batchInv_step hinv hG hstep) hfresh₀).last
  have hstart := hinv.runAllOnTrack session hidle hfresh o
  have hlast := (h.always_of_guarded hstart (fun _ _ _ hinv hG hstep => hinv.step hG hstep)
    hreports).last
  obtain ⟨hcalls, hperm, halone⟩ := hlast.runOut hdone
  refine ⟨_, hcalls, ?_, ?_⟩
  · rw [Overload.flatten_invocations]
    exact hperm
  · rw [Overload.flatten_invocations]
    exact halone

end Steps

/-- What a session over `movingServer` reports. -/
def movedReport (request : BaseRequest) : SessionReport := .success (movingServer request) 0

/-- The report of the session at a place. -/
def movedAnswer (index : ℕ) (sent : BaseRequest) : Answer := ⟨index, movedReport sent, {}⟩

/-- Two variables are passed to `execute_in_context`; the second request is answered first, and
the first one is redirected in between. -/
def interleavedCalls [Toolbox] [BoostRegex] [BoostErrors] : List (ContextEvent × ContextCalls) :=
  let a : BaseRequest := .ofUrl "http://a/".toList
  let b : BaseRequest := .ofUrl "http://b/".toList
  let alive : Scope := [(.loopLocal 0, b), (.argument, a)]
  let c₁ : ContextCalls := { runtime := { scope := alive } }
  let c₂ : ContextCalls := ⟨c₁.runtime.executeInContext .argument 0, [a]⟩
  let c₃ : ContextCalls := ⟨c₂.runtime.executeInContext (.loopLocal 0) 1, [a, b]⟩
  let c₄ : ContextCalls := { c₃ with runtime := c₃.runtime.complete {} (movedAnswer 1 b) }
  let c₅ : ContextCalls := { c₄ with runtime := c₄.runtime.complete {} (movedAnswer 0 a) }
  let c₆ : ContextCalls := { c₅ with runtime := c₅.runtime.complete {} (movedAnswer 0 b) }
  [(.scope alive, c₁), (.execute .argument, c₂), (.execute (.loopLocal 0), c₃),
    (.answer (movedAnswer 1 b), c₄), (.answer (movedAnswer 0 a), c₅),
    (.answer (movedAnswer 0 b), c₆)]

/-- Both calls have been served when the context is out of work. -/
theorem interleavedCalls_served :
    letI := Toolbox.reference
    letI := BoostRegex.reference
    letI := BoostErrors.silent
    (lastState {} interleavedCalls).runtime.delivered.map Prod.fst = [1, 0] ∧
      Always (ServedAlone {} movedReport) {} interleavedCalls := by
  let := Toolbox.reference
  let := BoostRegex.reference
  let := BoostErrors.silent
  have hrun : Run (ContextStep {}) {} interleavedCalls := by
    refine .cons (.scope _ _) <| .cons (.execute _ _ _ rfl) <| .cons (.execute _ _ _ rfl) <|
      .cons (.answer _ _ (by decide)) <| .cons (.answer _ _ (by decide)) <|
      .cons (.answer _ _ (by decide)) <| .nil _
  have hreports : Guarded (ReportsAlone {} movedReport) {} interleavedCalls := by
    refine ⟨trivial, trivial, trivial, ?_, ?_, ?_, trivial⟩
    all_goals
      intro s hs
      obtain rfl := Option.some.inj hs
      decide
  exact ⟨by decide, served_alone hrun hreports⟩

/-- Two requests in one batch, the one that was started last answered last. -/
theorem runAll_serves_two :
    letI := Toolbox.reference
    letI := BoostRegex.reference
    letI := BoostErrors.silent
    let b := (({} : BatchRequest).add (.ofUrl "http://b/".toList)).add (.ofUrl "http://c/".toList)
    let b₁ := b.runAll .all
    let b₂ := { b₁ with
      runtime := b₁.runtime.complete {} (movedAnswer 1 (.ofUrl "http://b/".toList)) }
    let b₃ := { b₂ with
      runtime := b₂.runtime.complete {} (movedAnswer 0 (.ofUrl "http://c/".toList)) }
    ∃ c, b₃.runOut.calls = [c] ∧ (c.invocations.flatten.map Prod.fst).Perm [0, 1] ∧
      ∀ x ∈ c.invocations.flatten, ∃ request, b.Queued x.1 request ∧
        ∃ sent, Returns (fun n => executeInContext {} true movedReport n request) sent
          (.called x.2) := by
  let := Toolbox.reference
  let := BoostRegex.reference
  let := BoostErrors.silent
  intro b b₁ b₂ b₃
  have hadds : Run BatchStep {} [(.add (.ofUrl "http://b/".toList), _), (.add _, b)] :=
    .cons (.add _ _ rfl) <| .cons (.add _ _ rfl) <| .nil _
  have hanswers : Run BatchStep b₁ [(.answer _, b₂), (.answer _, b₃)] :=
    .cons (.answer _ _ (by decide) (by decide)) <|
    .cons (.answer _ _ (by decide) (by decide)) <| .nil _
  refine runAll_serves_alone hadds ⟨trivial, trivial, trivial⟩ rfl rfl rfl hanswers
    ⟨⟨_, rfl, ?_⟩, ⟨_, rfl, ?_⟩, trivial⟩ (by decide)
  all_goals
    intro s hs
    obtain rfl := Option.some.inj hs
    decide

end Httb
