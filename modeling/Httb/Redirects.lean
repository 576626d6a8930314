import Httb.Client
import Httb.SessionOutcome

/-!
# Redirect Chains

Against a server whose transport never fails, both clients follow the chain of redirects
that starts at the request: `nextHop`. The asynchronous client does nothing else. The
blocking client nests a loop into each call, but what a nested call returns is the end of
a chain, which the loop around it leaves alone; so for a limit of at least one it follows
the same chain, however long it is.

## Key Results

- `executeInContext_eq_asyncRun`: the asynchronous client over sessions that deliver the
  server's answers
- `blocking_returns_iff`, `async_returns_iff`: both refine `Chain`
- `executeBlocking_agrees_executeInContext`: they send the same requests and deliver the
  same response
- `blocking_bounded_iff`, `async_bounded_iff`: the limit is respected exactly on chains that end
  within it, the copies of the asynchronous client being right
- `executeBlocking_honest_iff`: without redirects the answer is honest exactly when the
  failures of the exchange show
-/

namespace Httb

open Httb.Foundation Httb.Foundation.Traced

section Redirects

variable [Toolbox] [BoostRegex]

/-! ## The chain that a server sends the client along -/

/-- The response that both clients make of the server's answer. -/
def answerTo (server : BaseRequest → BeastResponse) (request : BaseRequest) : Response :=
  responseOfBlocking (server request)

/-- The response asks for a follow-up and says where to. -/
def isFollowable (resp : Response) : Bool :=
  isRedirectStatus resp.status && resp.hasHeader "location".toList

/-- The request that follows, if the client follows redirects and the answer is one. -/
def nextHop (client : Client) (server : BaseRequest → BeastResponse) (request : BaseRequest) :
    Option BaseRequest :=
  if client.followRedirects && isFollowable (answerTo server request) then
    some (redirectRequest request (answerTo server request))
  else none

variable {client : Client} {server : BaseRequest → BeastResponse} {request : BaseRequest}

theorem isFollowable_of_nextHop {q : BaseRequest} (h : nextHop client server request = some q) :
    client.followRedirects = true ∧ isFollowable (answerTo server request) = true ∧
      q = redirectRequest request (answerTo server request) := by
  rw [nextHop] at h
  split at h
  · rename_i hfollow
    rw [Bool.and_eq_true] at hfollow
    exact ⟨hfollow.1, hfollow.2, (Option.some.inj h).symm⟩
  · cases h

theorem not_followable_of_nextHop (h : nextHop client server request = none)
    (hfollow : client.followRedirects = true) :
    isFollowable (answerTo server request) = false := by
  rw [nextHop, hfollow, Bool.true_and] at h
  split at h
  · cases h
  · rename_i hstops
    simpa using hstops

/-! ## The asynchronous client -/

/-- The success lambda calls back with the answer, or executes the next hop. -/
theorem onSuccess_eq (request : BaseRequest) :
    onSuccess client true request (server request) =
      match nextHop client server request with
      | none => .finished (.called (answerTo server request))
      | some q => .executeAgain q := by
  rw [onSuccess, responseOfAsync_eq, nextHop, answerTo, isFollowable]
  cases client.followRedirects <;>
    cases isRedirectStatus (responseOfBlocking (server request)).status <;>
      cases (responseOfBlocking (server request)).hasHeader "location".toList <;>
        simp [invoke, invokeIfSet]

variable [BoostErrors]

/-- The asynchronous client against a server, with a callback. -/
def asyncRun (client : Client) (server : BaseRequest → BeastResponse) (request : BaseRequest) :
    ℕ → Traced BaseRequest CallbackEffect :=
  fun n => executeInContext client true (fun q => .success (server q) 0) n request

/-- This is the client over real sessions: when the transport of each session does not fail and
delivers the server's answer, whatever else happens in it, the client does the same. -/
theorem executeInContext_eq_asyncRun {session : BaseRequest → SessionReport}
    (hsession : ∀ q, AsyncSession.ReportsDelivered q (server q) (session q)) (n : ℕ)
    (request : BaseRequest) :
    executeInContext client true session n request = asyncRun client server request n := by
  induction n generalizing request with
  | zero => rfl
  | succ n ih =>
    obtain ⟨bytesTransferred, hreport⟩ :=
      AsyncSession.success_of_reportsDelivered (hsession request)
    rw [executeInContext, hreport, asyncRun, executeInContext]
    dsimp only
    -- the success lambda does not look at the number of bytes
    cases onSuccess client true request (server request) with
    | finished effect => rfl
    | executeAgain q => exact congrArg (emit request) (ih q)

/-- The asynchronous client does nothing but follow the chain. -/
theorem asyncRun_eq_follow (client : Client) (server : BaseRequest → BeastResponse)
    (request : BaseRequest) :
    asyncRun client server request = fun n =>
      follow (nextHop client server) (fun q => .called (answerTo server q)) n request := by
  funext n
  induction n generalizing request with
  | zero => rfl
  | succ n ih =>
    rw [asyncRun, executeInContext, follow]
    simp only [onSuccess_eq]
    cases nextHop client server request with
    | none => rfl
    | some q => exact congrArg (emit request) (ih q)

theorem growing_asyncRun : Growing (asyncRun client server request) := by
  rw [asyncRun_eq_follow]
  exact growing_follow request

/-- **The asynchronous client refines the chain.** -/
theorem async_returns_iff {es : List BaseRequest} {effect : CallbackEffect} :
    Returns (asyncRun client server request) es effect ↔
      ∃ z, Chain (nextHop client server) request es z ∧
        effect = .called (answerTo server z) := by
  rw [asyncRun_eq_follow]
  exact returns_follow_iff

/-! ## The blocking client -/

/-- The blocking client against a server. -/
def blockingRun (client : Client) (server : BaseRequest → BeastResponse) (request : BaseRequest) :
    ℕ → Traced BaseRequest Response :=
  fun n => executeBlocking client (fun q => .success (server q)) n request

theorem blockingRun_succ (n : ℕ) :
    blockingRun client server request (n + 1) =
      emit request
        (if client.followRedirects then
          redirectLoop client (fun q => .success (server q)) n request 0 (answerTo server request)
        else done (answerTo server request)) := by
  rw [blockingRun, executeBlocking, exchange_success]
  rfl

/-- The loop leaves a response alone that is no redirect or names no location. -/
theorem redirectLoop_of_not_followable {net : BaseRequest → Outcomes} {resp : Response}
    (h : isFollowable resp = false) (n : ℕ) (bounces : Int) :
    redirectLoop client net (n + 1) request bounces resp = done resp := by
  rw [redirectLoop]
  split
  · rename_i hredirect
    rw [isFollowable, hredirect.2, Bool.true_and] at h
    rw [h]
    rfl
  · rfl

/-- The loop hands a followable response on to a nested call, while bounces are left. -/
theorem redirectLoop_of_followable {net : BaseRequest → Outcomes} {resp : Response}
    (h : isFollowable resp = true) (n : ℕ) {bounces : Int}
    (hbounces : bounces < client.maxRedirectBounces) :
    redirectLoop client net (n + 1) request bounces resp =
      bind (executeBlocking client net n (redirectRequest request resp)) fun resp =>
        redirectLoop client net n request (bounces + 1) resp := by
  rw [isFollowable, Bool.and_eq_true] at h
  rw [redirectLoop, if_pos ⟨hbounces, h.1⟩, h.2]
  rfl

/-- Without bounces the loop is not entered. -/
theorem redirectLoop_of_no_bounces {net : BaseRequest → Outcomes} (n : ℕ) {bounces : Int}
    (h : client.maxRedirectBounces ≤ bounces) (resp : Response) :
    redirectLoop client net (n + 1) request bounces resp = done resp := by
  rw [redirectLoop, if_neg]
  exact fun hc => absurd hc.1 (Int.not_lt.mpr h)

/-- The blocking client follows the chain to its end, with enough fuel. -/
theorem blocking_returns_of_chain (hm : 1 ≤ client.maxRedirectBounces) {es : List BaseRequest}
    {z : BaseRequest} (h : Chain (nextHop client server) request es z) :
    Returns (blockingRun client server request) es (answerTo server z) := by
  -- along the chain: each hop is one nested call, and one more level of fuel
  induction h with
  | @stop request h =>
    refine ⟨2, ?_⟩
    rw [blockingRun_succ]
    split
    · rename_i hfollow
      rw [redirectLoop_of_not_followable (not_followable_of_nextHop h hfollow)]
      rfl
    · rfl
  | @hop request q z es h hrest ih =>
    obtain ⟨hfollow, hfollowable, rfl⟩ := isFollowable_of_nextHop h
    obtain ⟨n, hn⟩ := ih
    obtain _ | n := n
    · cases hn
    · -- what the nested call returns ends the loop around it
      have hends := not_followable_of_nextHop hrest.next_last hfollow
      rw [blockingRun] at hn
      refine ⟨n + 3, ?_⟩
      rw [blockingRun_succ, if_pos hfollow,
        redirectLoop_of_followable hfollowable _ (by omega), hn, bind_mk_some,
        redirectLoop_of_not_followable hends]
      simp [emit, done]

/-- What the blocking client returns is the end of a chain. -/
theorem chain_of_blocking_returns (hm : 1 ≤ client.maxRedirectBounces) {es : List BaseRequest}
    {resp : Response} (h : Returns (blockingRun client server request) es resp) :
    ∃ z, Chain (nextHop client server) request es z ∧ resp = answerTo server z := by
  obtain ⟨n, hn⟩ := h
  -- by induction on the fuel: the nested call runs on less of it
  induction n using Nat.strong_induction_on generalizing request es resp with
  | _ n ih =>
    obtain _ | n := n
    · cases hn
    rw [blockingRun_succ] at hn
    obtain ⟨es, hrun, rfl⟩ := emit_eq_some hn
    -- without a next hop the exchange is all there is
    have hstop (hnext : nextHop client server request = none)
        (hdone : (done (answerTo server request) : Traced BaseRequest Response) =
          ⟨es, some resp⟩) :
        ∃ z, Chain (nextHop client server) request (request :: es) z ∧
          resp = answerTo server z := by
      rw [done, Traced.mk.injEq] at hdone
      obtain ⟨rfl, hresp⟩ := hdone
      exact ⟨request, .stop hnext, (Option.some.inj hresp).symm⟩
    cases hfollow : client.followRedirects with
    | false =>
      rw [hfollow] at hrun
      exact hstop (by simp [nextHop, hfollow]) hrun
    | true =>
      rw [if_pos hfollow] at hrun
      obtain _ | n := n
      · cases hrun
      cases hfollowable : isFollowable (answerTo server request) with
      | false =>
        rw [redirectLoop_of_not_followable hfollowable] at hrun
        exact hstop (by simp [nextHop, hfollowable]) hrun
      | true =>
        rw [redirectLoop_of_followable hfollowable _ (by omega)] at hrun
        obtain ⟨es₁, es₂, nested, hnested, hloop, rfl⟩ := bind_eq_some hrun
        obtain ⟨z, hchain, rfl⟩ := ih n (by omega) hnested
        obtain _ | n := n
        · cases hnested
        -- it returned the end of a chain, which the loop does not follow
        rw [redirectLoop_of_not_followable
          (not_followable_of_nextHop hchain.next_last hfollow), done, Traced.mk.injEq] at hloop
        obtain ⟨rfl, hresp⟩ := hloop
        rw [List.append_nil]
        exact ⟨z, .hop (by simp [nextHop, hfollow, hfollowable]) hchain,
          (Option.some.inj hresp).symm⟩

/-- **The blocking client refines the chain**, whenever it may bounce at all. -/
theorem blocking_returns_iff (hm : 1 ≤ client.maxRedirectBounces) {es : List BaseRequest}
    {resp : Response} :
    Returns (blockingRun client server request) es resp ↔
      ∃ z, Chain (nextHop client server) request es z ∧ resp = answerTo server z := by
  refine ⟨chain_of_blocking_returns hm, ?_⟩
  rintro ⟨z, hchain, rfl⟩
  exact blocking_returns_of_chain hm hchain

/-- More fuel only extends what the blocking client and its loop do. -/
theorem extends_executeBlocking (client : Client) (net : BaseRequest → Outcomes) (n : ℕ) :
    (∀ request, Extends (executeBlocking client net n request)
        (executeBlocking client net (n + 1) request)) ∧
      ∀ request bounces resp, Extends (redirectLoop client net n request bounces resp)
        (redirectLoop client net (n + 1) request bounces resp) := by
  -- function and loop call each other, so both are shown at once
  induction n with
  | zero => exact ⟨fun _ => extends_of_pending _, fun _ _ _ => extends_of_pending _⟩
  | succ n ih =>
    refine ⟨fun request => ?call, fun request bounces resp => ?loop⟩
    case call =>
      rw [executeBlocking, executeBlocking]
      refine Extends.emit ?_ request
      cases exchange request.ssl (net request) with
      | failed resp => exact .refl _
      | answered resp =>
        cases client.followRedirects with
        | true => exact ih.2 request 0 resp
        | false => exact .refl _
    case loop =>
      rw [redirectLoop, redirectLoop]
      split
      · split
        · exact .refl _
        · exact (ih.1 _).bind fun resp => ih.2 request (bounces + 1) resp
      · exact .refl _

theorem growing_executeBlocking (net : BaseRequest → Outcomes) :
    Growing (fun n => executeBlocking client net n request) := fun n =>
  (extends_executeBlocking client net n).1 request

theorem growing_blockingRun : Growing (blockingRun client server request) :=
  growing_executeBlocking _

/-! ## Agreement of the two clients -/

/-- **The clients agree on redirects.** Whenever the blocking client may bounce at all, it
terminates exactly when the asynchronous one calls back, and then both have sent the same
requests and deliver the same response. -/
theorem executeBlocking_agrees_executeInContext (client : Client)
    (server : BaseRequest → BeastResponse) (request : BaseRequest)
    (hm : 1 ≤ client.maxRedirectBounces) :
    (Terminates (blockingRun client server request) ↔
        Terminates (asyncRun client server request)) ∧
      ∀ es resp es' effect, Returns (blockingRun client server request) es resp →
        Returns (asyncRun client server request) es' effect →
          es' = es ∧ effect = .called resp := by
  have hboth (es : List BaseRequest) (resp : Response)
      (h : Returns (blockingRun client server request) es resp) :
      Returns (asyncRun client server request) es (.called resp) := by
    obtain ⟨z, hchain, rfl⟩ := (blocking_returns_iff hm).mp h
    exact async_returns_iff.mpr ⟨z, hchain, rfl⟩
  refine ⟨⟨?_, ?_⟩, ?_⟩
  · rintro ⟨es, resp, h⟩
    exact ⟨es, _, hboth es resp h⟩
  · rintro ⟨es, effect, h⟩
    obtain ⟨z, hchain, _⟩ := async_returns_iff.mp h
    exact ⟨es, _, (blocking_returns_iff hm).mpr ⟨z, hchain, rfl⟩⟩
  · intro es resp es' effect hblocking hasync
    exact growing_asyncRun.returns_unique hasync (hboth es resp hblocking)

/-! ## The limit -/

/-- The asynchronous client has no limit but the chain's. -/
theorem async_bounded_iff (k : ℕ) :
    EmitsAtMost (asyncRun client server request) (1 + k) ∧
        Terminates (asyncRun client server request) ↔
      endsWithin (nextHop client server) k request = true :=
  bounded_iff_endsWithin growing_asyncRun (fun _ _ => async_returns_iff) k

/-- Without bounces the blocking client sends its request and returns the answer. -/
theorem blocking_returns_of_no_bounces (hm : client.maxRedirectBounces ≤ 0) :
    Returns (blockingRun client server request) [request] (answerTo server request) := by
  refine ⟨2, ?_⟩
  rw [blockingRun_succ]
  split
  · rw [redirectLoop_of_no_bounces 0 hm]
    rfl
  · rfl

/-- The blocking client keeps to a limit of 0, and to any other limit only if the chain
does. -/
theorem blocking_bounded_iff (m : ℕ) :
    EmitsAtMost (blockingRun ⟨true, m⟩ server request) (1 + m) ∧
        Terminates (blockingRun ⟨true, m⟩ server request) ↔
      m = 0 ∨ endsWithin (nextHop ⟨true, m⟩ server) m request = true := by
  cases m with
  | zero =>
    -- the loop is never entered, so nothing is followed at all
    refine iff_of_true ?_ (.inl rfl)
    have hreturns : Returns (blockingRun ⟨true, ((0 : ℕ) : Int)⟩ server request) [request]
        (answerTo server request) := blocking_returns_of_no_bounces (Int.le_refl 0)
    exact ⟨growing_blockingRun.emitsAtMost_of_returns hreturns, _, _, hreturns⟩
  | succ m =>
    have hm : 1 ≤ (⟨true, ((m + 1 : ℕ) : Int)⟩ : Client).maxRedirectBounces := by
      simp only
      omega
    rw [bounded_iff_endsWithin growing_blockingRun fun _ _ => blocking_returns_iff hm]
    simp

/-! ## Without redirects -/

/-- **Honesty of `execute_blocking`, exactly.** With redirects off it returns after one
exchange, and its answer is honest about the outcomes of that exchange if and only if
their failures show. -/
theorem executeBlocking_honest_iff (m : Int) (net : BaseRequest → Outcomes)
    (request : BaseRequest) :
    ∃ resp, Returns (fun n => executeBlocking ⟨false, m⟩ net n request) [request] resp ∧
      (Honest request.ssl (net request) resp ↔ (net request).FailuresShow request.ssl) := by
  refine ⟨(exchange request.ssl (net request)).resp, ⟨1, ?_⟩, honest_exchange_iff _ _⟩
  change executeBlocking ⟨false, m⟩ net 1 request = _
  rw [executeBlocking]
  cases exchange request.ssl (net request) <;> rfl

end Redirects

/-- A server that moves everything from host `a` to host `b`. -/
def movingServer (request : BaseRequest) : BeastResponse :=
  if request.host = "a".toList then
    { result := .moved_permanently, fields := [("Location".toList, "http://b/".toList)] }
  else { body := "here".toList }

/-- The blocking client follows `movingServer` to its end, so the asynchronous client calls
back. -/
theorem asyncRun_movingServer_terminates :
    letI := Toolbox.reference
    letI := BoostRegex.reference
    letI := BoostErrors.silent
    Terminates (asyncRun ⟨true, (5 : ℕ)⟩ movingServer (BaseRequest.ofUrl "http://a/".toList)) :=
  letI := Toolbox.reference
  letI := BoostRegex.reference
  letI := BoostErrors.silent
  (executeBlocking_agrees_executeInContext ⟨true, (5 : ℕ)⟩ movingServer
    (BaseRequest.ofUrl "http://a/".toList) (by decide)).1.mp
      ((blocking_bounded_iff 5).mpr (.inr (by decide))).2

/-- Over TLS the connection is reset while the answer is read, and then shut down. -/
def resetExchange : Outcomes where
  read := ⟨104, .system⟩
  result_of_failed_read _ := rfl

/-- The reset connection is reported as an empty answer with status 200. -/
theorem resetExchange_reported_ok :
    letI := Toolbox.reference
    letI := BoostRegex.reference
    letI := BoostErrors.silent
    ∃ resp, Returns (fun n => executeBlocking ⟨false, 5⟩ (fun _ => resetExchange) n
        (BaseRequest.ofUrl "https://h/".toList)) [BaseRequest.ofUrl "https://h/".toList] resp ∧
      resp.code = 200 ∧ resp.data = [] ∧ ¬ Honest true resetExchange resp := by
  let := Toolbox.reference
  let := BoostRegex.reference
  let := BoostErrors.silent
  refine ⟨{ statusMessage := [] }, ⟨1, rfl⟩, rfl, rfl, fun h => ?_⟩
  exact absurd (h.1 (by decide)) (by decide)

end Httb
