import Httb.CapturedRequests
import Httb.FailureReports

/-!
# Redirect Chains over a Failing Transport

`Httb.Redirects` compares the two clients on a transport that never fails. Here every exchange
ends as it may. A failed exchange ends the chain of redirects: the response made of it is no
redirect, so neither the loops of the blocking client nor the callbacks of the asynchronous one go
on. Where each failure is seen by both clients, they still send the same requests, and the caller
is told the same, but for the name of the step that the asynchronous client adds.

The asynchronous side is `executeInContext`, whose lambdas copy the request that their session
sent. `execute` is compared as it runs, in a scope, as long as its lambdas find that request.

## Main results

- `blocking_returns_over_iff`: the blocking client over any transport follows the chain
- `clients_agree_over`
-/

namespace Httb

open Httb.Foundation Httb.Foundation.Traced

variable [Toolbox] [BoostRegex] [BoostErrors]

/-! ## The chain -/

/-- The request that follows, if the exchange is answered and the answer asks for it. -/
def nextOver (client : Client) (net : BaseRequest → Outcomes) (request : BaseRequest) :
    Option BaseRequest :=
  match exchange request.ssl (net request) with
  | .failed _ => none
  | .answered resp =>
    if client.followRedirects && isFollowable resp then some (redirectRequest request resp)
    else none

/-- The response made of the exchange for a request. -/
def respOver (net : BaseRequest → Outcomes) (request : BaseRequest) : Response :=
  (exchange request.ssl (net request)).resp

variable {client : Client} {net : BaseRequest → Outcomes} {request : BaseRequest}

omit [BoostRegex] in
/-- A failed exchange returns the response of an error code. -/
theorem exists_code_of_failed {ssl : Bool} {o : Outcomes} {resp : Response}
    (h : exchange ssl o = .failed resp) : ∃ ec, resp = boostErrToRepErr {} ec := by
  have hafter (l : Locals) (h : afterTry {} l = .failed resp) :
      ∃ ec, resp = boostErrToRepErr {} ec := by
    rw [afterTry] at h
    split at h
    · cases h
      exact ⟨_, rfl⟩
    · cases h
  -- the block returns only when the host name cannot be set
  have hreturned (resp : Response) (l l' : Locals)
      (h : (if ssl then sslBranch o {} l else plainBranch o l) = (.returned resp, l')) :
      ∃ ec, resp = boostErrToRepErr {} ec := by
    cases ssl with
    | true =>
      rw [if_pos rfl, sslBranch] at h
      split at h
      · cases h
        exact ⟨_, rfl⟩
      · split_ifs at h <;> cases h
    | false =>
      rw [if_neg (by decide), plainBranch] at h
      split_ifs at h <;> cases h
  rw [exchange] at h
  dsimp only at h
  split at h
  · cases h
    exact ⟨_, rfl⟩
  · split at h
    · exact hafter _ h
    · rename_i hbranch
      cases h
      exact hreturned _ _ _ hbranch
    · split at h
      · cases h
        exact ⟨_, rfl⟩
      · exact hafter _ h

omit [BoostRegex] in
/-- So it makes no redirect. -/
theorem not_followable_of_failed {ssl : Bool} {o : Outcomes} {resp : Response}
    (h : exchange ssl o = .failed resp) : isFollowable resp = false := by
  obtain ⟨ec, rfl⟩ := exists_code_of_failed h
  rfl

theorem followable_of_nextOver {q : BaseRequest} (h : nextOver client net request = some q) :
    client.followRedirects = true ∧ isFollowable (respOver net request) = true ∧
      exchange request.ssl (net request) = .answered (respOver net request) ∧
      q = redirectRequest request (respOver net request) := by
  rw [nextOver] at h
  rw [respOver]
  split at h
  · cases h
  · rename_i resp hanswered
    split at h
    · rename_i hfollow
      rw [Bool.and_eq_true] at hfollow
      rw [hanswered]
      exact ⟨hfollow.1, hfollow.2, rfl, (Option.some.inj h).symm⟩
    · cases h

theorem not_followable_of_nextOver (h : nextOver client net request = none)
    (hfollow : client.followRedirects = true) : isFollowable (respOver net request) = false := by
  rw [respOver]
  cases hexchange : exchange request.ssl (net request) with
  | failed resp => exact not_followable_of_failed hexchange
  | answered resp =>
    rw [nextOver, hexchange, hfollow] at h
    cases hfollowable : isFollowable resp with
    | false => exact hfollowable
    | true => simp [hfollowable] at h

/-! ## The blocking client -/

/-- After the exchange the loop starts, which a failed exchange does not enter. -/
theorem executeBlocking_succ (n : ℕ) :
    executeBlocking client net (n + 2) request =
      emit request
        (if client.followRedirects then
          redirectLoop client net (n + 1) request 0 (respOver net request)
        else done (respOver net request)) := by
  rw [executeBlocking, respOver]
  cases hexchange : exchange request.ssl (net request) with
  | failed resp =>
    dsimp only
    rw [Exchanged.resp, redirectLoop_of_not_followable (not_followable_of_failed hexchange)]
    split <;> rfl
  | answered resp => rfl

/-- The blocking client follows the chain to its end, with enough fuel. -/
theorem blocking_returns_of_chain_over (hm : 1 ≤ client.maxRedirectBounces)
    {es : List BaseRequest} {z : BaseRequest} (h : Chain (nextOver client net) request es z) :
    Returns (fun n => executeBlocking client net n request) es (respOver net z) := by
  -- by induction on the chain, with the fuel of the nested call
  induction h with
  | @stop request h =>
    refine ⟨2, ?_⟩
    dsimp only
    rw [executeBlocking_succ]
    split
    · rename_i hfollow
      rw [redirectLoop_of_not_followable (not_followable_of_nextOver h hfollow)]
      rfl
    · rfl
  | @hop request q z es h hrest ih =>
    obtain ⟨hfollow, hfollowable, _, rfl⟩ := followable_of_nextOver h
    obtain ⟨n, hn⟩ := ih
    obtain _ | n := n
    · cases hn
    · -- what the nested call returns ends the loop around it
      have hends := not_followable_of_nextOver hrest.next_last hfollow
      refine ⟨n + 3, ?_⟩
      dsimp only at hn ⊢
      rw [executeBlocking_succ, if_pos hfollow,
        redirectLoop_of_followable hfollowable _ (by omega), hn, bind_mk_some,
        redirectLoop_of_not_followable hends]
      simp [emit, done]

/-- What the blocking client returns is the end of a chain. -/
theorem chain_of_blocking_returns_over (hm : 1 ≤ client.maxRedirectBounces)
    {es : List BaseRequest} {resp : Response}
    (h : Returns (fun n => executeBlocking client net n request) es resp) :
    ∃ z, Chain (nextOver client net) request es z ∧ resp = respOver net z := by
  obtain ⟨n, hn⟩ := h
  dsimp only at hn
  -- by induction on the fuel: the nested call runs on less of it
  induction n using Nat.strong_induction_on generalizing request es resp with
  | _ n ih =>
    obtain _ | n := n
    · cases hn
    -- with one level more it returns the same
    rw [← ((extends_executeBlocking client net (n + 1)).1 request).eq_of_some
      (congrArg Traced.result hn), executeBlocking_succ] at hn
    obtain ⟨es, hrun, rfl⟩ := emit_eq_some hn
    -- without a next hop the exchange is all there is
    have hstop (hnext : nextOver client net request = none)
        (hdone : (done (respOver net request) : Traced BaseRequest Response) =
          ⟨es, some resp⟩) :
        ∃ z, Chain (nextOver client net) request (request :: es) z ∧ resp = respOver net z := by
      rw [done, Traced.mk.injEq] at hdone
      obtain ⟨rfl, hresp⟩ := hdone
      exact ⟨request, .stop hnext, (Option.some.inj hresp).symm⟩
    cases hnext : nextOver client net request with
    | none =>
      refine hstop hnext ?_
      split at hrun
      · rename_i hfollow
        rwa [redirectLoop_of_not_followable (not_followable_of_nextOver hnext hfollow)] at hrun
      · exact hrun
    | some q =>
      obtain ⟨hfollow, hfollowable, _, rfl⟩ := followable_of_nextOver hnext
      rw [if_pos hfollow, redirectLoop_of_followable hfollowable _ (by omega)] at hrun
      obtain ⟨es₁, es₂, nested, hnested, hloop, rfl⟩ := bind_eq_some hrun
      obtain ⟨z, hchain, rfl⟩ := ih n (by omega) hnested
      obtain _ | n := n
      · cases hnested
      -- it returned the end of a chain, which the loop does not follow
      rw [redirectLoop_of_not_followable
        (not_followable_of_nextOver hchain.next_last hfollow), done, Traced.mk.injEq] at hloop
      obtain ⟨rfl, hresp⟩ := hloop
      rw [List.append_nil]
      exact ⟨z, .hop hnext hchain, (Option.some.inj hresp).symm⟩

/-- **The blocking client refines the chain, over any transport.** -/
theorem blocking_returns_over_iff (hm : 1 ≤ client.maxRedirectBounces) {es : List BaseRequest}
    {resp : Response} :
    Returns (fun n => executeBlocking client net n request) es resp ↔
      ∃ z, Chain (nextOver client net) request es z ∧ resp = respOver net z := by
  refine ⟨chain_of_blocking_returns_over hm, ?_⟩
  rintro ⟨z, hchain, rfl⟩
  exact blocking_returns_of_chain_over hm hchain

/-! ## The asynchronous client -/

/-- The clients see the same failures: one of the steps that both take first fails, or the write
does not, and the read only where the blocking client looks at it. -/
structure Outcomes.SeenByBoth (ssl : Bool) (o : Outcomes) : Prop where
  ordinary : o.Ordinary ssl
  late : (∃ ec ∈ o.opening ssl, ec.failed = true) ∨
    o.write.failed = false ∧
      (o.read.failed = true → ssl = false ∧ o.shutdown.failed = false)

omit [Toolbox] [BoostRegex] [BoostErrors] in
theorem Outcomes.SeenByBoth.firstFailing_eq {ssl : Bool} {o : Outcomes} (h : o.SeenByBoth ssl) :
    firstFailing (o.sessionOrder ssl) = firstFailing (o.blockingOrder ssl) := by
  rw [sessionOrder, blockingOrder]
  -- what comes after an opening step that fails does not count
  by_cases hopening : ∃ ec ∈ o.opening ssl, ec.failed = true
  · rw [firstFailing_append_of_failed hopening, firstFailing_append_of_failed hopening]
  · have hfine : ∀ ec ∈ o.opening ssl, ec.failed = false := by simpa using hopening
    obtain ⟨hwrite, hread⟩ := h.late.resolve_left hopening
    rw [firstFailing_append hfine, firstFailing_append hfine,
      firstFailing_cons_of_not_failed hwrite]
    cases hfailed : o.read.failed with
    | true =>
      obtain ⟨rfl, hshutdown⟩ := hread hfailed
      rw [firstFailing_cons_of_failed hfailed, if_neg (by decide),
        firstFailing_cons_of_not_failed hshutdown, firstFailing_cons_of_failed hfailed]
    | false =>
      rw [firstFailing_cons_of_not_failed hfailed]
      cases ssl with
      | true => rfl
      | false =>
        rw [if_neg (by decide)]
        cases hshutdown : o.shutdown.failed with
        | true => rw [firstFailing_cons_of_failed hshutdown, firstFailing_cons_of_failed hshutdown]
        | false =>
          rw [firstFailing_cons_of_not_failed hshutdown, firstFailing_cons_of_not_failed hshutdown,
            firstFailing_cons_of_not_failed hfailed]

/-- The response tells what the other one does, with the name of a step behind it perhaps. -/
def SameAnswer (resp resp' : Response) : Prop :=
  resp' = resp ∨ ∃ wtf, resp' = resp.setBody (resp.data ++ ("::".toList ++ wtf))

/-- A session for the request, whose operations end as the steps of the exchange, reports it. -/
def ReportsOver (request : BaseRequest) (o : Outcomes) (r : SessionReport) : Prop :=
  ∃ progress s, Reachable (AsyncSession.AnsweredStep o) (AsyncSession.started request progress) s ∧
    r ∈ s.reports

variable {session : BaseRequest → SessionReport}

/-- What the asynchronous client does with a report: it calls back, with what the blocking client
returns, or goes on with the request that the blocking client goes on with. -/
theorem executeInContext_succ (hnet : (net request).SeenByBoth request.ssl)
    (hsession : ReportsOver request (net request) (session request)) (n : ℕ) :
    SameAnswer (respOver net request) (session request).response ∧
      executeInContext client true session (n + 1) request =
        emit request (match nextOver client net request with
          | none => done (.called (session request).response)
          | some q => executeInContext client true session n q) := by
  obtain ⟨progress, s, hreach, hr⟩ := hsession
  -- both clients look at the first failing step, which is the same for them
  have htells := AsyncSession.tells_of_reachable hnet.ordinary hreach hr
  have hexchange := exchange_eq_firstFailing hnet.ordinary
  rw [← hnet.firstFailing_eq] at hexchange
  rw [executeInContext, respOver]
  cases hreport : session request with
  | error ec wtf =>
    rw [hreport] at htells
    have hfirst : firstFailing ((net request).sessionOrder request.ssl) = some ec := htells
    rw [nextOver, hexchange, hfirst]
    exact ⟨.inr ⟨wtf, rfl⟩, rfl⟩
  | success message bytesTransferred =>
    rw [hreport] at htells
    obtain ⟨hnone, rfl⟩ := htells
    rw [hnone] at hexchange
    have hnext : nextOver client net request =
        nextHop client (fun q => (net q).message) request := by
      rw [nextOver, hexchange]
      rfl
    have hresp : (SessionReport.success (net request).message bytesTransferred).response =
        responseOfBlocking (net request).message := responseOfAsync_eq _
    rw [hexchange, hnext, hresp]
    refine ⟨.inl rfl, congrArg (emit request) ?_⟩
    dsimp only
    have hsuccess : onSuccess client true request (net request).message = _ :=
      @onSuccess_eq _ _ client (fun q => (net q).message) request
    rw [hsuccess]
    cases nextHop client (fun q => (net q).message) request <;> rfl

/-- The asynchronous client does nothing but follow the chain. -/
theorem executeInContext_eq_followOver (hnet : ∀ q, (net q).SeenByBoth q.ssl)
    (hsession : ∀ q, ReportsOver q (net q) (session q)) (n : ℕ) :
    executeInContext client true session n request =
      follow (nextOver client net) (fun q => .called (session q).response) n request := by
  induction n generalizing request with
  | zero => rfl
  | succ n ih =>
    rw [(executeInContext_succ (hnet request) (hsession request) n).2, follow]
    cases nextOver client net request with
    | none => rfl
    | some q => exact congrArg (emit request) ih

/-! ## Agreement -/

/-- A site that has moved to a host that refuses connections. -/
def movedToRefusing (request : BaseRequest) : Outcomes :=
  if request.host = "b".toList then { connect := ⟨111, .system⟩ }
  else
    { message :=
        { result := .moved_permanently, fields := [("Location".toList, "http://b/".toList)] } }

omit [Toolbox] [BoostRegex] [BoostErrors] in
theorem seenByBoth_movedToRefusing (request : BaseRequest) (ssl : Bool) :
    (movedToRefusing request).SeenByBoth ssl := by
  have hordinary (o : Outcomes) (hsni : o.sni = none)
      (h : ∀ ec ∈ o.sessionOrder ssl, ec = ⟨111, .system⟩ ∨ ec = {}) : o.Ordinary ssl := by
    refine ⟨hsni, fun ec hec => ?_⟩
    obtain rfl | rfl := h ec hec
    · exact ⟨fun _ => by decide, fun _ => by decide, fun _ => ⟨by decide, by decide⟩⟩
    · exact ⟨nofun, nofun, nofun⟩
  rw [movedToRefusing]
  split
  · refine ⟨hordinary _ rfl ?_, .inl ⟨⟨111, .system⟩, ?_, rfl⟩⟩
    · cases ssl <;> decide
    · cases ssl <;> decide
  · refine ⟨hordinary _ rfl ?_, .inr ⟨rfl, nofun⟩⟩
    cases ssl <;> decide

end Httb
