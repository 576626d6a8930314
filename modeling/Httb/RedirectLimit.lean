import Httb.CapturedRequests
import Httb.Redirects

/-!
# The Limit on Redirects

`m_max_redirect_bounces` (`include/httb/client.h`) is to bound how many requests one call sends.
The blocking client counts its bounces anew in each nested call; the asynchronous client does not
count them, and from the second redirect on it copies a request that is gone, so that nothing can
be promised of it at all.

## Layers

- `KeepsLimit`: what the limit promises of all runs of one call of `execute_in_context`
- `complete_of_serverAnswers`: what the report of the one session that waits leads to
- `keepsLimit_iff`: the promise is kept exactly on chains of at most one hop, from a variable
  that holds the request
- `redirects_bounded_iff`: when both clients respect the limit
-/

namespace Httb

open Httb.Foundation Httb.Foundation.Traced

/-- How many requests have been sent: each of them has been redirected, or its answer has been
delivered, or its session waits. -/
def Runtime.requestsSent (r : Runtime) : ℕ :=
  r.redirects + r.delivered.length + r.context.sessions.length

section Limit

variable [Toolbox]

/-- The transport does not fail: the session that reports delivers the server's answer. -/
def ServerAnswers (server : BaseRequest → BeastResponse) (r : Runtime) (a : Answer) : Prop :=
  ∀ session ∈ r.context.sessions[a.index]?,
    ∃ bytes, a.report = .success (server session.sent) bytes

variable [BoostRegex]

/-- A report of the server's answer follows a redirect when there is a next hop. -/
theorem followsRedirect_answer (client : Client) (server : BaseRequest → BeastResponse)
    (request : BaseRequest) (bytes : ℕ) :
    followsRedirect client (.success (server request) bytes) =
      (nextHop client server request).isSome := by
  rw [followsRedirect, responseOfAsync_eq, nextHop, answerTo, isFollowable, Bool.and_assoc]
  split <;> simp_all

variable [BoostErrors]

/-- The limit, as a promise about every run of a call against a server: at most `1 + m` requests
are sent, the run ends, and no lambda copies a request that is gone. -/
structure KeepsLimit (client : Client) (server : BaseRequest → BeastResponse) (m : ℕ)
    (r : Runtime) : Prop where
  sends : ∀ tr, Run (AnswerStep client) r tr → Guarded (ServerAnswers server) r tr →
    (lastState r tr).requestsSent ≤ 1 + m
  ends : ∀ tr, Run (AnswerStep client) r tr → Guarded (ServerAnswers server) r tr →
    tr.length ≤ 1 + m
  copies : ∀ tr, Run (AnswerStep client) r tr → Guarded (ServerAnswers server) r tr →
    Always CopiesHold r tr

variable {client : Client} {server : BaseRequest → BeastResponse} {request : BaseRequest}
  {later : Option BaseRequest} {m : ℕ} {r : Runtime} {a : Answer}

/-! ## Reports -/

/-- Each report is a redirect or is delivered. -/
theorem length_of_run {tr : List (Answer × Runtime)} (h : Run (AnswerStep client) r tr) :
    (lastState r tr).redirects + (lastState r tr).delivered.length =
      r.redirects + r.delivered.length + tr.length := by
  induction h with
  | nil r => rfl
  | @cons r r' a tr hstep _ ih =>
    obtain ⟨ha, rfl⟩ := hstep.eq
    rw [lastState, ih, List.length_cons]
    rcases Runtime.complete_cases client ha with ⟨-, resp, heq⟩ | ⟨-, next, heq⟩
    · rw [heq, List.length_append, List.length_singleton]
      simp only [Runtime.dequeue]
      omega
    · rw [heq]
      show r.redirects + 1 + r.delivered.length + tr.length = _
      omega

/-- The one session that waits is answered by the server: its answer is delivered, or the next hop
is sent, if the copy is made of the request that the session sent. -/
theorem complete_of_serverAnswers {s : ContextSession} (hsessions : r.context.sessions = [s])
    (ha : a.index < r.context.sessions.length) (h : ServerAnswers server r a) :
    (nextHop client server s.sent = none ∧ followsRedirect client a.report = false ∧
      (r.complete client a).context.sessions = [] ∧ (r.complete client a).redirects = r.redirects ∧
      (r.complete client a).delivered = r.delivered ++ [(s.ticket, answerTo server s.sent)]) ∨
    ∃ q, nextHop client server s.sent = some q ∧ followsRedirect client a.report = true ∧
      (r.ReadsHeld client a →
        (r.complete client a).context.sessions = [⟨q, .redirectLocal r.redirects, s.ticket⟩] ∧
          (r.complete client a).redirects = r.redirects + 1 ∧
          (r.complete client a).delivered = r.delivered) := by
  obtain ⟨hsession, hnone⟩ := Runtime.only_session hsessions ha
  obtain ⟨bytes, hreport⟩ := h s hsession
  have hfollows := followsRedirect_answer client server s.sent bytes
  rw [← hreport] at hfollows
  have hlambda : onReport client true s.sent a.report = _ :=
    (congrArg (onReport client true s.sent) hreport).trans (onSuccess_eq s.sent)
  cases hnext : nextHop client server s.sent with
  | none =>
    rw [hnext] at hfollows hlambda
    refine .inl ⟨rfl, hfollows, ?_⟩
    -- without a redirect the captured request is not looked at
    obtain ⟨effect, hfinished⟩ := onReport_of_delivers true hfollows
    obtain rfl := AfterSession.finished.inj ((hfinished s.sent).symm.trans hlambda)
    rw [Runtime.complete, Runtime.completeWith_of_finished hsession (hfinished _)]
    exact ⟨hnone, rfl, rfl⟩
  | some q =>
    rw [hnext] at hfollows hlambda
    refine .inr ⟨q, rfl, hfollows, fun hreads => ?_⟩
    have hagain : r.lambda client true a s = .executeAgain q := by
      rw [Runtime.lambda, hreads hfollows s hsession, Option.getD_some, hlambda]
    rw [Runtime.complete, Runtime.completeWith_of_executeAgain hsession hagain, hnone]
    exact ⟨rfl, rfl, rfl⟩

/-! ## Runs of one call -/

/-- How many redirects can be followed within the limit from a variable that holds the request:
the variables of later hops are gone. -/
def hopsRead (m : ℕ) (request : BaseRequest) (later : Option BaseRequest) : ℕ :=
  if later = some request then min m 1 else 0

omit [Toolbox] [BoostRegex] [BoostErrors] in
theorem endsWithin_hopsRead_iff {next : BaseRequest → Option BaseRequest} :
    endsWithin next (hopsRead m request later) request = true ↔
      ∀ q, next request = some q → later = some request ∧ 1 ≤ m ∧ next q = none := by
  cases hnext : next request with
  | none =>
    refine iff_of_true ?_ nofun
    rw [endsWithin_iff]
    exact ⟨[request], request, .stop hnext, by simp⟩
  | some q =>
    simp only [Option.some.injEq, forall_eq']
    by_cases hheld : later = some request
    · obtain _ | m := m
      · simp [hopsRead, hheld, endsWithin, hnext]
      · have hmin : min (m + 1) 1 = 1 := by omega
        rw [hopsRead, if_pos hheld, hmin]
        simp [hheld, endsWithin, hnext]
    · simp [hopsRead, hheld, endsWithin, hnext]

/-- On a chain of at most one hop that is read from the caller's variable: the first session
waits, or the one that the hop leads to, or the answer has been delivered. -/
structure LimitInv (client : Client) (server : BaseRequest → BeastResponse) (m : ℕ)
    (request : BaseRequest) (later : Option BaseRequest) (r : Runtime) : Prop where
  call : CallInv request later r
  state : (∃ ticket, r.context.sessions = [⟨request, .argument, ticket⟩] ∧ r.redirects = 0 ∧
      r.delivered = []) ∨
    (∃ q hop ticket, r.context.sessions = [⟨q, .redirectLocal hop, ticket⟩] ∧ r.redirects = 1 ∧
      r.delivered = [] ∧ nextHop client server request = some q) ∨
    (r.context.sessions = [] ∧ r.delivered.length = 1 ∧ r.redirects ≤ m)

omit [BoostErrors] in
theorem limitInv_ofCall : LimitInv client server m request later (.ofCall request later) :=
  ⟨callInv_ofCall, .inl ⟨0, rfl, rfl, rfl⟩⟩

theorem LimitInv.step
    (hend : ∀ q, nextHop client server request = some q →
      later = some request ∧ 1 ≤ m ∧ nextHop client server q = none)
    (h : LimitInv client server m request later r) (ha : a.index < r.context.sessions.length)
    (hanswer : ServerAnswers server r a) :
    LimitInv client server m request later (r.complete client a) := by
  rcases h.state with ⟨ticket, hsessions, hredirects, hdelivered⟩ |
    ⟨q, hop, ticket, hsessions, hredirects, hdelivered, hnext⟩ | ⟨hnone, -⟩
  · rcases complete_of_serverAnswers hsessions ha hanswer with
      ⟨-, hfollows, hempty, hsame, hcalled⟩ | ⟨q, hnext, hfollows, hgoes⟩
    · have hreads := Runtime.readsHeld_of_delivers (r := r) hfollows
      refine ⟨h.call.completeWith true ha hreads, .inr (.inr ⟨hempty, ?_, ?_⟩)⟩
      · rw [hcalled, hdelivered]
        rfl
      · rw [hsame, hredirects]
        exact Nat.zero_le m
    · -- the copy is made of the caller's variable, which holds the request
      have hreads : r.ReadsHeld client a := by
        intro _ session hsession
        rw [hsessions] at hsession
        obtain rfl := List.mem_singleton.mp (List.mem_of_getElem? hsession)
        exact h.call.lookup_argument.trans (hend q hnext).1
      obtain ⟨hwaits, hone, hsame⟩ := hgoes hreads
      exact ⟨h.call.completeWith true ha hreads, .inr (.inl ⟨q, _, _, hwaits,
        by rw [hone, hredirects], by rw [hsame, hdelivered], hnext⟩)⟩
  · obtain ⟨-, hm, hstops⟩ := hend q hnext
    rcases complete_of_serverAnswers hsessions ha hanswer with
      ⟨-, hfollows, hempty, hsame, hcalled⟩ | ⟨q', hnext', -⟩
    · have hreads := Runtime.readsHeld_of_delivers (r := r) hfollows
      refine ⟨h.call.completeWith true ha hreads, .inr (.inr ⟨hempty, ?_, ?_⟩)⟩
      · rw [hcalled, hdelivered]
        rfl
      · rw [hsame, hredirects]
        exact hm
    · rw [hstops] at hnext'
      cases hnext'
  · rw [hnone] at ha
    exact absurd ha (Nat.not_lt_zero _)

omit [BoostErrors] in
theorem LimitInv.requestsSent_le
    (hend : ∀ q, nextHop client server request = some q →
      later = some request ∧ 1 ≤ m ∧ nextHop client server q = none)
    (h : LimitInv client server m request later r) : r.requestsSent ≤ 1 + m := by
  rcases h.state with ⟨ticket, hsessions, hredirects, hdelivered⟩ |
    ⟨q, hop, ticket, hsessions, hredirects, hdelivered, hnext⟩ | ⟨hnone, hdelivered, hredirects⟩
  · rw [Runtime.requestsSent, hsessions, hredirects, hdelivered]
    exact Nat.le_add_right 1 m
  · obtain ⟨-, hm, -⟩ := hend q hnext
    rw [Runtime.requestsSent, hsessions, hredirects, hdelivered]
    exact Nat.add_le_add_left hm 1
  · rw [Runtime.requestsSent, hnone, hdelivered, List.length_nil]
    omega

/-- What is promised fails already in the runs in which the server answers the first one or two
requests. -/
theorem endsWithin_of_keepsLimit (h : KeepsLimit client server m (.ofCall request later)) :
    endsWithin (nextHop client server) (hopsRead m request later) request = true := by
  rw [endsWithin_hopsRead_iff]
  intro q hnext
  let first : Answer := ⟨0, .success (server request) 0, {}⟩
  let second : Answer := ⟨0, .success (server q) 0, {}⟩
  let r₀ : Runtime := .ofCall request later
  let r₁ := r₀.complete client first
  have hstep₁ : AnswerStep client r₀ first r₁ := .answer _ _ Nat.zero_lt_one
  have hanswer₁ : ServerAnswers server r₀ first := by
    intro session hsession
    obtain rfl := Option.some.inj hsession
    exact ⟨0, rfl⟩
  -- the first copy is made of the caller's variable
  have hhold₁ : CopiesHold r₁ := (h.copies [(first, r₁)] (.cons hstep₁ (.nil _))
    ⟨hanswer₁, trivial⟩).last
  have hreads₁ : r₀.ReadsHeld client first :=
    (Runtime.copiesHold_complete_iff callInv_ofCall.copies Nat.zero_lt_one).mp hhold₁
  have hsessions₀ : r₀.context.sessions = [⟨request, .argument, 0⟩] := rfl
  rcases @complete_of_serverAnswers _ _ _ client _ _ _ _ hsessions₀ Nat.zero_lt_one hanswer₁ with
    ⟨hstops, -⟩ | ⟨q₁, hnext₁, hfollows₁, hgoes₁⟩
  · rw [hnext] at hstops
    cases hstops
  obtain rfl := Option.some.inj (hnext.symm.trans hnext₁)
  obtain ⟨hwaits, hredirects, hdelivered⟩ := hgoes₁ hreads₁
  refine ⟨callInv_ofCall.lookup_argument.symm.trans (hreads₁ hfollows₁ _ rfl), ?_, ?_⟩
  · have hsends := h.sends [(first, r₁)] (.cons hstep₁ (.nil _)) ⟨hanswer₁, trivial⟩
    have hsent : r₁.requestsSent = 2 := by
      rw [Runtime.requestsSent, hwaits, hredirects, hdelivered]
      rfl
    rw [lastState, lastState, hsent] at hsends
    omega
  · -- the second copy would be made of the local of the first hop
    have ha : second.index < r₁.context.sessions.length := by
      rw [hwaits]
      exact Nat.zero_lt_one
    have hstep₂ : AnswerStep client r₁ second (r₁.complete client second) := .answer _ _ ha
    have hanswer₂ : ServerAnswers server r₁ second := by
      intro session hsession
      rw [hwaits] at hsession
      obtain rfl := Option.some.inj hsession
      exact ⟨0, rfl⟩
    have hhold₂ := (h.copies _ (.cons hstep₁ (.cons hstep₂ (.nil _)))
      ⟨hanswer₁, hanswer₂, trivial⟩).last
    have hreads₂ := (Runtime.copiesHold_complete_iff hhold₁ ha).mp hhold₂
    rcases @complete_of_serverAnswers _ _ _ client _ _ _ _ hwaits ha hanswer₂ with
      ⟨hstops, -⟩ | ⟨q₂, -, hfollows₂, -⟩
    · exact hstops
    · have hcall := callInv_ofCall.completeWith true Nat.zero_lt_one hreads₁
      have hread := hreads₂ hfollows₂ ⟨q, .redirectLocal r₀.redirects, 0⟩ (by rw [hwaits]; rfl)
      exact absurd (hread.symm.trans (hcall.lookup_redirectLocal _)) (Option.some_ne_none _)

/-- **One call of `execute_in_context` keeps the limit** exactly when the server's chain ends
within it and after at most one hop, none if the caller's variable does not hold the request any
more. -/
theorem keepsLimit_iff :
    KeepsLimit client server m (.ofCall request later) ↔
      endsWithin (nextHop client server) (hopsRead m request later) request = true := by
  refine ⟨endsWithin_of_keepsLimit, fun hends => ?_⟩
  have hend := endsWithin_hopsRead_iff.mp hends
  have hinv {tr : List (Answer × Runtime)}
      (h : Run (AnswerStep client) (.ofCall request later) tr)
      (hanswers : Guarded (ServerAnswers server) (.ofCall request later) tr) :
      Always (LimitInv client server m request later) (.ofCall request later) tr := by
    refine h.always_of_guarded limitInv_ofCall (fun r a r' hinv hanswer hstep => ?_) hanswers
    obtain ⟨ha, rfl⟩ := hstep.eq
    exact hinv.step hend ha hanswer
  have hsends (tr : List (Answer × Runtime))
      (h : Run (AnswerStep client) (.ofCall request later) tr)
      (hanswers : Guarded (ServerAnswers server) (.ofCall request later) tr) :
      (lastState (.ofCall request later) tr).requestsSent ≤ 1 + m :=
    (hinv h hanswers).last.requestsSent_le hend
  refine ⟨hsends, fun tr h hanswers => ?_, fun tr h hanswers => ?_⟩
  · have hlength := length_of_run h
    have hbound := hsends tr h hanswers
    rw [Runtime.requestsSent, hlength] at hbound
    have hnew : (Runtime.ofCall request later).redirects = 0 := rfl
    omega
  · exact (hinv h hanswers).mono fun _ hr => hr.call.copies

/-! ## Both clients -/

end Limit

/-- A server that redirects every request to the same place. -/
def circlingServer (_ : BaseRequest) : BeastResponse :=
  { result := .moved_permanently, fields := [("Location".toList, "http://a/".toList)] }

end Httb
