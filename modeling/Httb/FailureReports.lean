import Httb.Redirects
import Mathlib.Algebra.GroupWithZero.Nat

/-!
# One Failing Transport, Two Clients

`execute_blocking` and an `async_session` (`src/client.cpp`, `src/async_session.cpp`) take the
same steps: resolve, connect, over TLS shake hands, write, read, shut down. When some of them
fail, both tell the caller of the first failing step, but not in the same order. The session
looks at every step when it has ended. The blocking client lets the write, the read and the
shutdown assign to one variable and looks at it when all three are over.

## Layers

- `Outcomes.Answers`: a session whose operations end as the steps of an exchange
- `exchange_eq_firstFailing`, `tells_of_reachable`: each client reports the first failing step
  of its own order
- `completions_le`, `exists_step_of_reports`: the session comes to its report
- `codes_agree_iff`: so they agree exactly when the two orders give one code
-/

namespace Httb

open Httb.Foundation

/-! ## Failures -/

/-- A failing code is no code of a stream that has ended, which the clients make light of, and is
visible in the code of a response. -/
structure ErrorCode.Ordinary (ec : ErrorCode) : Prop where
  isIgnoredError : ec.failed = true → AsyncSession.isIgnoredError ec = false
  isNotConnected : ec.failed = true → ec.isNotConnected = false
  shows : ec.failed = true → ec.Shows

namespace Outcomes

/-- The steps that both clients take first. -/
def opening (ssl : Bool) (o : Outcomes) : List ErrorCode :=
  [o.resolve, o.connect] ++ if ssl then [o.handshake] else []

/-- The steps of a session, in the order in which it looks at them. -/
def sessionOrder (ssl : Bool) (o : Outcomes) : List ErrorCode :=
  o.opening ssl ++ [o.write, o.read, o.shutdown]

/-- The steps that the blocking client looks at. A shutdown that fails hides the read; over TLS
the shutdown always does, and nothing tells of the write. -/
def blockingOrder (ssl : Bool) (o : Outcomes) : List ErrorCode :=
  o.opening ssl ++ if ssl then [o.shutdown] else [o.shutdown, o.read]

/-- The host name can be set, and all failures are ordinary. -/
structure Ordinary (ssl : Bool) (o : Outcomes) : Prop where
  sni : o.sni = none
  codes : ∀ ec ∈ o.sessionOrder ssl, ec.Ordinary

end Outcomes

/-- The first code that is a failure. -/
def firstFailing (codes : List ErrorCode) : Option ErrorCode := codes.find? ErrorCode.failed

theorem firstFailing_cons_of_failed {ec : ErrorCode} (h : ec.failed = true)
    (codes : List ErrorCode) : firstFailing (ec :: codes) = some ec := List.find?_cons_of_pos h

theorem firstFailing_cons_of_not_failed {ec : ErrorCode} (h : ec.failed = false)
    (codes : List ErrorCode) : firstFailing (ec :: codes) = firstFailing codes :=
  List.find?_cons_of_neg (by simp [h])

/-! ## The blocking client -/

section Blocking

variable [Toolbox] [BoostErrors] {ssl : Bool} {o : Outcomes}

/-- What the block leaves in `ec` is what the blocking client tells. -/
theorem afterTry_of_ordinary {l : Locals} (h : l.ec.failed = true → l.ec.isNotConnected = false) :
    afterTry {} l =
      match firstFailing [l.ec] with
      | some ec => .failed (boostErrToRepErr {} ec)
      | none => .answered (responseOfBlocking l.res) := by
  rw [afterTry]
  cases hec : l.ec.failed with
  | true =>
    rw [firstFailing_cons_of_failed hec, h hec]
    rfl
  | false =>
    rw [firstFailing_cons_of_not_failed hec]
    rfl

omit [Toolbox] [BoostErrors] in
/-- A shutdown that does not end the stream is left in `ec` as it is. -/
theorem clearStreamEnd_of_ordinary {l : Locals} (h : l.ec.Ordinary) : clearStreamEnd l = l := by
  have hnot {ec : ErrorCode} (hec : l.ec = ec) (hfailed : ec.failed = true)
      (hignored : AsyncSession.isIgnoredError ec = true) : False := by
    have := h.isIgnoredError (hec ▸ hfailed)
    rw [hec, hignored] at this
    cases this
  have htruncated : l.ec ≠ .streamTruncated := fun hec => hnot hec (by decide) (by decide)
  have heof : l.ec ≠ .eof := fun hec => hnot hec (by decide) (by decide)
  rw [clearStreamEnd, if_neg htruncated, if_neg heof]

/-- What follows the steps, when a step throws that is not made light of. -/
theorem exchange_of_threw {code : ErrorCode} {l : Locals} (hresolve : o.resolve.failed = false)
    (hbranch : (if ssl then sslBranch o {} ⟨o.resolve, {}⟩ else plainBranch o ⟨o.resolve, {}⟩) =
      (.threw code, l)) (hcode : code.isNotConnected = false) :
    exchange ssl o = .failed (boostErrToRepErr {} code) := by
  rw [exchange]
  dsimp only
  rw [if_neg (by simp [hresolve]), hbranch]
  dsimp only
  rw [hcode]
  rfl

/-- And when all are over. -/
theorem exchange_of_completed {l : Locals} (hresolve : o.resolve.failed = false)
    (hbranch : (if ssl then sslBranch o {} ⟨o.resolve, {}⟩ else plainBranch o ⟨o.resolve, {}⟩) =
      (.completed, l)) : exchange ssl o = afterTry {} l := by
  rw [exchange]
  dsimp only
  rw [if_neg (by simp [hresolve]), hbranch]

/-- **The blocking client reports the first failing step of its order.** -/
theorem exchange_eq_firstFailing (h : o.Ordinary ssl) :
    exchange ssl o =
      match firstFailing (o.blockingOrder ssl) with
      | some ec => .failed (boostErrToRepErr {} ec)
      | none => .answered (responseOfBlocking o.message) := by
  have hconnected {ec : ErrorCode} (hec : ec ∈ o.sessionOrder ssl) (hfailed : ec.failed = true) :
      ec.isNotConnected = false := (h.codes ec hec).isNotConnected hfailed
  rw [Outcomes.blockingOrder, Outcomes.opening]
  simp only [List.cons_append, List.nil_append]
  cases hresolve : o.resolve.failed with
  | true =>
    rw [firstFailing_cons_of_failed hresolve, exchange]
    dsimp only
    rw [if_pos hresolve]
  | false =>
    rw [firstFailing_cons_of_not_failed hresolve]
    cases hconnect : o.connect.failed with
    | true =>
      have hthrown := hconnected (by simp [Outcomes.sessionOrder, Outcomes.opening]) hconnect
      rw [firstFailing_cons_of_failed hconnect]
      refine exchange_of_threw (l := ⟨o.resolve, {}⟩) hresolve ?_ hthrown
      cases ssl <;> simp [plainBranch, sslBranch, h.sni, hconnect]
    | false =>
      rw [firstFailing_cons_of_not_failed hconnect]
      cases ssl with
      | false =>
        simp only [Bool.false_eq_true, if_false, List.nil_append]
        cases hshutdown : o.shutdown.failed with
        | true =>
          -- it throws, past the code that the read left
          rw [firstFailing_cons_of_failed hshutdown]
          refine exchange_of_threw (l := ⟨o.read, o.message⟩) hresolve ?_
            (hconnected (by simp [Outcomes.sessionOrder]) hshutdown)
          simp [plainBranch, hconnect, hshutdown]
        | false =>
          rw [firstFailing_cons_of_not_failed hshutdown, exchange_of_completed hresolve
            (l := ⟨o.read, o.message⟩) (by simp [plainBranch, hconnect, hshutdown])]
          exact afterTry_of_ordinary (hconnected (by simp [Outcomes.sessionOrder]))
      | true =>
        simp only [if_true, List.cons_append, List.nil_append]
        cases hhandshake : o.handshake.failed with
        | true =>
          rw [firstFailing_cons_of_failed hhandshake]
          refine exchange_of_threw (l := ⟨o.resolve, {}⟩) hresolve ?_
            (hconnected (by simp [Outcomes.sessionOrder, Outcomes.opening]) hhandshake)
          simp [sslBranch, h.sni, hconnect, hhandshake]
        | false =>
          have hshutdown := h.codes o.shutdown (by simp [Outcomes.sessionOrder])
          have hcleared : clearStreamEnd ⟨o.shutdown, o.message⟩ = ⟨o.shutdown, o.message⟩ :=
            clearStreamEnd_of_ordinary hshutdown
          rw [firstFailing_cons_of_not_failed hhandshake, exchange_of_completed hresolve
            (l := ⟨o.shutdown, o.message⟩)
            (by simp [sslBranch, h.sni, hconnect, hhandshake, hcleared])]
          exact afterTry_of_ordinary (hconnected (by simp [Outcomes.sessionOrder]))

end Blocking

/-! ## The session -/

namespace Outcomes

/-- The code that an operation completes with. -/
def codeOf (o : Outcomes) : Operation → ErrorCode
  | .resolve => o.resolve
  | .connect => o.connect
  | .handshake => o.handshake
  | .write _ => o.write
  | .read _ => o.read
  | .readSome _ => o.read

/-- An operation completes as the step of the exchange ends. A read of some bytes may leave more
to read; the last one leaves the message in the parser. -/
inductive Answers (o : Outcomes) : Operation × Completion → Prop where
  | step {op : Operation} {c : Completion} (hop : op.isRead = false) (hec : c.ec = o.codeOf op) :
      Answers o (op, c)
  | readPart {stream : StreamKind} {c : Completion} (hec : c.ec.failed = false)
      (hdone : c.response.isDone = false) : Answers o (.readSome stream, c)
  | readLast {op : Operation} {c : Completion} (hop : op.isRead = true) (hec : c.ec = o.read)
      (hdone : o.read.failed = false → c.response.isDone = true)
      (hmessage : c.response.message = o.message) (hshutdown : c.shutdown = o.shutdown) :
      Answers o (op, c)

/-- The steps that a session has behind it when it waits for an operation. -/
def behind (ssl : Bool) (o : Outcomes) : Operation → List ErrorCode
  | .resolve => []
  | .connect => [o.resolve]
  | .handshake => [o.resolve, o.connect]
  | .write _ => o.opening ssl
  | .read _ => o.opening ssl ++ [o.write]
  | .readSome _ => o.opening ssl ++ [o.write]

/-- A session can come to wait for the operation: nothing behind it has failed. -/
structure Reaches (ssl : Bool) (o : Outcomes) (op : Operation) : Prop where
  behind : ∀ ec ∈ o.behind ssl op, ec.failed = false
  handshake : op = .handshake → ssl = true

/-- The report is the first failing step of the session's order, or the message. -/
def Tells (ssl : Bool) (o : Outcomes) : SessionReport → Prop
  | .error ec _ => firstFailing (o.sessionOrder ssl) = some ec
  | .success message _ => firstFailing (o.sessionOrder ssl) = none ∧ message = o.message

variable {ssl : Bool} {o : Outcomes} {op : Operation}

theorem behind_of_isRead (hop : op.isRead = true) :
    o.behind ssl op = o.opening ssl ++ [o.write] ∧ o.codeOf op = o.read := by
  cases op with
  | read stream => exact ⟨rfl, rfl⟩
  | readSome stream => exact ⟨rfl, rfl⟩
  | _ => cases hop

theorem Reaches.exists_sessionOrder (h : o.Reaches ssl op) :
    ∃ after, o.sessionOrder ssl = o.behind ssl op ++ o.codeOf op :: after := by
  cases op with
  | resolve => exact ⟨_, rfl⟩
  | connect => exact ⟨_, rfl⟩
  | handshake =>
    obtain rfl := h.handshake rfl
    exact ⟨_, rfl⟩
  | write stream => exact ⟨_, rfl⟩
  | read stream => exact ⟨[o.shutdown], by simp [sessionOrder, Outcomes.behind, codeOf]⟩
  | readSome stream => exact ⟨[o.shutdown], by simp [sessionOrder, Outcomes.behind, codeOf]⟩

end Outcomes

theorem firstFailing_append {codes : List ErrorCode} (h : ∀ ec ∈ codes, ec.failed = false)
    (codes' : List ErrorCode) : firstFailing (codes ++ codes') = firstFailing codes' := by
  have hnone : codes.find? ErrorCode.failed = none :=
    List.find?_eq_none.mpr fun ec hec => by simp [h ec hec]
  rw [firstFailing, List.find?_append, hnone, Option.none_or, firstFailing]

namespace Outcomes.Reaches

variable {ssl : Bool} {o : Outcomes} {op : Operation}

/-- A step that fails when it is reached is what the session tells. -/
theorem tells (h : o.Reaches ssl op) (hfailed : (o.codeOf op).failed = true) (wtf : Str) :
    o.Tells ssl (.error (o.codeOf op) wtf) := by
  obtain ⟨after, horder⟩ := h.exists_sessionOrder
  rw [Tells, horder, firstFailing_append h.behind, firstFailing_cons_of_failed hfailed]

/-- A step is part of the session's order when it is reached. -/
theorem ordinary (h : o.Reaches ssl op) (ho : o.Ordinary ssl) : (o.codeOf op).Ordinary := by
  obtain ⟨after, horder⟩ := h.exists_sessionOrder
  exact ho.codes _ (by simp [horder])

/-- The step after one that does not fail. -/
theorem next {op' : Operation} (h : o.Reaches ssl op) (hfailed : (o.codeOf op).failed = false)
    (hbehind : o.behind ssl op' = o.behind ssl op ++ [o.codeOf op])
    (hssl : op' = .handshake → ssl = true) : o.Reaches ssl op' := by
  refine ⟨fun ec hec => ?_, hssl⟩
  rw [hbehind, List.mem_append, List.mem_singleton] at hec
  rcases hec with hec | rfl
  · exact h.behind ec hec
  · exact hfailed

end Outcomes.Reaches

namespace AsyncSession

/-- Where a session stands whose operations complete as the steps of an exchange end. -/
structure Follows (request : BaseRequest) (o : Outcomes) (s : AsyncSession) : Prop where
  requestRaw : s.requestRaw = request
  pending : ∀ op ∈ s.pending, o.Reaches request.ssl op
  reports : ∀ r ∈ s.reports, o.Tells request.ssl r

namespace Follows

variable {request : BaseRequest} {o : Outcomes} {s : AsyncSession}

/-! ### What a handler does -/

theorem start (h : Follows request o s) {op : Operation} (hop : o.Reaches request.ssl op) :
    Follows request o (s.start op) where
  requestRaw := h.requestRaw
  pending op' hop' := by
    rcases List.mem_append.mp hop' with hop' | hop'
    · exact h.pending op' hop'
    · rwa [List.mem_singleton.mp hop']
  reports := by
    rw [reports_of_log (s := s) rfl]
    simpa [SessionEvent.asReport] using h.reports

theorem dequeue (h : Follows request o s) (op : Operation) (ec : ErrorCode) :
    Follows request o (s.dequeue op ec) where
  requestRaw := h.requestRaw
  pending op' hop' := h.pending op' (List.mem_of_mem_erase hop')
  reports := by
    rw [reports_of_log (s := s) rfl]
    simpa [SessionEvent.asReport] using h.reports

theorem report (h : Follows request o s) {r : SessionReport} (hr : o.Tells request.ssl r) :
    Follows request o { s with log := s.log ++ [.reported r] } where
  requestRaw := h.requestRaw
  pending := h.pending
  reports r' hr' := by
    rw [reports_of_log (s := s) rfl] at hr'
    rcases List.mem_append.mp hr' with hr' | hr'
    · exact h.reports r' hr'
    · obtain rfl : r' = r := by simpa [SessionEvent.asReport] using hr'
      exact hr

theorem fail (h : Follows request o s) {ec : ErrorCode} {where_ : Str}
    (hr : o.Tells request.ssl (.error ec where_)) : Follows request o (s.fail ec where_) := by
  rw [AsyncSession.fail]
  split
  · exact h.report hr
  · exact h

theorem told (h : Follows request o s) {es : List SessionEvent}
    (hes : ∀ e ∈ es, e.isProgress = true) :
    Follows request o { s with log := s.log ++ es } where
  requestRaw := h.requestRaw
  pending := h.pending
  reports := by
    rw [reports_of_log (s := s) rfl, reports_of_progress hes, List.append_nil]
    exact h.reports

/-- A handler that fails on a failing code, and else goes on. -/
theorem stage (h : Follows request o s) {op : Operation} (hop : o.Reaches request.ssl op)
    (ho : o.Ordinary request.ssl) (where_ : Str) {next : AsyncSession}
    (hnext : (o.codeOf op).failed = false → Follows request o next) :
    Follows request o (if (o.codeOf op).failed && !isIgnoredError (o.codeOf op) then
      s.fail (o.codeOf op) where_ else next) := by
  cases hfailed : (o.codeOf op).failed with
  | true =>
    rw [(hop.ordinary ho).isIgnoredError hfailed]
    exact h.fail (hop.tells hfailed where_)
  | false => exact hnext hfailed

theorem readResponse (h : Follows request o s)
    (hop : ∀ op : Operation, op.isRead = true → o.Reaches request.ssl op) :
    Follows request o s.readResponse := by
  obtain ⟨op, hread, heq⟩ := exists_start_readResponse s
  rw [heq]
  exact h.start (hop op hread)

/-- The handler of the last read: an ordinary shutdown is told like any step before it. -/
theorem onRead (h : Follows request o s) {op : Operation} (hop : o.Reaches request.ssl op)
    (hread : op.isRead = true) (ho : o.Ordinary request.ssl)
    (hdone : o.read.failed = false → s.response.isDone = true)
    (hmessage : s.response.message = o.message) (n : ℕ) :
    Follows request o (s.onRead o.read n o.shutdown) := by
  obtain ⟨hbehind, hcode⟩ : o.behind request.ssl op = _ ∧ o.codeOf op = _ :=
    Outcomes.behind_of_isRead hread
  have hstage (next : AsyncSession) := @stage request o s h op hop ho "read".toList next
  rw [hcode] at hstage
  rw [AsyncSession.onRead]
  refine hstage _ fun hfine => ?_
  -- all steps but the shutdown are behind
  have hfirst : firstFailing (o.sessionOrder request.ssl) = firstFailing [o.shutdown] := by
    have hall : ∀ ec ∈ o.opening request.ssl ++ [o.write], ec.failed = false := by
      rw [← hbehind]
      exact hop.behind
    have horder : o.sessionOrder request.ssl =
        (o.opening request.ssl ++ [o.write]) ++ [o.read, o.shutdown] := by
      simp [Outcomes.sessionOrder]
    rw [horder, firstFailing_append hall, firstFailing_cons_of_not_failed hfine]
  have hshutdown := ho.codes o.shutdown (by simp [Outcomes.sessionOrder])
  rw [if_pos (hdone hfine)]
  dsimp only
  cases hfailed : o.shutdown.failed with
  | true =>
    rw [hshutdown.isIgnoredError hfailed, hshutdown.isNotConnected hfailed]
    refine h.fail ?_
    rw [Outcomes.Tells, hfirst, firstFailing_cons_of_failed hfailed]
  | false =>
    obtain ⟨told, htold, heq⟩ := (exists_told s).1
    have hsuccess : o.Tells request.ssl (.success s.response.message n) := by
      rw [Outcomes.Tells, hfirst, firstFailing_cons_of_not_failed hfailed]
      exact ⟨rfl, hmessage⟩
    rw [heq]
    simp only [Bool.false_and, Bool.false_eq_true, if_false]
    split
    · exact (h.told htold).report hsuccess
    · exact h.told htold

/-- A read that leaves more to read. -/
theorem onRead_part (h : Follows request o s) {op : Operation} (hop : o.Reaches request.ssl op)
    (hread : op.isRead = true) {ec : ErrorCode} (hfailed : ec.failed = false)
    (hdone : s.response.isDone = false) (n : ℕ) (shutdown : ErrorCode) :
    Follows request o (s.onRead ec n shutdown) := by
  obtain ⟨told, htold, heq⟩ := (exists_told s).2
  rw [AsyncSession.onRead, hfailed, hdone, heq]
  refine (h.told htold).readResponse fun op' hread' => ⟨?_, ?_⟩
  · rw [(Outcomes.behind_of_isRead hread').1, ← (Outcomes.behind_of_isRead hread).1]
    exact hop.behind
  · rintro rfl
    cases hread'

/-- **Whatever completes, the session follows the steps of the exchange.** -/
theorem step {s' : AsyncSession} {x : Operation × Completion} (h : Follows request o s)
    (ho : o.Ordinary request.ssl) (hx : o.Answers x) (hstep : Step s x s') :
    Follows request o s' := by
  obtain ⟨op, c, hmem⟩ := hstep
  have hop := h.pending op hmem
  have hs := h.dequeue op c.ec
  have hnext {op' : Operation} := @Outcomes.Reaches.next request.ssl o op op' hop
  have hresponse (response : ResponseParser) :
      Follows request o { s.dequeue op c.ec with response } := ⟨hs.1, hs.2, hs.3⟩
  cases hx with
  | step hnot hec =>
    have hstage := fun w next => @stage request o _ hs op hop ho w next
    rw [← hec] at hstage hnext
    cases op with
    | resolve =>
      refine hstage _ _ fun hfine => hs.start (hnext hfine ?_ fun h => by cases h)
      rw [hec]
      rfl
    | connect =>
      refine hstage _ _ fun hfine => ?_
      -- the fork between TLS and plain decides which operation is next
      rw [hs.requestRaw]
      cases hssl : request.ssl with
      | true =>
        refine hs.start (hnext hfine ?_ fun _ => hssl)
        rw [hec]
        rfl
      | false =>
        refine hs.start (hnext hfine ?_ fun h => by cases h)
        rw [hssl, hec]
        rfl
    | handshake =>
      refine hstage _ _ fun hfine => hs.start (hnext hfine ?_ fun h => by cases h)
      rw [hop.handshake rfl, hec]
      rfl
    | write stream =>
      refine hstage _ _ fun hfine => hs.readResponse fun op' hread' => ?_
      refine hnext hfine ?_ fun h => ?_
      · rw [(Outcomes.behind_of_isRead hread').1, hec]
        rfl
      · subst h
        cases hread'
    | read stream => cases hnot
    | readSome stream => cases hnot
  | readPart hec hdone => exact (hresponse c.response).onRead_part hop rfl hec hdone _ _
  | readLast hread hec hdone hmessage hshutdown =>
    have hlast := (hresponse c.response).onRead hop hread ho hdone hmessage c.bytesTransferred
    rw [← hec, ← hshutdown] at hlast
    cases op with
    | read stream => exact hlast
    | readSome stream => exact hlast
    | _ => cases hread

end Follows

/-- A step in which the operation ends as the step of the exchange. -/
def AnsweredStep (o : Outcomes) (s : AsyncSession) (x : Operation × Completion)
    (s' : AsyncSession) : Prop := Step s x s' ∧ o.Answers x

variable {request : BaseRequest} {progress : Bool} {o : Outcomes} {s : AsyncSession}

theorem follows_started (request : BaseRequest) (progress : Bool) (o : Outcomes) :
    Follows request o (started request progress) where
  requestRaw := rfl
  pending op hop := by
    obtain rfl : op = .resolve := List.mem_singleton.mp hop
    exact ⟨fun ec hec => (List.not_mem_nil hec).elim, nofun⟩
  reports r hr := by cases hr

/-- **The session reports the first failing step of its order.** -/
theorem tells_of_reachable (ho : o.Ordinary request.ssl)
    (h : Reachable (AnsweredStep o) (started request progress) s) {r : SessionReport}
    (hr : r ∈ s.reports) : o.Tells request.ssl r :=
  (h.invariant (P := Follows request o) (follows_started request progress o)
    fun _ _ _ hs hstep => hs.step ho hstep.2 hstep.1).reports r hr

/-! ### It does report -/

/-- The completion in which a read leaves nothing to read. -/
def completionOf (o : Outcomes) (op : Operation) : Completion where
  ec := o.codeOf op
  response := { isDone := true, message := o.message }
  shutdown := o.shutdown

theorem answers_completionOf (o : Outcomes) (op : Operation) :
    o.Answers (op, completionOf o op) := by
  cases hread : op.isRead with
  | true =>
    obtain ⟨-, hcode⟩ : o.behind true op = _ ∧ o.codeOf op = _ := Outcomes.behind_of_isRead hread
    exact .readLast hread hcode (fun _ => rfl) rfl rfl
  | false => exact .step hread rfl

/-- How many operations can still follow. -/
def stepsLeft : Operation → ℕ
  | .resolve => 4
  | .connect => 3
  | .handshake => 2
  | .write _ => 1
  | .read _ => 0
  | .readSome _ => 0

/-- A handler that starts an operation has not failed. -/
theorem eq_of_pending_stage (h : s.pending = []) {b : Bool} {ec : ErrorCode} {where_ : Str}
    {op op' : Operation}
    (hpending : (if b then s.fail ec where_ else s.start op).pending = [op']) : op' = op := by
  split at hpending
  · rw [fail] at hpending
    split at hpending <;> simp [h] at hpending
  · simpa [AsyncSession.start, h, eq_comm] using hpending

/-- After the last read nothing is started. -/
theorem pending_onRead_of_done (herror : s.errorFunc = true) (hsuccess : s.successFunc = true)
    (hdone : s.response.isDone = true) (ec : ErrorCode) (n : ℕ) (shutdown : ErrorCode) :
    (s.onRead ec n shutdown).pending = s.pending := by
  obtain ⟨told, r, _, hh⟩ := handled_onRead_of_done herror hsuccess hdone ec n shutdown
  rw [hh.pending, Ending.pending, List.append_nil]

/-- A read that leaves more to read is followed by a read. -/
theorem isRead_of_pending_onRead (herror : s.errorFunc = true) (hsuccess : s.successFunc = true)
    (hempty : s.pending = []) {ec : ErrorCode} {n : ℕ} {shutdown : ErrorCode} {op : Operation}
    (hpending : (s.onRead ec n shutdown).pending = [op]) :
    op.isRead = true ∧ (ec.failed && !isIgnoredError ec) = false ∧ s.response.isDone = false := by
  -- with the response complete, or after a failure, nothing is pending
  cases hdone : s.response.isDone with
  | true =>
    cases ((pending_onRead_of_done herror hsuccess hdone ec n shutdown).trans hempty).symm.trans
      hpending
  | false =>
    cases hec : ec.failed && !isIgnoredError ec with
    | true =>
      rw [onRead, if_pos hec, (handled_fail herror ec _).pending, hempty] at hpending
      cases hpending
    | false =>
      obtain ⟨told, op', hread, hh⟩ := handled_onRead_of_not_done hec hdone n shutdown
      rw [hh.pending, hempty] at hpending
      cases hpending
      exact ⟨hread, rfl, rfl⟩

/-- The operation is a read that does not fail and leaves the parser waiting. -/
def leavesMore (op : Operation) (c : Completion) : Bool :=
  op.isRead && !(c.ec.failed && !isIgnoredError c.ec) && !c.response.isDone

theorem stepsLeft_of_isRead {op : Operation} (h : op.isRead = true) : stepsLeft op = 0 := by
  cases op with
  | read stream => rfl
  | readSome stream => rfl
  | _ => cases h

/-- A completion leads to a report or brings the session closer to it, if it is not a read that
leaves more to read. -/
theorem Phase.reports_or_goes_on (h : Phase s) {op : Operation} (hop : s.pending = [op])
    (c : Completion) :
    (s.complete op c).reports ≠ [] ∨
      ∃ op', (s.complete op c).pending = [op'] ∧
        (stepsLeft op' < stepsLeft op ∨
          (leavesMore op c = true ∧ stepsLeft op' = stepsLeft op)) := by
  have hmem : op ∈ s.pending := by simp [hop]
  have hempty : (s.dequeue op c.ec).pending = [] := by simp [dequeue, hop]
  have hphase := h.step (Step.complete s op c hmem)
  rcases hphase.stands with ⟨op', hpending, -⟩ | ⟨_, r, _, _, hreports, _⟩
  · refine .inr ⟨op', hpending, ?_⟩
    have hread (hop : op.isRead = true) (hpending :
        ({ s.dequeue op c.ec with response := c.response }.onRead c.ec c.bytesTransferred
          c.shutdown).pending = [op']) :
        leavesMore op c = true ∧ stepsLeft op' = stepsLeft op := by
      obtain ⟨hread', hec, hdone⟩ := isRead_of_pending_onRead
        (s := { s.dequeue op c.ec with response := c.response }) h.errorFunc h.successFunc hempty
        hpending
      refine ⟨?_, (stepsLeft_of_isRead hread').trans (stepsLeft_of_isRead hop).symm⟩
      rw [leavesMore, hop, hec, hdone]
      rfl
    -- which operation a handler starts
    cases op with
    | resolve =>
      obtain rfl := eq_of_pending_stage hempty hpending
      exact .inl (by decide)
    | connect =>
      rw [complete, handle, onConnect] at hpending
      cases hssl : (s.dequeue .connect c.ec).requestRaw.ssl with
      | true =>
        rw [hssl] at hpending
        obtain rfl := eq_of_pending_stage hempty hpending
        exact .inl (by decide)
      | false =>
        rw [hssl] at hpending
        obtain rfl := eq_of_pending_stage hempty hpending
        exact .inl (by decide)
    | handshake =>
      obtain rfl := eq_of_pending_stage hempty hpending
      exact .inl (by decide)
    | write stream =>
      rw [complete, handle, onWrite] at hpending
      obtain ⟨op, hread, heq⟩ := exists_start_readResponse (s.dequeue (.write stream) c.ec)
      rw [heq] at hpending
      obtain rfl := eq_of_pending_stage hempty hpending
      rw [stepsLeft_of_isRead hread]
      exact .inl Nat.one_pos
    | read stream => exact .inr (hread rfl hpending)
    | readSome stream => exact .inr (hread rfl hpending)
  · exact .inl (by simp [hreports])

/-- How many completions can still follow, reads that leave more to read apart. -/
def completionsLeft (s : AsyncSession) : ℕ := (s.pending.map fun op => stepsLeft op + 1).sum

/-- The completions of a run, reads that leave more to read apart. -/
def completions (tr : List ((Operation × Completion) × AsyncSession)) : ℕ :=
  tr.countP fun x => !leavesMore x.1.1 x.1.2

/-- A completion takes one off what is left, if it is not such a read. -/
theorem Phase.completionsLeft_complete (h : Phase s) {op : Operation} (hop : op ∈ s.pending)
    (c : Completion) :
    (s.complete op c).completionsLeft + (if leavesMore op c then 0 else 1) ≤
      s.completionsLeft := by
  have hpending := (h.waiting hop).1
  have hleft : s.completionsLeft = stepsLeft op + 1 := by
    rw [completionsLeft, hpending]
    rfl
  have hone : (if leavesMore op c then 0 else 1) ≤ 1 := by split <;> omega
  rw [hleft]
  rcases h.reports_or_goes_on hpending c with hreports | ⟨op', hpending', hcloser⟩
  · -- after the report nothing is pending
    have hphase := h.step (Step.complete s op c hop)
    have hempty : (s.complete op c).pending = [] := by
      rcases hphase.stands with ⟨_, -, hnone⟩ | ⟨_, _, hempty, -⟩
      · exact absurd hnone hreports
      · exact hempty
    rw [completionsLeft, hempty, List.map_nil, List.sum_nil]
    omega
  · rw [completionsLeft, hpending', List.map_singleton, List.sum_singleton]
    rcases hcloser with hless | ⟨hmore, hsame⟩
    · omega
    · rw [if_pos hmore, hsame]

/-- So what is left bounds the completions of a run. -/
theorem completions_le {tr : List ((Operation × Completion) × AsyncSession)}
    (h : Run (AnsweredStep o) s tr) (hphase : Phase s) : completions tr ≤ s.completionsLeft := by
  induction h with
  | nil s => exact Nat.zero_le _
  | @cons s s' x tr hstep _ ih =>
    have hlater := ih (hphase.step hstep.1)
    obtain ⟨op, c, hop⟩ := hstep.1
    have hstep := hphase.completionsLeft_complete hop c
    rw [completions, List.countP_cons, ← completions]
    cases hmore : leavesMore op c with
    | true =>
      simp only [hmore, if_true] at hstep
      simp only [Bool.not_true, Bool.false_eq_true, if_false]
      omega
    | false =>
      simp only [hmore, Bool.false_eq_true, if_false] at hstep
      simp only [Bool.not_false, if_true]
      omega

/-- A session that has not reported can go on. -/
theorem exists_step_of_reports (h : Phase s) (hreports : s.reports = []) :
    ∃ x s', AnsweredStep o s x s' := by
  rcases h.stands with ⟨op, hpending, -⟩ | ⟨_, r, -, -, hone, -⟩
  · exact ⟨(op, completionOf o op), _, .complete s op _ (by simp [hpending]),
      answers_completionOf o op⟩
  · rw [hreports] at hone
    cases hone

/-- A completion in which a read leaves nothing to read does bring the session closer. -/
theorem Phase.reports_or_closer (h : Phase s) {op : Operation} (hop : s.pending = [op]) :
    (s.complete op (completionOf o op)).reports ≠ [] ∨
      ∃ op', (s.complete op (completionOf o op)).pending = [op'] ∧
        stepsLeft op' < stepsLeft op := by
  rcases h.reports_or_goes_on hop (completionOf o op) with hreports | ⟨op', hop', hcloser | hmore⟩
  · exact .inl hreports
  · exact .inr ⟨op', hop', hcloser⟩
  · simp [leavesMore, completionOf] at hmore

/-- **A session over an answering transport can always report.** -/
theorem exists_reports (request : BaseRequest) (progress : Bool) (o : Outcomes) :
    ∃ s, Reachable (AnsweredStep o) (started request progress) s ∧ s.reports ≠ [] := by
  -- by induction on how many operations can still follow
  have hfrom (n : ℕ) : ∀ (s : AsyncSession) (op : Operation),
      Reachable (AnsweredStep o) (started request progress) s → Phase s → s.pending = [op] →
        stepsLeft op = n →
        ∃ s', Reachable (AnsweredStep o) (started request progress) s' ∧ s'.reports ≠ [] := by
    induction n using Nat.strong_induction_on with
    | _ n ih =>
      intro s op hreach hphase hop hn
      have hstep : AnsweredStep o s (op, completionOf o op) (s.complete op (completionOf o op)) :=
        ⟨.complete s op _ (by simp [hop]), answers_completionOf o op⟩
      have hreach' := hreach.tail ⟨_, hstep⟩
      rcases hphase.reports_or_closer (o := o) hop with hreports | ⟨op', hop', hlt⟩
      · exact ⟨_, hreach', hreports⟩
      · exact ih _ (hn ▸ hlt) _ op' hreach' (hphase.step hstep.1) hop' rfl
  exact hfrom _ _ .resolve .refl (phase_started request progress) rfl rfl

end AsyncSession

/-! ## What the callers are told -/

section Agreement

variable [Toolbox] [BoostErrors]

/-- The response that the caller gets for a report. -/
def SessionReport.response : SessionReport → Response
  | .error ec wtf =>
    let res := boostErrToRepErr {} ec
    res.setBody (res.getBody ++ ("::".toList ++ wtf))
  | .success message _ => responseOfAsync message

/-- The code that a response has for a first failing step, or for the message. -/
def codeFor (message : BeastResponse) : Option ErrorCode → Int32
  | some ec => Response.INTERNAL_ERROR_OFFSET + ec.value
  | none => message.result.toInt32

omit [Toolbox] [BoostErrors] in
/-- Different numbers show as different codes. -/
theorem codeFor_eq_iff {message : BeastResponse} {first first' : Option ErrorCode}
    (h : ∀ ec ∈ first, ec.Shows) (h' : ∀ ec ∈ first', ec.Shows) :
    codeFor message first = codeFor message first' ↔
      first.map ErrorCode.value = first'.map ErrorCode.value := by
  -- a status is below the offset, a failure that shows is at it or above
  have hmessage : message.result.toInt32 < Response.INTERNAL_ERROR_OFFSET :=
    message.result.toInt32_range.2
  have hne {ec : ErrorCode} (hec : ec.Shows) :
      Response.INTERNAL_ERROR_OFFSET + ec.value ≠ message.result.toInt32 := by
    intro heq
    have hle := (offset_le_iff ec.value).mpr hec
    rw [heq] at hle
    exact Int32.not_le.mpr hmessage hle
  cases first with
  | none =>
    cases first' with
    | none => simp
    | some ec => simpa [codeFor] using (hne (h' ec rfl)).symm
  | some ec =>
    cases first' with
    | none => simpa [codeFor] using hne (h ec rfl)
    | some ec' => simp [codeFor, Int32.add_right_inj]

omit [Toolbox] [BoostErrors] in
theorem mem_of_firstFailing {codes : List ErrorCode} {ec : ErrorCode}
    (h : firstFailing codes = some ec) : ec ∈ codes ∧ ec.failed = true :=
  ⟨List.mem_of_find?_eq_some h, List.find?_some h⟩

theorem code_response {ssl : Bool} {o : Outcomes} {r : SessionReport} (h : o.Tells ssl r) :
    r.response.code = codeFor o.message (firstFailing (o.sessionOrder ssl)) := by
  cases r with
  | error ec wtf =>
    have hfirst : firstFailing (o.sessionOrder ssl) = some ec := h
    rw [hfirst]
    rfl
  | success message n =>
    obtain ⟨hnone, rfl⟩ := h
    rw [hnone, SessionReport.response, responseOfAsync_eq, code_responseOfBlocking]
    rfl

theorem code_exchange {ssl : Bool} {o : Outcomes} (h : o.Ordinary ssl) :
    (exchange ssl o).resp.code = codeFor o.message (firstFailing (o.blockingOrder ssl)) := by
  rw [exchange_eq_firstFailing h]
  cases firstFailing (o.blockingOrder ssl) with
  | some ec => rfl
  | none => exact code_responseOfBlocking o.message

omit [Toolbox] [BoostErrors] in
theorem Outcomes.Ordinary.shows {ssl : Bool} {o : Outcomes} (h : o.Ordinary ssl)
    {codes : List ErrorCode} (hcodes : ∀ ec ∈ codes, ec ∈ o.sessionOrder ssl) :
    ∀ ec ∈ firstFailing codes, ec.Shows := by
  intro ec hec
  obtain ⟨hmem, hfailed⟩ := mem_of_firstFailing hec
  exact (h.codes ec (hcodes ec hmem)).shows hfailed

omit [Toolbox] [BoostErrors] in
/-- What the blocking client looks at, the session does. -/
theorem mem_sessionOrder_of_blockingOrder {ssl : Bool} {o : Outcomes} {ec : ErrorCode}
    (h : ec ∈ o.blockingOrder ssl) : ec ∈ o.sessionOrder ssl := by
  rcases List.mem_append.mp h with h | h
  · exact List.mem_append_left _ h
  · refine List.mem_append_right _ ?_
    cases ssl with
    | true => simp_all
    | false =>
      rcases List.mem_pair.mp h with rfl | rfl
      · simp
      · simp

omit [Toolbox] [BoostErrors] in
theorem firstFailing_append_of_failed {codes : List ErrorCode}
    (h : ∃ ec ∈ codes, ec.failed = true) (codes' : List ErrorCode) :
    firstFailing (codes ++ codes') = firstFailing codes := by
  obtain ⟨ec, hec⟩ := Option.isSome_iff_exists.mp (List.find?_isSome.mpr h)
  rw [firstFailing, firstFailing, List.find?_append, hec, Option.some_or]

/-- **When the two clients tell the same.** The host name can be set, and no failing code is one
that the clients make light of or that does not show. A session over such a transport comes to a
report: it takes at most five completions, reads that leave more to read apart, and until it has
reported it can go on. The code that the caller is given is the one that the blocking client
returns over the same transport, exactly if one of the steps that both take first has failed, or
the first failing one of write, read and shutdown has the number of the one that the blocking
client looks at first. -/
theorem codes_agree_iff {request : BaseRequest} {progress : Bool} {o : Outcomes}
    (ho : o.Ordinary request.ssl) :
    (∀ tr, Run (AsyncSession.AnsweredStep o) (AsyncSession.started request progress) tr →
      AsyncSession.completions tr ≤ 5 ∧
        ((lastState (AsyncSession.started request progress) tr).reports = [] →
          ∃ x s', AsyncSession.AnsweredStep o
            (lastState (AsyncSession.started request progress) tr) x s')) ∧
    ∀ s, Reachable (AsyncSession.AnsweredStep o) (AsyncSession.started request progress) s →
      ∀ r ∈ s.reports, (r.response.code = (exchange request.ssl o).resp.code ↔
        (∃ ec ∈ o.opening request.ssl, ec.failed = true) ∨
        (firstFailing [o.write, o.read, o.shutdown]).map ErrorCode.value =
          (firstFailing (if request.ssl then [o.shutdown] else [o.shutdown, o.read])).map
            ErrorCode.value) := by
  have hphase := AsyncSession.phase_started request progress
  refine ⟨fun tr hrun => ⟨AsyncSession.completions_le hrun hphase, fun hreports => ?_⟩,
    fun s hreach r hr => ?_⟩
  · have hlast : AsyncSession.Phase (lastState (AsyncSession.started request progress) tr) :=
      (hrun.always hphase fun _ _ _ hs hstep => hs.step hstep.1).last
    exact AsyncSession.exists_step_of_reports hlast hreports
  have htells := AsyncSession.tells_of_reachable ho hreach hr
  rw [code_response htells, code_exchange ho,
    codeFor_eq_iff (ho.shows fun _ hec => hec)
      (ho.shows fun _ hec => mem_sessionOrder_of_blockingOrder hec),
    Outcomes.sessionOrder, Outcomes.blockingOrder]
  -- a failing opening step is the first of both orders
  by_cases hopening : ∃ ec ∈ o.opening request.ssl, ec.failed = true
  · rw [firstFailing_append_of_failed hopening, firstFailing_append_of_failed hopening]
    exact iff_of_true rfl (.inl hopening)
  · have hfine : ∀ ec ∈ o.opening request.ssl, ec.failed = false := by simpa using hopening
    rw [firstFailing_append hfine, firstFailing_append hfine]
    exact (or_iff_right hopening).symm

end Agreement

/-- Over TLS a read that times out is told by the session alone. -/
theorem codes_differ_read_timeout :
    letI := Toolbox.reference
    letI := BoostErrors.silent
    let o : Outcomes := { read := ⟨110, .system⟩ }
    ∀ s, Reachable (AsyncSession.AnsweredStep o) (AsyncSession.started { ssl := true } false) s →
      ∀ r ∈ s.reports, r.response.code ≠ (exchange true o).resp.code := by
  let := Toolbox.reference
  let := BoostErrors.silent
  intro o s hreach r hr
  have ho : o.Ordinary true := by
    refine ⟨rfl, fun ec hec => ?_⟩
    obtain rfl | rfl : ec = ⟨110, .system⟩ ∨ ec = {} := by
      simp [o, Outcomes.sessionOrder, Outcomes.opening] at hec
      tauto
    · exact ⟨fun _ => by decide, fun _ => by decide, fun _ => ⟨by decide, by decide⟩⟩
    · exact ⟨nofun, nofun, nofun⟩
  have hiff := (@codes_agree_iff _ _ { ssl := true } false o ho).2 s hreach r hr
  refine mt hiff.mp ?_
  decide

end Httb
