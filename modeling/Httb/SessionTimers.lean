import Httb.TimedSession
import Mathlib.Data.List.Chain

/-!
# The Schedule of a Session

What the runs of a `TimedSession` have in common. From how a handler ends follows what a
completion leads to (`Stands.complete`), and from that the order of the operations, their
deadlines, and how long a session can take.

## Key Results

- `reachable_onSchedule`: a session never follows a null pointer, behaves as the one without a
  timer, and starts its operations in one order, under one schedule
- `withinTimeouts_of_endsInTime`: connecting and reading take no longer than their timeouts,
  however many reads there are
-/

namespace Httb

open Httb.Foundation

namespace TimedSession

variable {t t' : TimedSession} {d : Option ℕ}

/-! ## One step -/

/-- Where a session stands that was run: `last` is the last operation it started. -/
structure Stands (k : Settings) (last : StartedOperation) (t : TimedSession) : Prop where
  settings : t.settings = k
  phase : AsyncSession.Phase t.session
  allocated : Allocated last.deadline t
  uses : k.Uses last.op
  time : last.time ≤ t.now
  pending : ∀ op ∈ t.session.pending, op = last.op
  started : t.session.log.filterMap SessionEvent.asStarted = t.history.map StartedOperation.op
  passes : t.session.pending ≠ [] → ∀ op ec, SessionEvent.completed op ec ∈ t.session.log →
    Passes ec

theorem Settings.uses_next {k : Settings} {op : Operation} (h : k.Uses op) :
    k.Uses (k.next op) := by
  have hread : k.Uses k.read := by
    unfold Settings.read
    split
    · exact rfl
    · exact rfl
  cases op with
  | resolve => trivial
  | connect =>
    cases hssl : k.ssl with
    | true => simp [Settings.next, Settings.Uses, hssl]
    | false => simp [Settings.next, Settings.Uses, Settings.stream, hssl]
  | handshake => exact (if_pos h).symm
  | _ => exact hread

/-- The operation that follows `last` when it starts at `now`. -/
def Settings.after (k : Settings) (last : StartedOperation) (now : ℕ) : StartedOperation :=
  ⟨k.next last.op, now, k.nextDeadline now last.deadline last.op⟩

/-- A completion adds to the operations that were started what the handler starts. -/
theorem started_complete {s : AsyncSession} {op : Operation} {c : Completion}
    {told : List SessionEvent} {ending : AsyncSession.Ending}
    (hh : AsyncSession.Handled (s.dequeue op c.ec) (s.complete op c) told ending) :
    (s.complete op c).log.filterMap SessionEvent.asStarted =
      s.log.filterMap SessionEvent.asStarted ++ ending.pending := by
  -- progress starts nothing
  have htold : told.filterMap SessionEvent.asStarted = [] := by
    rw [List.filterMap_eq_nil_iff]
    intro e he
    have hprogress := hh.told_isProgress e he
    cases e with
    | progressed loaded total progress => rfl
    | _ => cases hprogress
  rw [hh.log, AsyncSession.dequeue, List.filterMap_append, List.filterMap_append,
    List.filterMap_append, htold]
  cases ending <;> simp [SessionEvent.asStarted, AsyncSession.Ending.event,
    AsyncSession.Ending.pending]

/-- It completes nothing else. -/
theorem completed_mem_complete {s : AsyncSession} {op op' : Operation} {c : Completion}
    {ec : ErrorCode} {told : List SessionEvent} {ending : AsyncSession.Ending}
    (hh : AsyncSession.Handled (s.dequeue op c.ec) (s.complete op c) told ending)
    (h : SessionEvent.completed op' ec ∈ (s.complete op c).log) :
    SessionEvent.completed op' ec ∈ s.log ∨ op' = op ∧ ec = c.ec := by
  rw [hh.log, AsyncSession.dequeue, List.mem_append, List.mem_append, List.mem_append,
    List.mem_singleton, List.mem_singleton] at h
  rcases h with (h | h) | h | h
  · exact .inl h
  · cases h
    exact .inr ⟨rfl, rfl⟩
  · cases hh.told_isProgress _ h
  · cases ending <;> cases h

/-- **What a completion leads to.** It is never undefined; the session does what the one without
a timer does; and either it is over, or the next operation has started. -/
theorem Stands.complete {k : Settings} {last : StartedOperation} (h : Stands k last t)
    {op : Operation} (hop : op ∈ t.session.pending) (c : Completion) {now : ℕ}
    (hnow : t.now ≤ now) :
    ∃ t', t.complete op c now = some t' ∧ t'.session = t.session.complete op c ∧ t'.now = now ∧
      (Stands k last t' ∧ t'.history = t.history ∧ t'.session.pending = [] ∨
        Stands k (k.after last now) t' ∧ t'.history = t.history ++ [k.after last now]) := by
  obtain rfl := h.pending op hop
  have hsettings := h.settings
  -- the session when the handler is called
  have hcalled : Allocated last.deadline
      ({ t with now }.onSession fun s => s.dequeue last.op c.ec) :=
    ⟨h.allocated.ssl, h.allocated.raw⟩
  have hnone : (t.session.dequeue last.op c.ec).pending = [] := by
    rw [AsyncSession.dequeue, (h.phase.waiting hop).1]
    simp
  have hstep : AsyncSession.Step t.session (last.op, c) (t.session.complete last.op c) :=
    .complete _ _ _ hop
  have hphase := h.phase.step hstep
  obtain ⟨told, ending, -, hh⟩ := AsyncSession.handled_complete h.phase last.op c
  have hstarted := started_complete hh
  rw [h.started] at hstarted
  have hends := handledAs_handle hcalled (hsettings.symm ▸ h.uses) c
  obtain ⟨t', hr, hsession, hkept, htime, hcases⟩ := hends.cases_on hcalled
  have hsession : t'.session = t.session.complete last.op c := hsession
  have hkept : t'.settings = k := hkept.trans hsettings
  refine ⟨t', hr, hsession, htime, ?_⟩
  rcases hcases with ⟨hpending, hhistory, halloc⟩ | ⟨hpasses, hpending, hhistory, halloc⟩
  · -- the session is over
    have hover : t'.session.pending = [] := by
      rw [hsession]
      exact hpending.trans hnone
    have hending : ending.pending = [] := by
      rw [← hover, hsession, hh.pending, hnone, List.nil_append]
    refine .inl ⟨?_, hhistory, hover⟩
    exact {
      settings := hkept
      phase := hsession ▸ hphase
      allocated := halloc
      uses := h.uses
      time := h.time.trans (hnow.trans_eq htime.symm)
      pending := fun op hop => by
        rw [hover] at hop
        cases hop
      started := by
        rw [hsession, hstarted, hending, List.append_nil, hhistory]
        rfl
      passes := fun hpending => absurd hover hpending }
  · have hwaits : t'.session.pending = [k.next last.op] := by
      rw [hsession, ← hsettings]
      exact hpending.trans (congrArg (· ++ _) hnone)
    have hending : ending.pending = [k.next last.op] := by
      rw [← hwaits, hsession, hh.pending, hnone, List.nil_append]
    subst hsettings
    have hextended : t'.history = t.history ++ [t.settings.after last now] := hhistory
    refine .inr ⟨?_, hextended⟩
    exact {
      settings := hkept
      phase := hsession ▸ hphase
      allocated := halloc
      uses := Settings.uses_next h.uses
      time := htime.ge
      pending := fun op hop => by
        rw [hwaits] at hop
        exact List.mem_singleton.mp hop
      started := by
        rw [hsession, hstarted, hending, hextended, List.map_append]
        rfl
      passes := fun _ op ec hmem => by
        rw [hsession] at hmem
        rcases completed_mem_complete hh hmem with hbefore | ⟨-, rfl⟩
        · exact h.passes (List.ne_nil_of_mem hop) op ec hbefore
        · exact hpasses }

/-! ## The schedule -/

/-- All operations of a session, when they start, and their deadlines: the times are those of
resolving, connecting, the handshake, writing, the first read and the reads after it. -/
def Settings.schedule (k : Settings) (t₀ t₁ t₂ t₃ t₄ : ℕ) (reads : List ℕ) :
    List StartedOperation :=
  ⟨.resolve, t₀, none⟩ :: ⟨.connect, t₁, some (t₁ + k.connTimeout)⟩ ::
    ((if k.ssl then [⟨.handshake, t₂, some (t₁ + k.connTimeout)⟩] else []) ++
      [⟨.write k.stream, t₃, none⟩] ++
      (t₄ :: reads).map fun time => ⟨k.read, time, some (t₄ + k.readTimeout)⟩)

/-- The operations follow one another. -/
def Settings.Chained (k : Settings) (history : List StartedOperation) : Prop :=
  history.IsChain k.Follows

theorem Settings.next_read (k : Settings) :
    k.next k.read = k.read ∧ ∀ now d, k.nextDeadline now d k.read = d := by
  unfold Settings.read
  split
  · exact ⟨by simp [Settings.next, Settings.read, *], fun _ _ => rfl⟩
  · exact ⟨by simp [Settings.next, Settings.read, *], fun _ _ => rfl⟩

/-- After a read there are only reads, under its deadline. -/
theorem Settings.Chained.reads {k : Settings} {first : ℕ} {d : Option ℕ}
    {history : List StartedOperation} (h : k.Chained (⟨k.read, first, d⟩ :: history)) :
    ∃ reads : List ℕ, history = reads.map fun time => ⟨k.read, time, d⟩ := by
  induction history generalizing first with
  | nil => exact ⟨[], rfl⟩
  | cons next history ih =>
    obtain ⟨hfollows, hrest⟩ := List.isChain_cons_cons.mp h
    have hop : next.op = k.read := hfollows.op.trans k.next_read.1
    have hdeadline : next.deadline = d := hfollows.deadline.trans (k.next_read.2 _ _)
    -- the next operation is one more read, under the same deadline
    obtain ⟨op, time, deadline⟩ := next
    obtain rfl : op = k.read := hop
    obtain rfl : deadline = d := hdeadline
    obtain ⟨reads, rfl⟩ := ih hrest
    exact ⟨time :: reads, rfl⟩

/-- What follows a write is on the schedule. -/
theorem Settings.Chained.written {k : Settings} {t₃ : ℕ} {history : List StartedOperation}
    (h : k.Chained (⟨.write k.stream, t₃, none⟩ :: history)) :
    ∃ t₄ reads, history <+:
      (t₄ :: reads).map fun time => ⟨k.read, time, some (t₄ + k.readTimeout)⟩ := by
  cases history with
  | nil => exact ⟨0, [], List.nil_prefix⟩
  | cons next history =>
    obtain ⟨hfollows, hrest⟩ := List.isChain_cons_cons.mp h
    obtain ⟨op, time, deadline⟩ := next
    obtain rfl : op = k.read := hfollows.op
    obtain rfl : deadline = some (time + k.readTimeout) := hfollows.deadline
    obtain ⟨reads, rfl⟩ := Settings.Chained.reads hrest
    exact ⟨time, reads, List.prefix_rfl⟩

/-- So is what follows a connection, with the handshake or without it. -/
theorem Settings.Chained.connected {k : Settings} {t₁ : ℕ} {d : Option ℕ}
    {history : List StartedOperation} (h : k.Chained (⟨.connect, t₁, d⟩ :: history)) :
    ∃ t₂ t₃ t₄ reads, history <+:
      (if k.ssl then [⟨.handshake, t₂, d⟩] else []) ++ [⟨.write k.stream, t₃, none⟩] ++
        (t₄ :: reads).map fun time => ⟨k.read, time, some (t₄ + k.readTimeout)⟩ := by
  have hwrite {t₃ : ℕ} {history : List StartedOperation}
      (h : k.Chained (⟨.write k.stream, t₃, none⟩ :: history)) :
      ∃ t₄ reads, (⟨.write k.stream, t₃, none⟩ :: history) <+: [⟨.write k.stream, t₃, none⟩] ++
        (t₄ :: reads).map fun time => ⟨k.read, time, some (t₄ + k.readTimeout)⟩ := by
    obtain ⟨t₄, reads, hprefix⟩ := h.written
    exact ⟨t₄, reads, (List.prefix_cons_inj _).mpr hprefix⟩
  cases history with
  | nil => exact ⟨0, 0, 0, [], List.nil_prefix⟩
  | cons next history =>
    obtain ⟨hfollows, hrest⟩ := List.isChain_cons_cons.mp h
    obtain ⟨op, time, deadline⟩ := next
    have hop : op = if k.ssl then .handshake else .write .raw := hfollows.op
    have hdeadline : deadline = if k.ssl then d else none := hfollows.deadline
    cases hssl : k.ssl with
    | true =>
      rw [hssl] at hop hdeadline
      subst hop hdeadline
      -- the handshake comes before the write
      cases history with
      | nil => exact ⟨time, 0, 0, [], ⟨_, rfl⟩⟩
      | cons next history =>
        obtain ⟨hfollows, hrest⟩ := List.isChain_cons_cons.mp hrest
        obtain ⟨op, t₃, deadline⟩ := next
        have hstream : k.stream = .ssl := if_pos hssl
        obtain rfl : op = .write k.stream := hfollows.op.trans (by rw [hstream]; rfl)
        obtain rfl : deadline = none := hfollows.deadline
        obtain ⟨t₄, reads, hprefix⟩ := hwrite hrest
        exact ⟨time, t₃, t₄, reads, (List.prefix_cons_inj _).mpr hprefix⟩
    | false =>
      rw [hssl] at hop hdeadline
      have hstream : k.stream = .raw := if_neg (by rw [hssl]; decide)
      obtain rfl : op = .write k.stream := hop.trans (by rw [hstream]; rfl)
      obtain rfl : deadline = none := hdeadline
      obtain ⟨t₄, reads, hprefix⟩ := hwrite hrest
      exact ⟨0, time, t₄, reads, hprefix⟩

/-- Operations that follow one another from resolving are the first ones of a schedule. -/
theorem Settings.Chained.onSchedule {k : Settings} {t₀ : ℕ} {history : List StartedOperation}
    (h : k.Chained (⟨.resolve, t₀, none⟩ :: history)) :
    ∃ t₁ t₂ t₃ t₄ reads,
      (⟨.resolve, t₀, none⟩ :: history) <+: k.schedule t₀ t₁ t₂ t₃ t₄ reads := by
  cases history with
  | nil => exact ⟨0, 0, 0, 0, [], ⟨_, rfl⟩⟩
  | cons next history =>
    obtain ⟨hfollows, hrest⟩ := List.isChain_cons_cons.mp h
    obtain ⟨op, t₁, deadline⟩ := next
    obtain rfl : op = .connect := hfollows.op
    obtain rfl : deadline = some (t₁ + k.connTimeout) := hfollows.deadline
    -- resolving and connecting are settled, and what follows is on the schedule
    obtain ⟨t₂, t₃, t₄, reads, hprefix⟩ := Settings.Chained.connected hrest
    refine ⟨t₁, t₂, t₃, t₄, reads, ?_⟩
    exact (List.prefix_cons_inj _).mpr ((List.prefix_cons_inj _).mpr hprefix)

/-! ## Runs -/

/-- What every reachable state of a session satisfies. -/
structure OnSchedule (request : BaseRequest) (progress : Bool) (k : Settings) (t₀ : ℕ)
    (t : TimedSession) : Prop where
  /-- It behaves as the session without streams and timer. -/
  refines : Reachable AsyncSession.Step (AsyncSession.started request progress) t.session
  /-- No null pointer is followed, whatever completes next. -/
  defined : ∀ op ∈ t.session.pending, ∀ c now, t.now ≤ now →
    ∃ t', t.complete op c now = some t'
  /-- The operations, in order, and their deadlines. -/
  scheduled : ∃ t₁ t₂ t₃ t₄ reads, t.history <+: k.schedule t₀ t₁ t₂ t₃ t₄ reads
  started : t.session.log.filterMap SessionEvent.asStarted = t.history.map StartedOperation.op
  ordered : (t.history.map StartedOperation.time ++ [t.now]).Pairwise (· ≤ ·)
  /-- An operation is pending only if all before it ended without an error that counts. -/
  passes : t.session.pending ≠ [] → ∀ op ec, SessionEvent.completed op ec ∈ t.session.log →
    Passes ec

/-- The invariant behind it. -/
structure Timed (request : BaseRequest) (progress : Bool) (k : Settings) (t₀ : ℕ)
    (t : TimedSession) : Prop where
  refines : Reachable AsyncSession.Step (AsyncSession.started request progress) t.session
  chained : k.Chained t.history
  first : t.history.head? = some ⟨.resolve, t₀, none⟩
  stands : ∃ last, t.history.getLast? = some last ∧ Stands k last t

variable {request : BaseRequest} {progress : Bool} {k : Settings} {t₀ : ℕ}

theorem Timed.step (h : Timed request progress k t₀ t) {e : TimedCompletion}
    (hstep : Step t e t') :
    Timed request progress k t₀ t' ∧ t'.now = e.now ∧ ∃ last, t.history.getLast? = some last ∧
      (t'.history = t.history ∨ t'.history = t.history ++ [k.after last e.now]) := by
  obtain ⟨_, _, hop, hnow, hcomplete⟩ := hstep
  obtain ⟨last, hlast, hstands⟩ := h.stands
  obtain ⟨t'', heq, hsession, htime, hcases⟩ := hstands.complete hop e.completion hnow
  obtain rfl : t'' = t' := Option.some.inj (heq.symm.trans hcomplete)
  have hrefines : Reachable AsyncSession.Step (AsyncSession.started request progress)
      t''.session := by
    rw [hsession]
    exact h.refines.tail ⟨_, .complete _ _ _ hop⟩
  rcases hcases with ⟨hover, hhistory, -⟩ | ⟨hnext, hhistory⟩
  · -- the session has reported, and nothing was started
    refine ⟨⟨hrefines, ?_, ?_, last, ?_, hover⟩, htime, last, hlast, .inl hhistory⟩
    · rw [hhistory]; exact h.chained
    · rw [hhistory]; exact h.first
    · rw [hhistory]; exact hlast
  · -- one operation was started, which is the one that follows the last
    refine ⟨⟨hrefines, ?_, ?_, _, ?_, hnext⟩, htime, last, hlast, .inr hhistory⟩
    · rw [hhistory]
      refine List.isChain_append.mpr ⟨h.chained, List.isChain_singleton _, ?_⟩
      intro a ha b hb
      rw [hlast] at ha
      obtain rfl := Option.some.inj ha
      obtain rfl := Option.some.inj hb
      exact ⟨rfl, rfl, hstands.time.trans hnow⟩
    · rw [hhistory, List.head?_append, h.first]; rfl
    · rw [hhistory, List.getLast?_append]; rfl

theorem Timed.onSchedule (h : Timed request progress k t₀ t) :
    OnSchedule request progress k t₀ t := by
  obtain ⟨last, hlast, hstands⟩ := h.stands
  exact {
    refines := h.refines
    defined := fun op hop c now hnow => by
      obtain ⟨t', heq, -⟩ := hstands.complete hop c hnow
      exact ⟨t', heq⟩
    scheduled := by
      obtain ⟨history, hhistory⟩ := List.head?_eq_some_iff.mp h.first
      have hchained := h.chained
      rw [hhistory] at hchained ⊢
      exact hchained.onSchedule
    started := hstands.started
    ordered := by
      -- the times follow one another, and the last is not after now
      apply List.isChain_iff_pairwise.mp
      refine List.isChain_append.mpr ⟨?_, List.isChain_singleton _, ?_⟩
      · exact (List.isChain_map _).mpr (h.chained.imp fun _ _ hfollows => hfollows.time)
      · intro a ha b hb
        rw [List.getLast?_map, hlast] at ha
        obtain rfl := Option.some.inj ha
        obtain rfl := Option.some.inj hb
        exact hstands.time
    passes := hstands.passes }

/-- The state of a session that has been run. -/
theorem exists_started (request : BaseRequest) (progress : Bool) (conn read t₀ : ℕ) :
    ∃ t, started request progress conn read t₀ = some t ∧
      t.history = [⟨.resolve, t₀, none⟩] ∧
      Timed request progress ⟨request.ssl, progress, conn, read⟩ t₀ t := by
  have hrun : ∃ t, started request progress conn read t₀ = some t ∧
      t.session = AsyncSession.started request progress ∧ t.connTimeout = conn ∧
      t.readTimeout = read ∧ t.now = t₀ ∧ t.history = [⟨.resolve, t₀, none⟩] ∧
      Allocated none t := by
    -- the request decides which of the two streams is made
    unfold started construct
    cases hssl : request.ssl with
    | true => exact ⟨_, rfl, rfl, rfl, rfl, rfl, rfl, (if_pos hssl).symm, (if_pos hssl).symm⟩
    | false =>
      have hssl : ¬ request.ssl = true := by rw [hssl]; decide
      exact ⟨_, rfl, rfl, rfl, rfl, rfl, rfl, (if_neg hssl).symm, (if_neg hssl).symm⟩
  obtain ⟨t, hstarted, hsession, hconn, hread, hnow, hhistory, halloc⟩ := hrun
  refine ⟨t, hstarted, hhistory, ?_⟩
  exact {
    refines := by rw [hsession]; exact .refl
    chained := by rw [hhistory]; exact List.isChain_singleton _
    first := by rw [hhistory]; rfl
    stands := by
      refine ⟨⟨.resolve, t₀, none⟩, by rw [hhistory]; rfl, ?_⟩
      exact {
        settings := by rw [settings, hsession, hconn, hread]; rfl
        phase := by rw [hsession]; exact AsyncSession.phase_started request progress
        allocated := halloc
        uses := trivial
        time := hnow.ge
        pending := fun op hop => by
          rw [hsession] at hop
          exact List.mem_singleton.mp hop
        started := by rw [hsession, hhistory]; rfl
        passes := fun _ op ec hmem => by
          rw [hsession] at hmem
          cases List.mem_singleton.mp hmem } }

/-- **The protocol of a session.** However its operations complete, and whenever, a session that
has been run never follows a null pointer and does what the session without timer does; it
resolves, connects, shakes hands if the request is one for TLS, writes and reads, each only after
the one before ended without an error that counts; one deadline covers connecting and the
handshake, one covers all reads, and nothing limits the rest. -/
theorem reachable_onSchedule (request : BaseRequest) (progress : Bool) (conn read t₀ : ℕ) :
    ∃ t, started request progress conn read t₀ = some t ∧ ∀ t', Reachable Step t t' →
      OnSchedule request progress ⟨request.ssl, progress, conn, read⟩ t₀ t' := by
  obtain ⟨t, hstarted, -, htimed⟩ := exists_started request progress conn read t₀
  refine ⟨t, hstarted, fun t' hreach => ?_⟩
  exact (hreach.invariant (P := Timed request progress ⟨request.ssl, progress, conn, read⟩ t₀)
    htimed fun _ _ _ h hstep => (h.step hstep).1).onSchedule

/-! ## How long a session takes -/

/-- When the first operation of a kind was started. -/
def timeOf (t : TimedSession) (kind : Operation → Bool) : Option ℕ :=
  (t.history.find? fun x => kind x.op).map StartedOperation.time

/-- An operation that expires completes no later than `slack` after its deadline. -/
def EndsInTime (slack : ℕ) (t : TimedSession) (e : TimedCompletion) : Prop :=
  ∀ last ∈ t.history.getLast?, ∀ d ∈ last.deadline, e.now ≤ d + slack

/-- Connecting, with the handshake, ends within its timeout, and so does reading. -/
structure WithinTimeouts (k : Settings) (slack : ℕ) (t : TimedSession) : Prop where
  connecting : ∀ t₁ ∈ t.timeOf (· == .connect),
    (t.timeOf Operation.isWrite).getD t.now ≤ t₁ + k.connTimeout + slack
  reading : ∀ t₄ ∈ t.timeOf Operation.isRead, t.now ≤ t₄ + k.readTimeout + slack

/-- The stage a session is in, by its last operation and the deadline of that, and when it
began to connect, to write and to read. -/
inductive Stage (k : Settings) (slack now : ℕ) :
    Operation → Option ℕ → Option ℕ → Option ℕ → Option ℕ → Prop where
  | resolving : Stage k slack now .resolve none none none none
  | connecting {op : Operation} {t₁ : ℕ} (hop : op = .connect ∨ op = .handshake)
      (htime : now ≤ t₁ + k.connTimeout + slack) :
      Stage k slack now op (some (t₁ + k.connTimeout)) (some t₁) none none
  | writing (stream : StreamKind) (d : Option ℕ) {t₁ t₃ : ℕ}
      (hwrote : t₃ ≤ t₁ + k.connTimeout + slack) :
      Stage k slack now (.write stream) d (some t₁) (some t₃) none
  | reading {op : Operation} {t₁ t₃ t₄ : ℕ} (hop : op.isRead = true)
      (hwrote : t₃ ≤ t₁ + k.connTimeout + slack) (htime : now ≤ t₄ + k.readTimeout + slack) :
      Stage k slack now op (some (t₄ + k.readTimeout)) (some t₁) (some t₃) (some t₄)

/-- The stage of a state. -/
def InStage (k : Settings) (slack : ℕ) (t : TimedSession) : Prop :=
  ∃ last, t.history.getLast? = some last ∧ Stage k slack t.now last.op last.deadline
    (t.timeOf (· == .connect)) (t.timeOf Operation.isWrite) (t.timeOf Operation.isRead)

theorem InStage.within {slack : ℕ} (h : InStage k slack t) : WithinTimeouts k slack t := by
  obtain ⟨⟨op, time, deadline⟩, -, hstage⟩ := h
  generalize hconnect : t.timeOf (· == .connect) = connect at hstage
  generalize hwrite : t.timeOf Operation.isWrite = write at hstage
  generalize hread : t.timeOf Operation.isRead = read at hstage
  constructor
  · rw [hconnect, hwrite]
    intro t₁ ht₁
    cases hstage with
    -- before the connection there is nothing to bound
    | resolving => cases ht₁
    | connecting _ htime =>
      obtain rfl := Option.some.inj ht₁
      exact htime
    | writing _ _ hwrote | reading _ hwrote _ =>
      obtain rfl := Option.some.inj ht₁
      exact hwrote
  · rw [hread]
    intro t₄ ht₄
    cases hstage with
    | reading _ _ htime =>
      obtain rfl := Option.some.inj ht₄
      exact htime
    | _ => cases ht₄

theorem timeOf_append {x : StartedOperation} (h : t'.history = t.history ++ [x])
    (kind : Operation → Bool) :
    t'.timeOf kind = (t.timeOf kind).or (if kind x.op then some x.time else none) := by
  rw [timeOf, timeOf, h, List.find?_append, Option.map_or, List.find?_singleton]
  cases kind x.op <;> rfl

theorem Settings.isRead_read (k : Settings) : k.read.isRead = true := by
  unfold Settings.read
  split <;> rfl

/-- The stage after a stage. -/
theorem Stage.next {slack now now' : ℕ} {op : Operation} {d c w r : Option ℕ}
    (h : Stage k slack now op d c w r) (hnow : ∀ x ∈ d, now' ≤ x + slack) :
    Stage k slack now' op d c w r ∧
      Stage k slack now' (k.next op) (k.nextDeadline now' d op)
        (c.or (if k.next op == .connect then some now' else none))
        (w.or (if (k.next op).isWrite then some now' else none))
        (r.or (if (k.next op).isRead then some now' else none)) := by
  have hkinds : (k.read == .connect) = false ∧ k.read.isWrite = false := by
    unfold Settings.read
    split
    · exact ⟨rfl, rfl⟩
    · exact ⟨rfl, rfl⟩
  -- each stage goes on to itself, with a later time, or to the next one
  cases h with
  | resolving =>
    refine ⟨.resolving, ?_⟩
    have htime : now' ≤ now' + k.connTimeout + slack := by omega
    exact .connecting (.inl rfl) htime
  | @connecting _ t₁ hop htime =>
    -- the connection and the handshake share one deadline
    have htime' : now' ≤ t₁ + k.connTimeout + slack := hnow _ rfl
    refine ⟨.connecting hop htime', ?_⟩
    rcases hop with rfl | rfl
    · cases hssl : k.ssl with
      | true =>
        simp only [Settings.next, Settings.nextDeadline, hssl, if_true]
        exact .connecting (.inr rfl) htime'
      | false =>
        simp only [Settings.next, Settings.nextDeadline, hssl]
        exact .writing .raw _ htime'
    · exact .writing .ssl _ htime'
  | @writing stream d t₁ t₃ hwrote =>
    refine ⟨.writing stream d hwrote, ?_⟩
    have hnext : k.next (.write stream) = k.read := rfl
    rw [hnext, hkinds.1, hkinds.2, k.isRead_read]
    have htime : now' ≤ now' + k.readTimeout + slack := by omega
    exact .reading k.isRead_read hwrote htime
  | @reading op t₁ t₃ t₄ hop hwrote htime =>
    -- all reads share the one that was set after the write
    have htime' : now' ≤ t₄ + k.readTimeout + slack := hnow _ rfl
    refine ⟨.reading hop hwrote htime', ?_⟩
    have hnext : k.next op = k.read ∧
        k.nextDeadline now' (some (t₄ + k.readTimeout)) op = some (t₄ + k.readTimeout) := by
      cases op with
      | read stream => exact ⟨rfl, rfl⟩
      | readSome stream => exact ⟨rfl, rfl⟩
      | _ => cases hop
    rw [hnext.1, hnext.2, hkinds.1, hkinds.2, k.isRead_read]
    exact .reading k.isRead_read hwrote htime'

theorem InStage.step {slack : ℕ} (h : Timed request progress k t₀ t) (hstage : InStage k slack t)
    {e : TimedCompletion} (hintime : EndsInTime slack t e) (hstep : Step t e t') :
    InStage k slack t' := by
  obtain ⟨last, hlast, hstage⟩ := hstage
  obtain ⟨htimed, hnow, last', hlast', hhistory⟩ := h.step hstep
  obtain rfl : last = last' := Option.some.inj (hlast.symm.trans hlast')
  obtain ⟨hsame, hnext⟩ := hstage.next (hintime last hlast)
  rcases hhistory with hhistory | hhistory
  · -- nothing was started, so the times of the stages are the same
    refine ⟨last, by rw [hhistory]; exact hlast, ?_⟩
    unfold timeOf at hsame ⊢
    rw [hnow, hhistory]
    exact hsame
  · refine ⟨k.after last e.now, by rw [hhistory, List.getLast?_append]; rfl, ?_⟩
    rw [timeOf_append hhistory, timeOf_append hhistory, timeOf_append hhistory, hnow]
    exact hnext

/-- **The timeouts bound connecting and reading.** When an operation that expires completes no
later than `slack` after its deadline, then in every state of a run the session began to write
within the connection timeout after it began to connect, or has not taken longer yet; and since
it began to read no more than the read timeout has passed, however many reads there were. -/
theorem withinTimeouts_of_endsInTime {request : BaseRequest} {progress : Bool}
    {conn read t₀ slack : ℕ} {t : TimedSession} {tr : List (TimedCompletion × TimedSession)}
    (hstarted : started request progress conn read t₀ = some t) (hrun : Run Step t tr)
    (hintime : Guarded (EndsInTime slack) t tr) :
    Always (WithinTimeouts ⟨request.ssl, progress, conn, read⟩ slack) t tr := by
  obtain ⟨t', hstarted', hhistory, htimed⟩ := exists_started request progress conn read t₀
  obtain rfl : t' = t := Option.some.inj (hstarted'.symm.trans hstarted)
  have hstage : InStage ⟨request.ssl, progress, conn, read⟩ slack t' := by
    refine ⟨⟨.resolve, t₀, none⟩, by rw [hhistory]; rfl, ?_⟩
    unfold timeOf
    rw [hhistory]
    exact .resolving
  have hinv := hrun.always_of_guarded (P := fun t =>
      Timed request progress ⟨request.ssl, progress, conn, read⟩ t₀ t ∧
        InStage ⟨request.ssl, progress, conn, read⟩ slack t)
    ⟨htimed, hstage⟩
    (fun _ _ _ h hintime hstep => ⟨(h.1.step hstep).1, h.2.step h.1 hintime hstep⟩) hintime
  exact hinv.mono fun _ h => h.2.within

/-- A plain session that connects within its time and reads twice. -/
theorem withinTimeouts_twoReads :
    ∃ t tr, started {} true 30 30 0 = some t ∧ Run Step t tr ∧
      (lastState t tr).session.pending = [] ∧
      Always (WithinTimeouts ⟨false, true, 30, 30⟩ 1) t tr := by
  have hrun : ∃ t tr, started {} true 30 30 0 = some t ∧ Run Step t tr ∧
      (lastState t tr).session.pending = [] ∧ Guarded (EndsInTime 1) t tr := by
    refine ⟨_, [(⟨.resolve, {}, 5⟩, _), (⟨.connect, {}, 36⟩, _), (⟨.write .raw, {}, 90⟩, _),
      (⟨.readSome .raw, {}, 100⟩, _),
      (⟨.readSome .raw, { response := { isDone := true } }, 120⟩, _)], rfl,
      .cons (.complete _ _ _ (by decide) (by decide) rfl) <|
      .cons (.complete _ _ _ (by decide) (by decide) rfl) <|
      .cons (.complete _ _ _ (by decide) (by decide) rfl) <|
      .cons (.complete _ _ _ (by decide) (by decide) rfl) <|
      .cons (.complete _ _ _ (by decide) (by decide) rfl) <| .nil _, rfl, ?_⟩
    -- only the connection and the second read have a deadline that is near
    refine ⟨?_, ?_, ?_, ?_, ?_, trivial⟩
    all_goals
      intro last hlast d hd
      obtain rfl := Option.some.inj hlast
      cases hd
    all_goals decide
  obtain ⟨t, tr, hstarted, hrun, hidle, hintime⟩ := hrun
  exact ⟨t, tr, hstarted, hrun, hidle, withinTimeouts_of_endsInTime hstarted hrun hintime⟩

end TimedSession

end Httb
