import Httb.SessionOutcome

/-!
# Download Progress

With a progress callback a session reads in pieces, and after each piece it reports how much
of the body has been loaded: the length that the header announced less the length that the
parser still waits for. Both lengths are optional, and a missing one counts as zero. So a
read that ends between the header and the body reports the whole body as loaded.

## Key Results

- `outcome_complete`: what a completion does to a session with a progress callback
- `Reading.readsOn`, `Reading.finishes`: what the two kinds of reports keep
- `always_progressSound_iff`: along a run the progress is sound exactly when no read ends
  between the header and the body
-/

namespace Httb

open Httb.Foundation

/-- What an event reports as loaded, of a response whose length is known. -/
def SessionEvent.loaded : SessionEvent → Option UInt64
  | .progressed loaded total _ => if 0 < total then some loaded else none
  | _ => none

/-- The event reports neither a part of a known length nor success. -/
def SessionEvent.isQuiet : SessionEvent → Bool
  | .progressed _ total _ => total = 0
  | .reported (.success _ _) => false
  | _ => true

/-! ## The parser -/

namespace ResponseParser

/-- What the parser keeps to from one read to the next: the length of the body stands once
the header is parsed; what remains of the body is at most that, never grows, and is nothing
only when the response is done. -/
structure Advances (before after : ResponseParser) : Prop where
  contentLength : ∀ n, before.contentLength = some n → after.contentLength = some n
  remaining_le : ∀ k, after.contentLengthRemaining = some k →
    ∃ n, after.contentLength = some n ∧ k ≤ n
  remaining_antitone : ∀ k k', before.contentLengthRemaining = some k →
    after.contentLengthRemaining = some k' → k' ≤ k
  remaining_pos : ∀ k, after.contentLengthRemaining = some k → after.isDone = false → 0 < k

/-- What `on_read` reports between two reads. -/
def loadedReport (p : ResponseParser) : SessionEvent :=
  let totalLen := p.contentLength.getD 0
  let loaded := totalLen - p.contentLengthRemaining.getD 0
  if totalLen = 0 then .progressed 0 0 0
  else .progressed loaded totalLen ((loaded.toNat : Rat) / totalLen.toNat)

/-- What `on_read` reports when the response is complete. -/
def doneReport (p : ResponseParser) : SessionEvent :=
  let totalLen := p.contentLength.getD 0
  if totalLen = 0 then .progressed 0 0 0 else .progressed totalLen totalLen 1

variable {p : ResponseParser} {loaded total : UInt64} {progress : Rat}

theorem contentLength_of_getD (h : p.contentLength.getD 0 = total) (htotal : 0 < total) :
    p.contentLength = some total := by
  cases hlength : p.contentLength with
  | none =>
    rw [hlength] at h
    simp [← h] at htotal
  | some n => rw [← h, hlength, Option.getD_some]

theorem of_loadedReport (h : .progressed loaded total progress = p.loadedReport)
    (htotal : 0 < total) :
    p.contentLength = some total ∧ loaded = total - p.contentLengthRemaining.getD 0 := by
  rw [loadedReport] at h
  split at h
  · cases h
    simp at htotal
  · injection h with hloaded hlength
    exact ⟨contentLength_of_getD hlength.symm htotal, by rw [hloaded, ← hlength]⟩

theorem of_doneReport (h : .progressed loaded total progress = p.doneReport)
    (htotal : 0 < total) : p.contentLength = some total ∧ loaded = total ∧ progress = 1 := by
  rw [doneReport] at h
  split at h
  · cases h
    simp at htotal
  · injection h with hloaded hlength hprogress
    exact ⟨contentLength_of_getD hlength.symm htotal, by rw [hloaded, hlength], hprogress⟩

/-- With nothing known to remain everything counts as loaded. -/
theorem loadedReport_of_none (h : p.contentLengthRemaining = none)
    (htotal : 0 < p.contentLength.getD 0) :
    ∃ progress, p.loadedReport =
      .progressed (p.contentLength.getD 0) (p.contentLength.getD 0) progress := by
  rw [loadedReport, h, if_neg (UInt64.pos_iff_ne_zero.mp htotal), Option.getD_none,
    UInt64.sub_zero]
  exact ⟨_, rfl⟩

theorem isProgress_loadedReport (p : ResponseParser) : p.loadedReport.isProgress = true := by
  rw [loadedReport]
  split
  · rfl
  · rfl

theorem isProgress_doneReport (p : ResponseParser) : p.doneReport.isProgress = true := by
  rw [doneReport]
  split
  · rfl
  · rfl

theorem doneReport_of_contentLength (h : p.contentLength = some total) (htotal : 0 < total) :
    p.doneReport = .progressed total total 1 := by
  have hne : total ≠ 0 := UInt64.pos_iff_ne_zero.mp htotal
  rw [doneReport, h]
  exact if_neg hne

end ResponseParser

namespace AsyncSession

/-- A session that was constructed for the request, has a progress callback and has been
run; the arguments say which of the other callbacks are set. -/
def startedWith (request : BaseRequest) (onError onSuccess : Bool) : AsyncSession :=
  ({ requestRaw := request : AsyncSession }.setOnProgressCb true).run onError onSuccess

/-- A read leaves the parser as the parser can go on from where it was. -/
def ParserAdvances (s : AsyncSession) (x : Operation × Completion) : Prop :=
  x.1.isRead = true → s.response.Advances x.2.response

/-- The operation is a read that ends between the header and the body: it does not fail, a
body is announced, and none of it has been parsed. -/
def StopsBeforeBody (x : Operation × Completion) : Prop :=
  x.1.isRead = true ∧ (x.2.ec.failed && !isIgnoredError x.2.ec) = false ∧
    x.2.response.isDone = false ∧ 0 < x.2.response.contentLength.getD 0 ∧
    x.2.response.contentLengthRemaining = none

/-- What is logged of success, if there is a callback for it. -/
def successReport (s : AsyncSession) (message : BeastResponse) (n : ℕ) : List SessionEvent :=
  if s.successFunc then [.reported (.success message n)] else []

/-- The reports of a log do not decrease. -/
def Nondecreasing (log : List SessionEvent) : Prop :=
  (log.filterMap SessionEvent.loaded).Pairwise (· ≤ ·)

/-- The progress reported so far does not go back and does not announce completion early. -/
structure ProgressSound (s : AsyncSession) : Prop where
  bounded : ∀ loaded total progress, .progressed loaded total progress ∈ s.log → 0 < total →
    loaded ≤ total
  nondecreasing : Nondecreasing s.log
  /-- All is loaded only in the last report, which success follows at once. -/
  done_of_total : ∀ before total progress after,
    s.log = before ++ .progressed total total progress :: after → 0 < total →
      s.response.isDone = true ∧ progress = 1 ∧
        ∃ n, after = s.successReport s.response.message n
  /-- Success of a response of known length is preceded by that report. -/
  total_of_success : ∀ before message n after,
    s.log = before ++ .reported (.success message n) :: after → ∀ total,
      s.response.contentLength = some total → 0 < total →
        ∃ before', before = before' ++ [.progressed total total 1]

variable {s s' : AsyncSession} {op : Operation} {c : Completion}

theorem eq_of_mem_successReport {e : SessionEvent} {message : BeastResponse} {n : ℕ}
    (h : e ∈ s.successReport message n) : e = .reported (.success message n) := by
  rw [successReport] at h
  split at h
  · exact List.mem_singleton.mp h
  · cases h

/-! ## What a completion does -/

theorem tellLoaded_eq (h : s.progressFunc = true) :
    s.tellLoaded = { s with log := s.log ++ [s.response.loadedReport] } := by
  rw [tellLoaded, if_pos h, ResponseParser.loadedReport]
  dsimp only
  split
  · rfl
  · rfl

theorem tellDone_eq (h : s.progressFunc = true) :
    s.tellDone = { s with log := s.log ++ [s.response.doneReport] } := by
  rw [tellDone, if_pos h, ResponseParser.doneReport]
  dsimp only
  split
  · rfl
  · rfl

theorem exists_fail (s : AsyncSession) (ec : ErrorCode) (where_ : Str) :
    ∃ told, (∀ e ∈ told, e.isQuiet = true) ∧
      s.fail ec where_ = { s with log := s.log ++ told } := by
  rw [fail]
  split
  · exact ⟨[.reported (.error ec where_)], by simp [SessionEvent.isQuiet], rfl⟩
  · exact ⟨[], by simp, by simp⟩

/-- What a completion comes to when nothing else is pending: an earlier stage is followed by
the next one, the session ends without success, a read is followed by another one, or the
response is complete. -/
inductive Outcome (s : AsyncSession) (op : Operation) (c : Completion) (s' : AsyncSession) :
    Prop where
  | goesOn (op' : Operation) (hread : op.isRead = false) (heq : s' = { s with
      pending := [op'], log := s.log ++ [.completed op c.ec, .started op'] })
  | ends (response : ResponseParser) (told : List SessionEvent)
      (hcause : (c.ec.failed && !isIgnoredError c.ec) = true ∨ c.response.isDone = true)
      (hquiet : ∀ e ∈ told, e.isQuiet = true) (heq : s' = { s with
        response := response, pending := [], log := s.log ++ told })
  | readsOn (op' : Operation) (hread : op.isRead = true)
      (hec : (c.ec.failed && !isIgnoredError c.ec) = false) (hdone : c.response.isDone = false)
      (heq : s' = { s with
        response := c.response, pending := [op'],
        log := s.log ++ .completed op c.ec :: c.response.loadedReport :: [.started op'] })
  | finishes (hread : op.isRead = true) (hdone : c.response.isDone = true) (heq : s' = { s with
      response := c.response, pending := [],
      log := s.log ++ .completed op c.ec :: c.response.doneReport ::
        s.successReport c.response.message c.bytesTransferred })

theorem dequeue_of_waiting (h : s.pending = [op]) (ec : ErrorCode) :
    s.dequeue op ec = { s with pending := [], log := s.log ++ [.completed op ec] } := by
  simp [dequeue, h]

/-- A handler that fails ends the session. -/
theorem outcome_fail (h : s.pending = [op]) (response : ResponseParser)
    (hcause : (c.ec.failed && !isIgnoredError c.ec) = true ∨ c.response.isDone = true)
    (ec : ErrorCode) (where_ : Str) :
    Outcome s op c ({ s.dequeue op c.ec with response := response }.fail ec where_) := by
  obtain ⟨told, hquiet, heq⟩ :=
    exists_fail { s.dequeue op c.ec with response := response } ec where_
  refine .ends response (.completed op c.ec :: told) hcause ?_ ?_
  · rw [List.forall_mem_cons]
    exact ⟨rfl, hquiet⟩
  · rw [heq, dequeue_of_waiting h]
    simp

theorem outcome_stage (hread : op.isRead = false) (h : s.pending = [op]) (where_ : Str)
    {next : AsyncSession}
    (hnext : ∃ op', next = (s.dequeue op c.ec).start op') :
    Outcome s op c
      (if c.ec.failed && !isIgnoredError c.ec then (s.dequeue op c.ec).fail c.ec where_
        else next) := by
  split
  · rename_i hec
    exact outcome_fail h s.response (.inl hec) c.ec where_
  · obtain ⟨op', rfl⟩ := hnext
    refine .goesOn op' hread ?_
    rw [dequeue_of_waiting h]
    simp [start]

theorem outcome_read (hread : op.isRead = true) (h : s.pending = [op])
    (hprogress : s.progressFunc = true) : Outcome s op c (s.complete op c) := by
  have hfail := outcome_fail (c := c) h c.response
  rw [complete, handle_read hread]
  have hdequeued : { s.dequeue op c.ec with response := c.response } = { s with
      response := c.response, pending := [], log := s.log ++ [.completed op c.ec] } := by
    rw [dequeue_of_waiting h]
  -- the handler runs on the session that waits for nothing and has the parser
  generalize { s.dequeue op c.ec with response := c.response } = d at hdequeued hfail ⊢
  have hd : d.progressFunc = true := by rw [hdequeued, hprogress]
  have hresponse : d.response = c.response := by rw [hdequeued]
  rw [onRead]
  cases hec : c.ec.failed && !isIgnoredError c.ec with
  | true => exact hfail (.inl hec) c.ec _
  | false =>
    cases hdone : c.response.isDone with
    | false =>
      obtain ⟨op', -, heq⟩ :=
        exists_start_readResponse { d with log := d.log ++ [d.response.loadedReport] }
      rw [hresponse, hdone, tellLoaded_eq hd]
      refine .readsOn op' hread hec hdone ?_
      simp only [Bool.false_eq_true, if_false]
      rw [heq, hdequeued]
      simp [start]
    | true =>
      rw [hresponse, hdone]
      simp only [Bool.false_eq_true, if_false, if_true]
      split
      · exact hfail (.inr hdone) c.shutdown _
      · refine .finishes hread hdone ?_
        rw [tellDone_eq hd, hdequeued, successReport]
        cases hsuccess : s.successFunc with
        | true => simp
        | false => simp

/-- **What a completion does to a session with a progress callback.** -/
theorem outcome_complete (h : s.pending = [op]) (hprogress : s.progressFunc = true)
    (c : Completion) : Outcome s op c (s.complete op c) := by
  cases op with
  | resolve => exact outcome_stage rfl h _ ⟨_, rfl⟩
  | connect =>
    refine outcome_stage rfl h _ ?_
    split
    · exact ⟨_, rfl⟩
    · exact ⟨_, rfl⟩
  | handshake => exact outcome_stage rfl h _ ⟨_, rfl⟩
  | write stream =>
    obtain ⟨op', -, heq⟩ := exists_start_readResponse _
    exact outcome_stage rfl h _ ⟨op', heq⟩
  | read stream => exact outcome_read rfl h hprogress
  | readSome stream => exact outcome_read rfl h hprogress

/-! ## Logs of a response that is not complete -/

theorem loaded_of_isQuiet {e : SessionEvent} (h : e.isQuiet = true) : e.loaded = none := by
  cases e with
  | progressed loaded total progress =>
    obtain rfl : total = 0 := by simpa [SessionEvent.isQuiet] using h
    rfl
  | _ => rfl

theorem mem_of_quiet {log told : List SessionEvent} (h : ∀ e ∈ told, e.isQuiet = true)
    {e : SessionEvent} (he : e ∈ log ++ told) (hnot : e.isQuiet = false) : e ∈ log := by
  rcases List.mem_append.mp he with he | he
  · exact he
  · rw [h e he] at hnot
    cases hnot

theorem isQuiet_progressed {loaded total : UInt64} {progress : Rat} (h : 0 < total) :
    (SessionEvent.progressed loaded total progress).isQuiet = false :=
  decide_eq_false (UInt64.pos_iff_ne_zero.mp h)

theorem exists_of_loaded {e : SessionEvent} {loaded : UInt64} (h : e.loaded = some loaded) :
    ∃ total progress, 0 < total ∧ e = .progressed loaded total progress := by
  cases e with
  | progressed loaded' total progress =>
    rw [SessionEvent.loaded] at h
    split at h
    · rename_i htotal
      obtain rfl := Option.some.inj h
      exact ⟨total, progress, htotal, rfl⟩
    · cases h
  | _ => cases h

variable {log told : List SessionEvent}

theorem Nondecreasing.append (h : Nondecreasing log) (htold : ∀ e ∈ told, e.loaded = none) :
    Nondecreasing (log ++ told) := by
  rw [Nondecreasing, List.filterMap_append, List.filterMap_eq_nil_iff.mpr htold,
    List.append_nil]
  exact h

/-- A report that no earlier one exceeds may follow. -/
theorem Nondecreasing.concat {e : SessionEvent} (h : Nondecreasing log)
    (hle : ∀ loaded total progress, e = .progressed loaded total progress → 0 < total →
      ∀ loaded' total' progress', .progressed loaded' total' progress' ∈ log → 0 < total' →
        loaded' ≤ loaded) : Nondecreasing (log ++ [e]) := by
  rw [Nondecreasing, List.filterMap_append, List.pairwise_append]
  refine ⟨h, ?_, ?_⟩
  · cases hloaded : e.loaded with
    | none => simp [hloaded]
    | some loaded => simp [hloaded]
  · intro loaded' hmem loaded he
    obtain ⟨e', he', hloaded'⟩ := List.mem_filterMap.mp hmem
    obtain ⟨total', progress', htotal', rfl⟩ := exists_of_loaded hloaded'
    obtain ⟨e'', he'', hloaded⟩ := List.mem_filterMap.mp he
    rw [List.mem_singleton.mp he''] at hloaded
    obtain ⟨total, progress, htotal, heq⟩ := exists_of_loaded hloaded
    exact hle loaded total progress heq htotal loaded' total' progress' he' htotal'

/-- The reports of a log are about parts, and none of them is success. -/
structure Unfinished (log : List SessionEvent) : Prop where
  part : ∀ loaded total progress, .progressed loaded total progress ∈ log → 0 < total →
    loaded < total
  nondecreasing : Nondecreasing log
  unreported : ∀ message n, .reported (.success message n) ∉ log

theorem Unfinished.append_quiet (h : Unfinished log)
    (hquiet : ∀ e ∈ told, e.isQuiet = true) : Unfinished (log ++ told) where
  part loaded total progress hmem htotal :=
    h.part loaded total progress (mem_of_quiet hquiet hmem (isQuiet_progressed htotal)) htotal
  nondecreasing := h.nondecreasing.append fun e he => loaded_of_isQuiet (hquiet e he)
  unreported message n hmem := h.unreported message n (mem_of_quiet hquiet hmem rfl)

theorem Unfinished.progressSound (h : Unfinished s.log) : ProgressSound s where
  bounded loaded total progress hmem htotal :=
    UInt64.le_of_lt (h.part loaded total progress hmem htotal)
  nondecreasing := h.nondecreasing
  done_of_total before total progress after hlog htotal := by
    have hmem : .progressed total total progress ∈ s.log := by simp [hlog]
    exact absurd (h.part total total progress hmem htotal) (UInt64.lt_irrefl total)
  total_of_success before message n after hlog := by
    have hmem : .reported (.success message n) ∈ s.log := by simp [hlog]
    exact absurd hmem (h.unreported message n)

/-- What the log reports as loaded is no more than the parser has behind it. -/
def Behind (p : ResponseParser) (log : List SessionEvent) : Prop :=
  ∀ loaded total progress, .progressed loaded total progress ∈ log → 0 < total →
    p.contentLength = some total ∧ ∃ k, p.contentLengthRemaining = some k ∧ 0 < k ∧
      loaded.toNat + k.toNat ≤ total.toNat

theorem Behind.part {p : ResponseParser} (h : Behind p log) {loaded total : UInt64}
    {progress : Rat} (hmem : .progressed loaded total progress ∈ log) (htotal : 0 < total) :
    loaded < total := by
  obtain ⟨-, k, -, hk, hle⟩ := h loaded total progress hmem htotal
  rw [UInt64.lt_iff_toNat_lt] at hk ⊢
  rw [UInt64.toNat_zero] at hk
  omega

theorem Behind.append_quiet {p : ResponseParser} (h : Behind p log)
    (hquiet : ∀ e ∈ told, e.isQuiet = true) : Behind p (log ++ told) :=
  fun loaded total progress hmem htotal =>
    h loaded total progress (mem_of_quiet hquiet hmem (isQuiet_progressed htotal)) htotal

/-- The parser knows how much it waits for, unless no body is announced. -/
def Remains (p : ResponseParser) : Prop :=
  ∀ total, p.contentLength = some total → 0 < total →
    ∃ k, p.contentLengthRemaining = some k ∧ 0 < k

theorem Behind.advances {p p' : ResponseParser} (h : Behind p log) (hp : p.Advances p')
    (hremains : Remains p') : Behind p' log := by
  intro loaded total progress hmem htotal
  obtain ⟨hlength, k, hk, -, hle⟩ := h loaded total progress hmem htotal
  have hlength' := hp.contentLength total hlength
  obtain ⟨k', hk', hpos⟩ := hremains total hlength' htotal
  have hkk' := UInt64.le_iff_toNat_le.mp (hp.remaining_antitone k k' hk hk')
  exact ⟨hlength', k', hk', hpos, by omega⟩

/-- What the report between two reads says and what still remains make up the whole. -/
theorem loaded_add_remaining {p p' : ResponseParser} (hp : p.Advances p') (hremains : Remains p')
    {loaded total : UInt64} {progress : Rat}
    (h : .progressed loaded total progress = p'.loadedReport) (htotal : 0 < total) :
    p'.contentLength = some total ∧ ∃ k, p'.contentLengthRemaining = some k ∧ 0 < k ∧
      loaded.toNat + k.toNat = total.toNat := by
  obtain ⟨hlength, hloaded⟩ := ResponseParser.of_loadedReport h htotal
  obtain ⟨k, hk, hpos⟩ := hremains total hlength htotal
  obtain ⟨n, hn, hkn⟩ := hp.remaining_le k hk
  obtain rfl : total = n := Option.some.inj (hlength.symm.trans hn)
  rw [hk, Option.getD_some] at hloaded
  have hsub := UInt64.toNat_sub_of_le total k hkn
  rw [UInt64.le_iff_toNat_le] at hkn
  rw [← hloaded] at hsub
  exact ⟨hlength, k, hk, hpos, by omega⟩

/-- The report between two reads keeps what was reported behind what remains. -/
theorem Behind.concat_loadedReport {p p' : ResponseParser} (h : Behind p log)
    (hp : p.Advances p') (hremains : Remains p') : Behind p' (log ++ [p'.loadedReport]) := by
  intro loaded total progress hmem htotal
  rcases List.mem_append.mp hmem with hmem | hmem
  · exact h.advances hp hremains loaded total progress hmem htotal
  · obtain ⟨hlength, k, hk, hpos, heq⟩ :=
      loaded_add_remaining hp hremains (List.mem_singleton.mp hmem) htotal
    exact ⟨hlength, k, hk, hpos, heq.le⟩

theorem nondecreasing_concat_loadedReport {p p' : ResponseParser} (h : Behind p log)
    (hlog : Nondecreasing log) (hp : p.Advances p') (hremains : Remains p') :
    Nondecreasing (log ++ [p'.loadedReport]) := by
  refine hlog.concat fun loaded total progress hreport htotal loaded' total' progress' hmem
    htotal' => ?_
  obtain ⟨hlength, k, hk, -, heq⟩ := loaded_add_remaining hp hremains hreport.symm htotal
  obtain ⟨hlength', k', hk', -, hle⟩ :=
    h.advances hp hremains loaded' total' progress' hmem htotal'
  -- both reports are about one length and one remainder
  obtain rfl := Option.some.inj (hlength.symm.trans hlength')
  obtain rfl := Option.some.inj (hk.symm.trans hk')
  rw [UInt64.le_iff_toNat_le]
  omega

/-! ## The steps -/

/-- Where a session stands that waits for an operation. -/
structure Reading (s : AsyncSession) : Prop where
  progressFunc : s.progressFunc = true
  waits : ∃ op, s.pending = [op]
  unfinished : Unfinished s.log
  behind : Behind s.response s.log

theorem reading_startedWith (request : BaseRequest) (onError onSuccess : Bool) :
    Reading (startedWith request onError onSuccess) where
  progressFunc := rfl
  waits := ⟨.resolve, rfl⟩
  unfinished := {
    part := fun loaded total progress hmem => by cases List.mem_singleton.mp hmem
    nondecreasing := List.Pairwise.nil
    unreported := fun message n hmem => by cases List.mem_singleton.mp hmem }
  behind loaded total progress hmem := by cases List.mem_singleton.mp hmem

/-- A read that leaves the parser waiting, in the header or in the body. -/
theorem Reading.readsOn (h : Reading s) (hp : s.response.Advances c.response)
    (hremains : Remains c.response) (op' : Operation) : Reading { s with
      response := c.response, pending := [op'],
      log := s.log ++ .completed op c.ec :: c.response.loadedReport :: [.started op'] } := by
  have hcompleted : ∀ e ∈ [SessionEvent.completed op c.ec], e.isQuiet = true := by
    simp [SessionEvent.isQuiet]
  have hstarted : ∀ e ∈ [SessionEvent.started op'], e.isQuiet = true := by
    simp [SessionEvent.isQuiet]
  have hlog : s.log ++ .completed op c.ec :: c.response.loadedReport :: [.started op'] =
      s.log ++ [.completed op c.ec] ++ [c.response.loadedReport] ++ [.started op'] := by simp
  have hunfinished := h.unfinished.append_quiet hcompleted
  have hbehind := (h.behind.append_quiet hcompleted).concat_loadedReport hp hremains
  have hreported : Unfinished (s.log ++ [.completed op c.ec] ++ [c.response.loadedReport]) := {
    part := fun loaded total progress hmem htotal => hbehind.part hmem htotal
    nondecreasing := nondecreasing_concat_loadedReport (h.behind.append_quiet hcompleted)
      hunfinished.nondecreasing hp hremains
    unreported := fun message n hmem => by
      rcases List.mem_append.mp hmem with hmem | hmem
      · exact hunfinished.unreported message n hmem
      · have hprogress := c.response.isProgress_loadedReport
        rw [← List.mem_singleton.mp hmem] at hprogress
        cases hprogress }
  rw [hlog]
  exact ⟨h.progressFunc, ⟨op', rfl⟩, hreported.append_quiet hstarted,
    hbehind.append_quiet hstarted⟩

/-- A stage before the reading, which reports nothing. -/
theorem Reading.goesOn (h : Reading s) (op' : Operation) : Reading { s with
    pending := [op'], log := s.log ++ [.completed op c.ec, .started op'] } := by
  have hquiet : ∀ e ∈ [SessionEvent.completed op c.ec, .started op'], e.isQuiet = true := by
    simp [SessionEvent.isQuiet]
  exact ⟨h.progressFunc, ⟨op', rfl⟩, h.unfinished.append_quiet hquiet,
    h.behind.append_quiet hquiet⟩

/-- Nothing was reported that exceeds the report of the whole. -/
theorem Behind.le_of_doneReport {p p' : ResponseParser} (h : Behind p log) (hp : p.Advances p')
    {loaded total loaded' total' : UInt64} {progress progress' : Rat}
    (hreport : .progressed loaded total progress = p'.doneReport) (htotal : 0 < total)
    (hmem : .progressed loaded' total' progress' ∈ log) (htotal' : 0 < total') :
    loaded' ≤ loaded := by
  obtain ⟨hlength, rfl, -⟩ := ResponseParser.of_doneReport hreport htotal
  have hlength' := hp.contentLength total' (h loaded' total' progress' hmem htotal').1
  obtain rfl := Option.some.inj (hlength.symm.trans hlength')
  exact UInt64.le_of_lt (h.part hmem htotal)

/-- A report of all that is loaded can only be the one that closes the log. -/
theorem Unfinished.doneReport_of_total (h : Unfinished log) {p : ResponseParser}
    (htold : ∀ e ∈ told, e.isProgress = false) {total : UInt64} {progress : Rat}
    (htotal : 0 < total) {before after : List SessionEvent}
    (heq : log ++ p.doneReport :: told = before ++ .progressed total total progress :: after) :
    progress = 1 ∧ told = after := by
  have hbefore : .progressed total total progress ∉ log := fun hmem =>
    UInt64.lt_irrefl total (h.part total total progress hmem htotal)
  have hafter : .progressed total total progress ∉ told := fun hmem => by
    cases htold _ hmem
  obtain ⟨-, hreport, hrest⟩ := (List.append_cons_inj_of_notMem hbefore hafter).mp heq
  obtain ⟨-, -, hprogress⟩ := ResponseParser.of_doneReport hreport.symm htotal
  exact ⟨hprogress, hrest⟩

/-- Success stands once in the log, after the report that closes it. -/
theorem Unfinished.doneReport_of_success (h : Unfinished log) {p : ResponseParser}
    {message message' : BeastResponse} {n n' : ℕ} {before after : List SessionEvent}
    (heq : log ++ p.doneReport :: s.successReport message' n' =
      before ++ .reported (.success message n) :: after) : before = log ++ [p.doneReport] := by
  have hbefore : .reported (.success message n) ∉ log ++ [p.doneReport] := fun hmem => by
    rcases List.mem_append.mp hmem with hmem | hmem
    · exact h.unreported message n hmem
    · have hprogress := p.isProgress_doneReport
      rw [← List.mem_singleton.mp hmem] at hprogress
      cases hprogress
  rw [List.append_cons, successReport] at heq
  split at heq
  · exact ((List.append_cons_inj_of_notMem hbefore List.not_mem_nil).mp heq).1.symm
  · have hmem : .reported (.success message n) ∈ log ++ [p.doneReport] := by
      rw [← List.append_nil (log ++ [p.doneReport]), heq]
      simp
    exact absurd hmem hbefore

/-- The read that completes the response reports all of it and then success. -/
theorem Reading.finishes (h : Reading s) (hp : s.response.Advances c.response)
    (hdone : c.response.isDone = true) : ProgressSound { s with
      response := c.response, pending := [],
      log := s.log ++ .completed op c.ec :: c.response.doneReport ::
        s.successReport c.response.message c.bytesTransferred } := by
  have hcompleted : ∀ e ∈ [SessionEvent.completed op c.ec], e.isQuiet = true := by
    simp [SessionEvent.isQuiet]
  have hunfinished := h.unfinished.append_quiet hcompleted
  have hbehind := h.behind.append_quiet hcompleted
  have hnot : ∀ e ∈ s.successReport c.response.message c.bytesTransferred,
      e.isProgress = false := fun e he => by
    rw [eq_of_mem_successReport he]
    rfl
  rw [List.append_cons s.log]
  exact {
    bounded := fun loaded total progress hmem htotal => by
      rcases List.mem_append.mp hmem with hmem | hmem
      · exact UInt64.le_of_lt (hunfinished.part loaded total progress hmem htotal)
      · rcases List.mem_cons.mp hmem with hreport | hmem
        · obtain ⟨-, rfl, -⟩ := ResponseParser.of_doneReport hreport htotal
          exact UInt64.le_refl loaded
        · cases hnot _ hmem
    nondecreasing := by
      have hconcat := hunfinished.nondecreasing.concat
        fun loaded total progress hreport htotal loaded' total' progress' =>
          hbehind.le_of_doneReport hp hreport.symm htotal
      have hnone : ∀ e ∈ s.successReport c.response.message c.bytesTransferred,
          e.loaded = none := fun e he => by
        rw [eq_of_mem_successReport he]
        rfl
      have happend := hconcat.append hnone
      rw [← List.append_cons] at happend
      exact happend
    done_of_total := fun before total progress after heq htotal => by
      obtain ⟨hprogress, rfl⟩ := hunfinished.doneReport_of_total hnot htotal heq
      exact ⟨hdone, hprogress, c.bytesTransferred, rfl⟩
    total_of_success := fun before message n after heq total hlength htotal => by
      rw [hunfinished.doneReport_of_success heq,
        ResponseParser.doneReport_of_contentLength hlength htotal]
      exact ⟨_, rfl⟩ }

/-- Where a session stands: it waits for an operation, or it is over. -/
def Stands (s : AsyncSession) : Prop := Reading s ∨ s.pending = [] ∧ ProgressSound s

theorem Stands.progressSound (h : Stands s) : ProgressSound s :=
  h.elim (fun hreading => hreading.unfinished.progressSound) And.right

/-- Only a session that waits for the operation takes a step. -/
theorem Stands.outcome {x : Operation × Completion} (h : Stands s) (hstep : Step s x s') :
    Reading s ∧ Outcome s x.1 x.2 s' := by
  obtain ⟨op, c, hop⟩ := hstep
  rcases h with h | ⟨hpending, -⟩
  · obtain ⟨op', hwaits⟩ := h.waits
    rw [hwaits] at hop
    obtain rfl := List.mem_singleton.mp hop
    exact ⟨h, outcome_complete hwaits h.progressFunc c⟩
  · rw [hpending] at hop
    cases hop

/-- A step that does not stop before the body keeps the progress sound. -/
theorem Stands.step {x : Operation × Completion} (h : Stands s) (hstep : Step s x s')
    (hp : ParserAdvances s x) (hG : ¬ StopsBeforeBody x) : Stands s' := by
  obtain ⟨hreading, houtcome⟩ := h.outcome hstep
  cases houtcome with
  | goesOn op' hread heq =>
    rw [heq]
    exact .inl (hreading.goesOn op')
  | ends response told hcause hquiet heq =>
    rw [heq]
    exact .inr ⟨rfl, (hreading.unfinished.append_quiet hquiet).progressSound⟩
  | readsOn op' hread hec hdone heq =>
    have hremains : Remains x.2.response := by
      intro total hlength htotal
      cases hk : x.2.response.contentLengthRemaining with
      | none => exact absurd ⟨hread, hec, hdone, by rw [hlength]; exact htotal, hk⟩ hG
      | some k => exact ⟨k, rfl, (hp hread).remaining_pos k hk hdone⟩
    rw [heq]
    exact .inl (hreading.readsOn (hp hread) hremains op')
  | finishes hread hdone heq =>
    rw [heq]
    exact .inr ⟨rfl, hreading.finishes (hp hread) hdone⟩

/-- A step that stops before the body reports all of it with the parser not done. -/
theorem Stands.not_progressSound {x : Operation × Completion} (h : Stands s)
    (hstep : Step s x s') (hG : StopsBeforeBody x) : ¬ ProgressSound s' := by
  obtain ⟨-, houtcome⟩ := h.outcome hstep
  obtain ⟨hread, hec, hdone, htotal, hremaining⟩ := hG
  intro hsound
  cases houtcome with
  | goesOn op' hread' heq =>
    rw [hread] at hread'
    cases hread'
  | ends response told hcause hquiet heq =>
    rw [hec, hdone] at hcause
    simp at hcause
  | readsOn op' hread hec hdone heq =>
    obtain ⟨progress, hreport⟩ := ResponseParser.loadedReport_of_none hremaining htotal
    rw [List.append_cons, hreport] at heq
    have hdone' := (hsound.done_of_total _ _ progress _ (by rw [heq]) htotal).1
    rw [heq, hdone] at hdone'
    cases hdone'
  | finishes hread hdone' heq =>
    rw [hdone] at hdone'
    cases hdone'

/-! ## Over a whole run -/

/-- **When download progress is sound, exactly.** Along a run of a session with a progress
callback, over a parser that advances, the progress is sound in every state if and only if
no read ends between the header and the body. -/
theorem always_progressSound_iff {request : BaseRequest} {onError onSuccess : Bool}
    {tr : List ((Operation × Completion) × AsyncSession)}
    (hr : Run Step (startedWith request onError onSuccess) tr)
    (hp : Guarded ParserAdvances (startedWith request onError onSuccess) tr) :
    Always ProgressSound (startedWith request onError onSuccess) tr ↔
      Guarded (fun _ x => ¬ StopsBeforeBody x) (startedWith request onError onSuccess) tr := by
  refine (hr.restrict hp).always_iff_guarded (.inl (reading_startedWith _ _ _))
    (fun s (h : Stands s) => h.progressSound) ?_ ?_
  · intro s x s' h hG hstep
    exact h.step hstep.1 hstep.2 hG
  · intro s x s' h hG hstep
    exact h.not_progressSound hstep.1 (not_not.mp hG)

/-- A response of five bytes: the first read ends in the header or behind it, the next one
within the body, and the last one completes the response. -/
def fiveBytes (headerOnly : Bool) : List (Operation × Completion) :=
  let first : ResponseParser := if headerOnly then { contentLength := some 5 } else {}
  [(.resolve, {}), (.connect, {}), (.write .raw, {}),
    (.readSome .raw, { response := first }),
    (.readSome .raw, { response :=
      { contentLength := some 5, contentLengthRemaining := some 3 } }),
    (.readSome .raw, { response := { isDone := true, contentLength := some 5 } })]

/-- The parser advances from each read to the next, whichever way the first one ends. -/
theorem parserAdvances_fiveBytes (headerOnly : Bool) :
    Guarded ParserAdvances (startedWith {} true true)
      (runOf (startedWith {} true true) (fiveBytes headerOnly)) := by
  have hfirst (p : ResponseParser) (h : p.contentLengthRemaining = none) :
      ResponseParser.Advances {} p := ⟨nofun, by simp [h], nofun, by simp [h]⟩
  have hsecond (p : ResponseParser) (h : p.contentLengthRemaining = none)
      (hlength : p.contentLength = none ∨ p.contentLength = some 5) :
      p.Advances { contentLength := some 5, contentLengthRemaining := some 3 } := by
    refine ⟨?_, ?_, by simp [h], ?_⟩
    · rcases hlength with hlength | hlength
      · simp [hlength]
      · simp [hlength]
    · rintro k ⟨⟩
      exact ⟨5, rfl, by decide⟩
    · rintro k ⟨⟩ -
      decide
  have hthird : ResponseParser.Advances
      { contentLength := some 5, contentLengthRemaining := some 3 }
      { isDone := true, contentLength := some 5 } :=
    ⟨fun n hn => hn, nofun, nofun, nofun⟩
  cases headerOnly with
  | true =>
    exact ⟨nofun, nofun, nofun, fun _ => hfirst _ rfl, fun _ => hsecond _ rfl (.inr rfl),
      fun _ => hthird, trivial⟩
  | false =>
    exact ⟨nofun, nofun, nofun, fun _ => hfirst _ rfl, fun _ => hsecond _ rfl (.inl rfl),
      fun _ => hthird, trivial⟩

/-- With the first read ending in the header the progress is sound. -/
theorem progressSound_fiveBytes :
    Always ProgressSound (startedWith {} true true)
      (runOf (startedWith {} true true) (fiveBytes false)) := by
  refine (always_progressSound_iff (run_runOf (by decide)) (parserAdvances_fiveBytes false)).mpr
    ⟨?_, ?_, ?_, ?_, ?_, ?_, trivial⟩
  all_goals simp [StopsBeforeBody, Operation.isRead]

/-- With the first read ending behind the header five of five bytes are reported before any
of them has come. -/
theorem fiveBytes_announced_early :
    Run Step (startedWith {} true true)
        (runOf (startedWith {} true true) (fiveBytes true)) ∧
      Guarded ParserAdvances (startedWith {} true true)
        (runOf (startedWith {} true true) (fiveBytes true)) ∧
      ¬ Always ProgressSound (startedWith {} true true)
        (runOf (startedWith {} true true) (fiveBytes true)) := by
  refine ⟨run_runOf (by decide), parserAdvances_fiveBytes true, fun h => ?_⟩
  have hread : ProgressSound _ := h.2.2.2.2.head
  obtain ⟨progress, hreport⟩ : ∃ progress,
      ResponseParser.loadedReport { contentLength := some 5 } = .progressed 5 5 progress :=
    ResponseParser.loadedReport_of_none rfl (by decide)
  have hdone := (hread.done_of_total
    [.started .resolve, .completed .resolve {}, .started .connect, .completed .connect {},
      .started (.write .raw), .completed (.write .raw) {}, .started (.readSome .raw),
      .completed (.readSome .raw) {}]
    5 progress [.started (.readSome .raw)] (by rw [← hreport]; rfl) (by decide)).1
  cases hdone

end AsyncSession

end Httb
