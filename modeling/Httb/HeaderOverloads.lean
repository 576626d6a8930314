import Httb.Foundation.Runs
import Httb.HeaderLoading
import Httb.RemoveHeader

/-!
# The Overloads of add_header

`io_container` has three overloads of `add_header`, and a `set_header` that does the same where
no name is stored twice (`src/io_container.cpp`). They differ in how a new name is stored: two
of them store it in lower case, the others as it is.

## Layers

- `AddOverload`: the overloads, and `headers_apply` for what each of them leaves
- `Observed`: all that a caller can see of a container
- `SameObservations`: a run of calls looks the same whichever overloads its additions use
- `overloads_interchangeable_iff`: when they leave the same headers, and when the choice does
  not show in a run
-/

namespace Httb

open Httb.Foundation

/-- `add_header(name, value)`, `add_header(const kv&)`, `add_header(kv&&)`, `set_header(kv&&)`. -/
inductive AddOverload where
  | strings | copy | move | set
  deriving DecidableEq

variable [Toolbox]

namespace AddOverload

/-- What the code does. -/
def apply (c : IoContainer) (kv : Kv) : AddOverload → IoContainer
  | .strings => c.addHeader kv.1 kv.2
  | .copy => c.addHeaderCopy kv
  | .move => c.addHeaderMove kv
  | .set => c.setHeader kv

/-- `set_header` does the same as the others on distinct names only. -/
def Allowed (c : IoContainer) : AddOverload → Prop
  | .set => DistinctNames c.headers
  | _ => True

theorem allowed_of_distinctNames {c : IoContainer} (h : DistinctNames c.headers)
    (o : AddOverload) : o.Allowed c := by
  cases o with
  | strings => trivial
  | copy => trivial
  | move => trivial
  | set => exact h

/-- The spelling in which a new name is stored. -/
def storedName (name : Str) : AddOverload → Str
  | .strings | .copy => toLowerCase name
  | .move | .set => name

end AddOverload

/-- The overloads leave the same headers. -/
def Interchangeable (c : IoContainer) (kv : Kv) : Prop :=
  ∀ o o' : AddOverload, o.Allowed c → o'.Allowed c →
    (o.apply c kv).headers = (o'.apply c kv).headers

/-! ## Runs -/

/-- All that a caller can see of the headers; of `remove_header` the entries that it matches
when it compares the case, too. -/
structure Observed where
  getHeaders : KvVector
  getHeadersGlued : List Str
  headersSize : ℕ
  hasHeaders : Bool
  hasHeader : Str → Bool
  findHeaderPair : Str → Option Kv
  getHeaderValue : Str → Str
  cmpHeaderValue : Str → Str → Bool
  removeHeader : Str → IoContainer.Removal

/-- What is seen of a container. -/
def IoContainer.observe (beyond : ℕ → Kv) (c : IoContainer) : Observed where
  getHeaders := c.getHeaders
  getHeadersGlued := c.getHeadersGlued
  headersSize := c.headersSize
  hasHeaders := c.hasHeaders
  hasHeader := c.hasHeader
  findHeaderPair := c.findHeaderPair
  getHeaderValue := c.getHeaderValue
  cmpHeaderValue := c.cmpHeaderValue
  removeHeader name := c.removeHeader beyond name false

/-- A call on a container: an addition by one of the overloads, or any other call. -/
inductive ContainerCall where
  | add (kv : Kv)
  | header (op : HeaderOp)
  | removeHeader (name : Str) (icase : Bool)
  | clearBody

/-- What the call does, when additions use the overload. -/
def ContainerCall.apply (beyond : ℕ → Kv) (o : AddOverload) (c : IoContainer) :
    ContainerCall → IoContainer
  | .add kv => o.apply c kv
  | .header op => op.apply c
  | .removeHeader name icase => { c with headers := (c.removeHeader beyond name icase).headers }
  | .clearBody => c.clearBody

/-- Calls, with the overload that each of them uses if it is an addition. -/
abbrev ContainerRun := List (AddOverload × ContainerCall)

namespace ContainerRun

/-- What is seen before the run and after each of its calls. -/
def observations (beyond : ℕ → Kv) : IoContainer → ContainerRun → List Observed
  | c, [] => [c.observe beyond]
  | c, (o, call) :: run => c.observe beyond :: observations beyond (call.apply beyond o c) run

/-- `set_header` stands in only where it may. -/
def Admissible (beyond : ℕ → Kv) : IoContainer → ContainerRun → Prop
  | _, [] => True
  | c, (o, call) :: run => o.Allowed c ∧ Admissible beyond (call.apply beyond o c) run

end ContainerRun

/-- Whichever overloads the additions use, the same is seen. -/
def SameObservations (beyond : ℕ → Kv) (c : IoContainer) (calls : List ContainerCall) : Prop :=
  ∀ run run' : ContainerRun, run.map Prod.snd = calls → run'.map Prod.snd = calls →
    ContainerRun.Admissible beyond c run → ContainerRun.Admissible beyond c run' →
      ContainerRun.observations beyond c run = ContainerRun.observations beyond c run'

/-- A header of the name is there already, or the name is in lower case. -/
def KeepsSpelling (c : IoContainer) (name : Str) : Prop :=
  c.hasHeader name = true ∨ toLowerCase name = name

/-- The call is no addition, or the spelling of its name is kept. -/
def ContainerCall.KeepsSpelling (c : IoContainer) : ContainerCall → Prop
  | .add kv => Httb.KeepsSpelling c kv.1
  | _ => True

/-- The states that a run leads through when the additions use `add_header(name, value)`. -/
abbrev containerTrace (beyond : ℕ → Kv) (c : IoContainer) (calls : List ContainerCall) :
    List (ContainerCall × IoContainer) :=
  traceOf (fun c call => call.apply beyond .strings c) c calls

/-! ## One addition -/

section Addition

variable {c : IoContainer} {kv : Kv} {o : AddOverload}

theorem overwriteFirst_eq_none_iff_hasHeader {name value : Str} :
    overwriteFirst (fun n => equalsIcase n name) value c.headers = none ↔
      c.hasHeader name = false := by
  rw [overwriteFirst_eq_none_iff, IoContainer.hasHeader, List.any_eq_false]
  simp only [Bool.not_eq_true]

/-- **What an addition leaves**: the first header of the name is overwritten, a new one is
appended in the spelling of the overload. -/
theorem headers_apply (ho : o.Allowed c) (kv : Kv) :
    (o.apply c kv).headers =
      (overwriteFirst (fun n => equalsIcase n kv.1) kv.2 c.headers).getD
        (c.headers ++ [(o.storedName kv.1, kv.2)]) := by
  cases o with
  | strings => exact IoContainer.headers_addHeader c kv.1 kv.2
  | copy => exact IoContainer.headers_addHeader c kv.1 kv.2
  | move => exact IoContainer.headers_addHeaderMove c kv
  | set =>
    rw [AddOverload.apply, AddOverload.storedName]
    rcases c.setHeader_cases kv with ⟨⟨h, hh, heq⟩, hset⟩ | ⟨habsent, hset⟩
    · -- there is one header of the name, so going on after it changes nothing
      have hkey : toLowerCase kv.1 ∈ c.headers.map fun e => toLowerCase e.1 :=
        List.mem_map.mpr ⟨h, hh, (Toolbox.equalsIcase_iff _ _).mp heq⟩
      rw [hset, equalsIcase_right,
        overwriteFirst_eq_some_overwriteAll kv.2 ((distinctNames_iff _).mp ho) hkey,
        Option.getD_some]
    · rw [hset, overwriteFirst_eq_none_iff.mpr habsent, Option.getD_none]

theorem body_apply (o : AddOverload) (c : IoContainer) (kv : Kv) :
    (o.apply c kv).body = c.body := by
  cases o with
  | strings => exact IoContainer.body_addHeader c kv.1 kv.2
  | copy => exact IoContainer.body_addHeader c kv.1 kv.2
  | move => exact IoContainer.body_addHeaderMove c kv
  | set => exact IoContainer.body_setHeader c kv

/-- Where the spelling is kept, all overloads leave the same headers. -/
theorem headers_apply_of_keeps (h : KeepsSpelling c kv.1) (ho : o.Allowed c) :
    (o.apply c kv).headers = (AddOverload.strings.apply c kv).headers := by
  rw [headers_apply ho, headers_apply (o := .strings) trivial]
  rcases h with hhas | hlower
  · -- nothing is appended
    cases hfirst : overwriteFirst (fun n => equalsIcase n kv.1) kv.2 c.headers with
    | some headers => rfl
    | none =>
      rw [overwriteFirst_eq_none_iff_hasHeader, hhas] at hfirst
      cases hfirst
  · have hstored (o : AddOverload) : o.storedName kv.1 = kv.1 := by
      cases o with
      | strings => exact hlower
      | copy => exact hlower
      | move => rfl
      | set => rfl
    rw [hstored, hstored]

/-- Where it is not, moving a pair leaves another spelling. -/
theorem keeps_of_headers_eq
    (h : (AddOverload.strings.apply c kv).headers = (AddOverload.move.apply c kv).headers) :
    KeepsSpelling c kv.1 := by
  rw [headers_apply (o := .strings) trivial, headers_apply (o := .move) trivial] at h
  cases hhas : c.hasHeader kv.1 with
  | true => exact .inl hhas
  | false =>
    rw [overwriteFirst_eq_none_iff_hasHeader.mpr hhas, Option.getD_none, Option.getD_none] at h
    have hlast := List.singleton_inj.mp (List.append_cancel_left h)
    exact .inr (congrArg Prod.fst hlast)

theorem interchangeable_iff (c : IoContainer) (kv : Kv) :
    Interchangeable c kv ↔ KeepsSpelling c kv.1 := by
  constructor
  · intro h
    exact keeps_of_headers_eq (h .strings .move trivial trivial)
  · intro h o o' ho ho'
    rw [headers_apply_of_keeps h ho, headers_apply_of_keeps h ho']

end Addition

/-! ## Runs of calls -/

section Calls

variable {beyond : ℕ → Kv} {c : IoContainer} {o : AddOverload} {call : ContainerCall}

/-- Where the spelling is kept, the overload makes no difference. -/
theorem apply_of_keeps (h : call.KeepsSpelling c) (ho : o.Allowed c) :
    call.apply beyond o c = call.apply beyond .strings c := by
  cases call with
  | add kv =>
    have hheaders := headers_apply_of_keeps h ho
    have hbody := (body_apply o c kv).trans (body_apply .strings c kv).symm
    rw [ContainerCall.apply, ContainerCall.apply]
    exact congrArg₂ IoContainer.mk hheaders hbody
  | header op => rfl
  | removeHeader name icase => rfl
  | clearBody => rfl

/-- Where it is not, the overload shows in the headers. -/
theorem keeps_of_apply_eq
    (h : (call.apply beyond .strings c).headers = (call.apply beyond .move c).headers) :
    call.KeepsSpelling c := by
  cases call with
  | add kv => exact keeps_of_headers_eq h
  | header op => trivial
  | removeHeader name icase => trivial
  | clearBody => trivial

/-- The first thing that is seen in a run. -/
theorem ContainerRun.head?_observations (c : IoContainer) (run : ContainerRun) :
    (run.observations beyond c).head? = some (c.observe beyond) := by
  cases run <;> rfl

/-- The same overload for all additions. -/
def ContainerRun.uniform (o : AddOverload) (calls : List ContainerCall) : ContainerRun :=
  calls.map fun call => (o, call)

omit [Toolbox] in
theorem ContainerRun.map_snd_uniform (o : AddOverload) (calls : List ContainerCall) :
    (uniform o calls).map Prod.snd = calls := by
  rw [uniform, List.map_map]
  exact List.map_id calls

theorem ContainerRun.admissible_strings (c : IoContainer) (calls : List ContainerCall) :
    Admissible beyond c (uniform .strings calls) := by
  induction calls generalizing c with
  | nil => trivial
  | cons call calls ih => exact ⟨trivial, ih _⟩

/-- From distinct names on, `set_header` may stand in for every addition: no call stores a name
twice. -/
theorem ContainerRun.admissible_of_distinctNames (h : DistinctNames c.headers)
    (run : ContainerRun) : run.Admissible beyond c := by
  induction run generalizing c with
  | nil => trivial
  | cons x run ih =>
    obtain ⟨o, call⟩ := x
    refine ⟨o.allowed_of_distinctNames h, ih ?_⟩
    cases call with
    | add kv =>
      cases o with
      | strings => exact HeaderOp.distinctNames_apply h (.addHeader kv.1 kv.2)
      | copy => exact HeaderOp.distinctNames_apply h (.addHeaderCopy kv)
      | move => exact HeaderOp.distinctNames_apply h (.addHeaderMove kv)
      | set => exact HeaderOp.distinctNames_apply h (.setHeader kv)
    | header op => exact HeaderOp.distinctNames_apply h op
    | removeHeader name icase => exact h.sublist (IoContainer.removeHeaderLoop_sublist ..)
    | clearBody => exact h

end Calls

section Runs

variable {beyond : ℕ → Kv} {c : IoContainer} {calls : List ContainerCall}

theorem sameObservations_nil : SameObservations beyond c [] := by
  intro run run' hrun hrun' _ _
  rw [List.map_eq_nil_iff.mp hrun, List.map_eq_nil_iff.mp hrun']

/-- The choice for the first call does not show, nor does one for the others. -/
theorem sameObservations_cons_iff {call : ContainerCall} :
    SameObservations beyond c (call :: calls) ↔
      call.KeepsSpelling c ∧ SameObservations beyond (call.apply beyond .strings c) calls := by
  constructor
  · intro h
    constructor
    · -- the headers after the first call are seen
      have hsame := h ((.strings, call) :: ContainerRun.uniform .strings calls)
        ((.move, call) :: ContainerRun.uniform .strings calls)
        (congrArg (call :: ·) (ContainerRun.map_snd_uniform _ _))
        (congrArg (call :: ·) (ContainerRun.map_snd_uniform _ _))
        ⟨trivial, ContainerRun.admissible_strings _ _⟩
        ⟨trivial, ContainerRun.admissible_strings _ _⟩
      have hnext := congrArg List.head? (List.cons.inj hsame).2
      rw [ContainerRun.head?_observations, ContainerRun.head?_observations] at hnext
      exact keeps_of_apply_eq (congrArg Observed.getHeaders (Option.some.inj hnext))
    · intro run run' hrun hrun' hadm hadm'
      have hsame := h ((.strings, call) :: run) ((.strings, call) :: run')
        (congrArg (call :: ·) hrun) (congrArg (call :: ·) hrun') ⟨trivial, hadm⟩ ⟨trivial, hadm'⟩
      exact (List.cons.inj hsame).2
  · rintro ⟨hkeeps, hrest⟩ run run' hrun hrun' hadm hadm'
    match run, run', hrun, hrun' with
    | (o, _) :: run, (o', _) :: run', rfl, hrun' =>
      obtain ⟨rfl, htail⟩ := List.cons.inj hrun'
      obtain ⟨ho, hadm⟩ := hadm
      obtain ⟨ho', hadm'⟩ := hadm'
      rw [apply_of_keeps hkeeps ho] at hadm
      rw [apply_of_keeps hkeeps ho'] at hadm'
      rw [ContainerRun.observations, ContainerRun.observations, apply_of_keeps hkeeps ho,
        apply_of_keeps hkeeps ho', hrest run run' rfl htail hadm hadm']

theorem sameObservations_iff (beyond : ℕ → Kv) (c : IoContainer) (calls : List ContainerCall) :
    SameObservations beyond c calls ↔
      Guarded (fun c call => call.KeepsSpelling c) c (containerTrace beyond c calls) := by
  induction calls generalizing c with
  | nil => exact iff_of_true sameObservations_nil trivial
  | cons call calls ih =>
    rw [sameObservations_cons_iff, ih]
    rfl

end Runs

/-! ## Main result -/

/-- **The overloads are interchangeable exactly where the spelling is kept**: an addition
leaves the same headers by all of them if and only if a header of the name is there or the
name is in lower case, and in a run the choice is never seen if and only if that holds
at every addition. -/
theorem overloads_interchangeable_iff (beyond : ℕ → Kv) (c : IoContainer) :
    (∀ kv, Interchangeable c kv ↔ KeepsSpelling c kv.1) ∧
    ∀ calls, SameObservations beyond c calls ↔
      Guarded (fun c call => call.KeepsSpelling c) c (containerTrace beyond c calls) :=
  ⟨interchangeable_iff c, sameObservations_iff beyond c⟩

omit [Toolbox] in
/-- A new name with a capital: two strings are stored in lower case, a pair that is moved as it
is, and only the latter is found by `remove_header` when it compares the case. -/
theorem overloads_store_other_names :
    letI := Toolbox.reference
    let kv : Kv := ("X-A".toList, "1".toList)
    (AddOverload.strings.apply {} kv).headers = [("x-a".toList, "1".toList)] ∧
      (AddOverload.move.apply {} kv).headers = [kv] ∧ ¬ Interchangeable {} kv ∧
      ¬ SameObservations (fun _ => ([], [])) {} [.add kv] := by
  let := Toolbox.reference
  have hspelling : ¬ KeepsSpelling {} "X-A".toList := by
    unfold KeepsSpelling
    decide
  refine ⟨by decide, by decide, ?_, ?_⟩
  · rw [interchangeable_iff]
    exact hspelling
  · rw [sameObservations_cons_iff]
    exact fun h => hspelling h.1

end Httb
