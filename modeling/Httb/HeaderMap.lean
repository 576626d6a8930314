import Httb.IoContainer

/-!
# The Header Store Refines an Ordered Map

What the vector of headers is for: a map from names *up to case* to values that remembers
the order in which the names came. This file shows that every run of the header-writing
operations keeps the vector in step with that map, so that the first-match readers, the
overwrite-first writers and the overwrite-all writer never disagree.

## Architecture

- `HeaderOp`: the operations, with the code's effect (`apply`) and their meaning on
  ordered maps (`meaning`)
- `Represents toLowerCase c.headers m`: the refinement relation
- `HeaderOp.represents_apply` (one operation), `HeaderOp.represents_run` (a run)
- `headerStore_refines_orderedMap`: names, order, values and all readers
-/

namespace Httb

open Httb.Foundation

variable [Toolbox]

/-! ## The operations -/

/-- A call that writes headers. -/
inductive HeaderOp where
  | setHeader (keyValue : Kv)
  | addHeader (name value : Str)
  | addHeaderCopy (kv : Kv)
  | addHeaderMove (kv : Kv)
  | addHeaders (values : KvVector)
  | setHeadersMap (map : IcaseMap)
  | setHeadersMultimap (mmp : IcaseMultimap)
  | setBody (data : Str)
  | clearHeaders

namespace HeaderOp

/-- What the code does. -/
def apply (c : IoContainer) : HeaderOp → IoContainer
  | .setHeader keyValue => c.setHeader keyValue
  | .addHeader name value => c.addHeader name value
  | .addHeaderCopy kv => c.addHeaderCopy kv
  | .addHeaderMove kv => c.addHeaderMove kv
  | .addHeaders values => c.addHeaders values
  | .setHeadersMap map => c.setHeadersMap map
  | .setHeadersMultimap mmp => c.setHeadersMultimap mmp
  | .setBody data => c.setBody data
  | .clearHeaders => c.clearHeaders

/-- The name/value pairs an operation writes, in order. -/
def writes : HeaderOp → KvVector
  | .setHeader kv | .addHeaderCopy kv | .addHeaderMove kv => [kv]
  | .addHeader name value => [(name, value)]
  | .addHeaders values => values
  | .setHeadersMap map => map.entries
  | .setHeadersMultimap mmp => mmp.entries
  | .setBody data => [("Content-Length".toList, decimal data.length)]
  | .clearHeaders => []

/-- The pairs written by a run since headers were last cleared. -/
def writesSinceClear (ops : List HeaderOp) : KvVector :=
  ops.foldl (fun ws op => match op with | .clearHeaders => [] | op => ws ++ op.writes) []

/-- A pair, filed under its name in lower case. -/
def keyed (kv : Kv) : Kv := (toLowerCase kv.1, kv.2)

/-- What an operation means for the ordered map. -/
def meaning (m : OrderedMap Str Str) : HeaderOp → OrderedMap Str Str
  | .clearHeaders => OrderedMap.empty
  | op => m.insertAll (op.writes.map keyed)

/-- A run of the code, starting from an empty container. -/
def run (ops : List HeaderOp) : IoContainer := ops.foldl apply {}

/-- The same run on the ordered map. -/
def runAbstract (ops : List HeaderOp) : OrderedMap Str Str := ops.foldl meaning OrderedMap.empty

end HeaderOp

/-! ## One operation -/

/-- Looking for a name up to case is looking for its lower-cased form. -/
theorem equalsIcase_right (name : Str) :
    (fun n => equalsIcase n name) = fun n => decide (toLowerCase n = toLowerCase name) :=
  funext fun n => equalsIcase_eq_decide n name

section Writers

variable {c : IoContainer} {m : OrderedMap Str Str}

theorem represents_addHeaderMove (h : Represents toLowerCase c.headers m) (kv : Kv) :
    Represents toLowerCase (c.addHeaderMove kv).headers (m.insert (toLowerCase kv.1) kv.2) := by
  rw [IoContainer.headers_addHeaderMove, equalsIcase_right]
  exact h.overwriteFirst_getD rfl kv.2

theorem represents_addHeader (h : Represents toLowerCase c.headers m) (name value : Str) :
    Represents toLowerCase (c.addHeader name value).headers
      (m.insert (toLowerCase name) value) := by
  rw [IoContainer.headers_addHeader, equalsIcase_right]
  exact h.overwriteFirst_getD (toLowerCase_toLowerCase name) value

theorem represents_setHeader (h : Represents toLowerCase c.headers m) (kv : Kv) :
    Represents toLowerCase (c.setHeader kv).headers (m.insert (toLowerCase kv.1) kv.2) := by
  rcases c.setHeader_cases kv with ⟨⟨kv', hmem, heq⟩, hset⟩ | ⟨habsent, hset⟩
  · -- present: the loop overwrites every header of the name, and there is one
    have hk : toLowerCase kv.1 ∈ m.keys :=
      h.keys_eq ▸ List.mem_map.mpr ⟨kv', hmem, (Toolbox.equalsIcase_iff _ _).mp heq⟩
    rw [hset, equalsIcase_right]
    exact h.overwriteAll hk kv.2
  · -- absent: the loop changes nothing, and `add_header` appends the pair
    rw [hset]
    apply h.append
    rw [← h.keys_eq, List.mem_map]
    rintro ⟨kv', hmem, heq⟩
    have hsame := (Toolbox.equalsIcase_iff _ _).mpr heq
    rw [habsent kv' hmem] at hsame
    cases hsame

theorem represents_foldl_addHeader (values : KvVector) (h : Represents toLowerCase c.headers m) :
    Represents toLowerCase (values.foldl (fun c h => c.addHeader h.1 h.2) c).headers
      (m.insertAll (values.map HeaderOp.keyed)) := by
  induction values generalizing c m with
  | nil => exact h
  | cons kv values ih => exact ih (represents_addHeader h kv.1 kv.2)

end Writers

namespace HeaderOp

/-- Each operation of the code follows its meaning on the ordered map. -/
theorem represents_apply {c : IoContainer} {m : OrderedMap Str Str}
    (h : Represents toLowerCase c.headers m) (op : HeaderOp) :
    Represents toLowerCase (op.apply c).headers (op.meaning m) := by
  cases op with
  | setHeader kv => exact represents_setHeader h kv
  | addHeader name value => exact represents_addHeader h name value
  | addHeaderCopy kv => exact represents_addHeader h kv.1 kv.2
  | addHeaderMove kv => exact represents_addHeaderMove h kv
  | addHeaders values => exact represents_foldl_addHeader values h
  | setHeadersMap map => exact represents_foldl_addHeader map.entries h
  | setHeadersMultimap mmp => exact represents_foldl_addHeader mmp.entries h
  | setBody data => exact represents_setHeader (c := { c with body := data }) h _
  | clearHeaders => exact Represents.nil

/-! ## Runs -/

/-- A run from any represented state. -/
theorem represents_foldl {c : IoContainer} {m : OrderedMap Str Str}
    (h : Represents toLowerCase c.headers m) (ops : List HeaderOp) :
    Represents toLowerCase (ops.foldl apply c).headers (ops.foldl meaning m) := by
  induction ops generalizing c m with
  | nil => exact h
  | cons op ops ih => exact ih (represents_apply h op)

/-- A run of the code stays in step with the run on the ordered map. -/
theorem represents_run (ops : List HeaderOp) :
    Represents toLowerCase (run ops).headers (runAbstract ops) :=
  represents_foldl Represents.nil ops

private theorem meaning_insertAll (ws : KvVector) (op : HeaderOp) :
    meaning (OrderedMap.empty.insertAll (ws.map keyed)) op =
      OrderedMap.empty.insertAll
        ((match op with | .clearHeaders => [] | op => ws ++ op.writes).map keyed) := by
  cases op <;> simp [meaning, writes, OrderedMap.insertAll_append]

/-- The ordered map of a run holds the writes since the last clear, and nothing else. -/
theorem runAbstract_eq_insertAll (ops : List HeaderOp) :
    runAbstract ops = OrderedMap.empty.insertAll ((writesSinceClear ops).map keyed) := by
  -- a run goes on from the writes it has seen so far
  suffices h : ∀ ws : KvVector,
      ops.foldl meaning (OrderedMap.empty.insertAll (ws.map keyed)) =
        OrderedMap.empty.insertAll
          ((ops.foldl (fun ws op => match op with | .clearHeaders => [] | op => ws ++ op.writes)
            ws).map keyed) from h []
  induction ops with
  | nil => intro ws; rfl
  | cons op ops ih =>
    intro ws
    rw [List.foldl_cons, List.foldl_cons, meaning_insertAll, ih]

end HeaderOp

/-! ## Readers -/

/-- Names that differ up to case are different keys. -/
theorem pairwise_names_iff (headers : KvVector) :
    (headers.Pairwise fun a b => equalsIcase a.1 b.1 = false) ↔
      (headers.map fun h => toLowerCase h.1).Nodup := by
  rw [List.Nodup, List.pairwise_map]
  simp only [equalsIcase_eq_decide, decide_eq_false_iff_not, ne_eq]

section Readers

variable {c : IoContainer} {m : OrderedMap Str Str} (h : Represents toLowerCase c.headers m)
include h

theorem hasHeader_eq_contains (name : Str) :
    c.hasHeader name = m.contains (toLowerCase name) := by
  rw [IoContainer.hasHeader, ← h.any_eq_contains]
  simp only [equalsIcase_eq_decide]

theorem findHeaderPair_eq_value (name : Str) :
    (c.findHeaderPair name).map HeaderOp.keyed =
      (m.value (toLowerCase name)).map fun value => (toLowerCase name, value) := by
  rw [IoContainer.findHeaderPair, ← h.find_eq]
  simp only [equalsIcase_eq_decide]
  cases hf : c.headers.find? fun e => decide (toLowerCase e.1 = toLowerCase name) with
  | none => rfl
  | some e =>
    -- the pair keeps the spelling it was stored with, so it is filed under the lower-cased name
    have hkey := List.find?_some hf
    simp only [decide_eq_true_eq] at hkey
    simp [HeaderOp.keyed, hkey]

theorem getHeaderValue_eq_value (name : Str) :
    c.getHeaderValue name = (m.value (toLowerCase name)).getD [] := by
  rw [IoContainer.getHeaderValue, ← h.find_eq]
  simp only [equalsIcase_eq_decide]
  cases c.headers.find? fun e => decide (toLowerCase e.1 = toLowerCase name) <;> rfl

theorem cmpHeaderValue_eq_value (name comparable : Str) :
    c.cmpHeaderValue name comparable = (m.value (toLowerCase name) == some comparable) := by
  rw [IoContainer.cmpHeaderValue, hasHeader_eq_contains h, getHeaderValue_eq_value h,
    OrderedMap.contains_eq_isSome]
  cases m.value (toLowerCase name) with
  | none => rfl
  | some value => simp

theorem pairwise_names : c.headers.Pairwise fun a b => equalsIcase a.1 b.1 = false :=
  (pairwise_names_iff c.headers).mpr h.nodup

end Readers

/-- **The header store refines a case-insensitive ordered map**: after any run of the
header-writing operations on an empty container, the stored names are pairwise different
up to case and stand in the order of first insertion since the last clear, each with the
value written last, and every reader answers what the ordered map answers. -/
theorem headerStore_refines_orderedMap (ops : List HeaderOp) :
    let c := HeaderOp.run ops
    let m := HeaderOp.runAbstract ops
    let ws := HeaderOp.writesSinceClear ops
    (c.headers.Pairwise fun a b => equalsIcase a.1 b.1 = false) ∧
    (c.headers.map fun h => toLowerCase h.1) = (ws.map fun w => toLowerCase w.1).eraseDups ∧
    (∀ h ∈ c.headers, (ws.reverse.find? fun w => equalsIcase w.1 h.1).map Prod.snd = some h.2) ∧
    c.headersSize = m.size ∧
    ∀ name : Str,
      c.hasHeader name = m.contains (toLowerCase name) ∧
      (c.findHeaderPair name).map HeaderOp.keyed =
        (m.value (toLowerCase name)).map (fun value => (toLowerCase name, value)) ∧
      c.getHeaderValue name = (m.value (toLowerCase name)).getD [] ∧
      ∀ comparable : Str,
        c.cmpHeaderValue name comparable = (m.value (toLowerCase name) == some comparable) := by
  intro c m ws
  have h : Represents toLowerCase c.headers m := HeaderOp.represents_run ops
  have hm : m = OrderedMap.empty.insertAll (ws.map HeaderOp.keyed) :=
    HeaderOp.runAbstract_eq_insertAll ops
  refine ⟨pairwise_names h, ?order, ?last, h.length_eq, fun name => ?readers⟩
  case order =>
    rw [h.keys_eq, hm, OrderedMap.keys_insertAll_empty, List.map_map]
    rfl
  case last =>
    intro hd hmem
    have hval := h.value_of_mem hmem
    rw [hm, OrderedMap.value_insertAll_empty, ← List.map_reverse, List.find?_map,
      Option.map_map] at hval
    simp only [equalsIcase_eq_decide]
    exact hval
  case readers =>
    exact ⟨hasHeader_eq_contains h name, findHeaderPair_eq_value h name,
      getHeaderValue_eq_value h name, cmpHeaderValue_eq_value h name⟩

end Httb
