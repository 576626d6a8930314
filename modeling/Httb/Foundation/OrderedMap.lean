import Mathlib.Data.List.Basic
import Mathlib.Data.List.Induction
import Mathlib.Data.List.Nodup
import Mathlib.Logic.Function.Basic

/-!
# Insertion-Ordered Maps

An `OrderedMap κ ν` is a finite map together with the order in which its keys were
first written. It is the abstract meaning of a vector of name/value pairs that is
searched by a *key* of the name (for example the name up to case).

## Layers

- `OrderedMap`: keys in order, values as a function, the two tied by invariant fields
- `overwriteAll` / `overwriteFirst`: the two scanning loops by which a vector of pairs
  is updated in place
- `Represents key es m`: the vector `es` stores the map `m` under `key`

The rules of the last section say when each loop, or appending at the end, carries a
vector that represents `m` to one that represents `m.insert k v`.
-/

namespace Httb.Foundation

variable {α κ ν : Type*}

/-! ## Ordered maps -/

/-- A finite map that remembers the order of first insertion of its keys. -/
structure OrderedMap (κ ν : Type*) where
  /-- The keys, in the order of first insertion. -/
  keys : List κ
  /-- The value stored under a key. -/
  value : κ → Option ν
  /-- No key is listed twice. -/
  nodup : keys.Nodup
  /-- Exactly the listed keys carry a value. -/
  mem_keys_iff : ∀ k, k ∈ keys ↔ (value k).isSome

namespace OrderedMap

@[ext] theorem ext {m n : OrderedMap κ ν} (hk : m.keys = n.keys)
    (hv : ∀ k, m.value k = n.value k) : m = n := by
  obtain ⟨mk, mv, _, _⟩ := m
  obtain ⟨nk, nv, _, _⟩ := n
  obtain rfl : mk = nk := hk
  obtain rfl : mv = nv := funext hv
  rfl

/-- The map without entries. -/
def empty : OrderedMap κ ν where
  keys := []
  value := fun _ => none
  nodup := List.nodup_nil
  mem_keys_iff := by simp

/-- The number of entries. -/
def size (m : OrderedMap κ ν) : Nat := m.keys.length

@[simp] theorem keys_empty : (empty : OrderedMap κ ν).keys = [] := rfl

@[simp] theorem value_empty (k : κ) : (empty : OrderedMap κ ν).value k = none := rfl

variable [DecidableEq κ]

/-- Whether the map has an entry under `k`. -/
def contains (m : OrderedMap κ ν) (k : κ) : Bool := decide (k ∈ m.keys)

theorem contains_eq_isSome (m : OrderedMap κ ν) (k : κ) :
    m.contains k = (m.value k).isSome := by
  rw [Bool.eq_iff_iff, contains, decide_eq_true_iff, m.mem_keys_iff]

/-- Write `v` under `k`: a known key keeps its place, a new one goes to the end. -/
def insert (m : OrderedMap κ ν) (k : κ) (v : ν) : OrderedMap κ ν where
  keys := if k ∈ m.keys then m.keys else m.keys ++ [k]
  value := Function.update m.value k (some v)
  nodup := by
    split
    · exact m.nodup
    · rename_i h
      exact List.nodup_append.mpr ⟨m.nodup, List.nodup_singleton k, by
        intro a ha b hb hab
        rw [List.mem_singleton] at hb
        exact h (hb ▸ hab ▸ ha)⟩
  mem_keys_iff := by
    intro j
    by_cases hj : j = k
    · -- the written key is listed, as before or at the end
      subst hj
      split
      · rename_i h
        simp [h]
      · simp
    · split <;> simp [m.mem_keys_iff, hj]

/-- Write a sequence of entries, the first one first. -/
def insertAll (m : OrderedMap κ ν) (ws : List (κ × ν)) : OrderedMap κ ν :=
  ws.foldl (fun m w => m.insert w.1 w.2) m

theorem keys_insert (m : OrderedMap κ ν) (k : κ) (v : ν) :
    (m.insert k v).keys = if k ∈ m.keys then m.keys else m.keys ++ [k] := rfl

theorem keys_insert_of_mem {m : OrderedMap κ ν} {k : κ} (h : k ∈ m.keys) (v : ν) :
    (m.insert k v).keys = m.keys := by
  rw [keys_insert, if_pos h]

theorem keys_insert_of_notMem {m : OrderedMap κ ν} {k : κ} (h : k ∉ m.keys) (v : ν) :
    (m.insert k v).keys = m.keys ++ [k] := by
  rw [keys_insert, if_neg h]

@[simp] theorem value_insert_self (m : OrderedMap κ ν) (k : κ) (v : ν) :
    (m.insert k v).value k = some v := Function.update_self ..

theorem value_insert_of_ne (m : OrderedMap κ ν) {j k : κ} (h : j ≠ k) (v : ν) :
    (m.insert k v).value j = m.value j := Function.update_of_ne h ..

@[simp] theorem insertAll_nil (m : OrderedMap κ ν) : m.insertAll [] = m := rfl

@[simp] theorem insertAll_cons (m : OrderedMap κ ν) (w : κ × ν) (ws : List (κ × ν)) :
    m.insertAll (w :: ws) = (m.insert w.1 w.2).insertAll ws := rfl

theorem insertAll_append (m : OrderedMap κ ν) (ws₁ ws₂ : List (κ × ν)) :
    m.insertAll (ws₁ ++ ws₂) = (m.insertAll ws₁).insertAll ws₂ :=
  List.foldl_append ..

/-! ## What a sequence of writes leaves -/

/-- Writes under other keys leave a value alone. -/
theorem value_insertAll_of_forall_ne {ws : List (κ × ν)} {k : κ} (h : ∀ w ∈ ws, w.1 ≠ k)
    (m : OrderedMap κ ν) : (m.insertAll ws).value k = m.value k := by
  induction ws generalizing m with
  | nil => rfl
  | cons w ws ih =>
    rw [insertAll_cons, ih fun x hx => h x (List.mem_cons_of_mem _ hx)]
    exact value_insert_of_ne m (h w List.mem_cons_self).symm w.2

/-- Under a key that is written stands one of the values that are written there. -/
theorem exists_value_insertAll {ws : List (κ × ν)} {k : κ} (h : k ∈ ws.map Prod.fst)
    (m : OrderedMap κ ν) : ∃ w ∈ ws, w.1 = k ∧ (m.insertAll ws).value k = some w.2 := by
  induction ws generalizing m with
  | nil => cases h
  | cons w ws ih =>
    rw [insertAll_cons]
    by_cases hws : k ∈ ws.map Prod.fst
    · obtain ⟨w', hw', hkey, hvalue⟩ := ih hws (m.insert w.1 w.2)
      exact ⟨w', List.mem_cons_of_mem _ hw', hkey, hvalue⟩
    · -- the first write is the only one under the key
      obtain rfl : k = w.1 := (List.mem_cons.mp h).resolve_right hws
      have hne : ∀ x ∈ ws, x.1 ≠ w.1 := fun x hx heq => hws (heq ▸ List.mem_map_of_mem hx)
      refine ⟨w, List.mem_cons_self, rfl, ?_⟩
      rw [value_insertAll_of_forall_ne hne, value_insert_self]

omit [DecidableEq κ] in
private theorem eraseDups_concat [BEq κ] [LawfulBEq κ] (ks : List κ) (k : κ) :
    (ks ++ [k]).eraseDups = if k ∈ ks then ks.eraseDups else ks.eraseDups ++ [k] := by
  rw [List.eraseDups_append]
  split
  · rename_i h
    simp [List.removeAll, h]
  · rename_i h
    simp [List.removeAll, h, List.eraseDups_cons]

/-- The keys after a sequence of writes are the written keys in order of first
occurrence. -/
theorem keys_insertAll_empty [BEq κ] [LawfulBEq κ] (ws : List (κ × ν)) :
    ((empty : OrderedMap κ ν).insertAll ws).keys = (ws.map Prod.fst).eraseDups := by
  induction ws using List.reverseRecOn with
  | nil => rfl
  | append_singleton ws w ih =>
    rw [insertAll_append, insertAll_cons, insertAll_nil, keys_insert, ih,
      List.map_append, List.map_singleton, eraseDups_concat]
    simp only [List.mem_eraseDups]

/-- The value after a sequence of writes is the one written last. -/
theorem value_insertAll_empty (ws : List (κ × ν)) (k : κ) :
    ((empty : OrderedMap κ ν).insertAll ws).value k =
      (ws.reverse.find? fun w => decide (w.1 = k)).map Prod.snd := by
  induction ws using List.reverseRecOn with
  | nil => rfl
  | append_singleton ws w ih =>
    rw [insertAll_append, insertAll_cons, insertAll_nil, List.reverse_append,
      List.reverse_singleton, List.singleton_append]
    -- the last write is the first one that the search meets
    by_cases hk : w.1 = k
    · subst hk
      simp
    · rw [value_insert_of_ne _ (Ne.symm hk), ih, List.find?_cons_of_neg (by simpa using hk)]

end OrderedMap

/-! ## Scanning loops over vectors of pairs -/

/-- Replace the value of every entry whose name satisfies `p`. -/
def overwriteAll (p : α → Bool) (v : ν) (es : List (α × ν)) : List (α × ν) :=
  es.map fun e => if p e.1 then (e.1, v) else e

/-- Replace the value of the first entry whose name satisfies `p` and stop there; `none`
when the loop runs to the end without finding one. -/
def overwriteFirst (p : α → Bool) (v : ν) : List (α × ν) → Option (List (α × ν))
  | [] => none
  | e :: es => if p e.1 then some ((e.1, v) :: es) else (overwriteFirst p v es).map (e :: ·)

@[simp] theorem overwriteAll_nil (p : α → Bool) (v : ν) :
    overwriteAll p v ([] : List (α × ν)) = [] := rfl

theorem overwriteAll_cons (p : α → Bool) (v : ν) (e : α × ν) (es : List (α × ν)) :
    overwriteAll p v (e :: es) = (if p e.1 then (e.1, v) else e) :: overwriteAll p v es := rfl

/-- Overwriting keeps the names, and so their keys. -/
theorem map_key_overwriteAll (key : α → κ) (p : α → Bool) (v : ν) (es : List (α × ν)) :
    ((overwriteAll p v es).map fun e => key e.1) = es.map fun e => key e.1 := by
  rw [overwriteAll, List.map_map]
  apply List.map_congr_left
  intro e _
  simp only [Function.comp_apply]
  split <;> rfl

/-- The entries under other names stay as they are. -/
theorem filter_not_overwriteAll (p : α → Bool) (v : ν) (es : List (α × ν)) :
    (overwriteAll p v es).filter (fun e => !p e.1) = es.filter fun e => !p e.1 := by
  induction es with
  | nil => rfl
  | cons e es ih =>
    rw [overwriteAll_cons]
    cases he : p e.1 with
    | true => simp [he, ih]
    | false => simp [he, ih]

/-- The entries under the name are those that were there, with the new value. -/
theorem filter_overwriteAll (p : α → Bool) (v : ν) (es : List (α × ν)) :
    (overwriteAll p v es).filter (fun e => p e.1) =
      (es.filter fun e => p e.1).map fun e => (e.1, v) := by
  induction es with
  | nil => rfl
  | cons e es ih =>
    rw [overwriteAll_cons]
    cases he : p e.1 with
    | true => simp [he, ih]
    | false => simp [he, ih]

theorem overwriteAll_of_none {p : α → Bool} (v : ν) {es : List (α × ν)}
    (h : ∀ e ∈ es, p e.1 = false) : overwriteAll p v es = es := by
  rw [overwriteAll]
  conv_rhs => rw [← List.map_id es]
  apply List.map_congr_left
  intro e he
  simp [h e he]

/-- The first-match loop falls through exactly when no name matches. -/
theorem overwriteFirst_eq_none_iff {p : α → Bool} {v : ν} {es : List (α × ν)} :
    overwriteFirst p v es = none ↔ ∀ e ∈ es, p e.1 = false := by
  induction es with
  | nil => simp [overwriteFirst]
  | cons e es ih =>
    rw [overwriteFirst]
    split
    · rename_i hp
      simp [hp]
    · rename_i hp
      simp [ih, Bool.eq_false_iff.mpr hp]

/-- Where the keys of the names are pairwise different, stopping at the first match or
going on to the end makes no difference. -/
theorem overwriteFirst_eq_some_overwriteAll [DecidableEq κ] {key : α → κ} {k : κ} (v : ν)
    {es : List (α × ν)} (hd : (es.map fun e => key e.1).Nodup)
    (hk : k ∈ es.map fun e => key e.1) :
    overwriteFirst (fun a => decide (key a = k)) v es
      = some (overwriteAll (fun a => decide (key a = k)) v es) := by
  induction es with
  | nil => simp at hk
  | cons e es ih =>
    rw [List.map_cons, List.nodup_cons] at hd
    rw [overwriteFirst]
    by_cases he : key e.1 = k
    · -- no later name has this key, so going on would change nothing
      have hrest : ∀ x ∈ es, (fun a => decide (key a = k)) x.1 = false := by
        intro x hx
        simp only [decide_eq_false_iff_not]
        intro hxk
        exact hd.1 (List.mem_map.mpr ⟨x, hx, hxk.trans he.symm⟩)
      rw [overwriteAll_cons, overwriteAll_of_none v hrest]
      simp [he]
    · have hk' : k ∈ es.map fun e => key e.1 := by
        rw [List.map_cons, List.mem_cons] at hk
        exact hk.resolve_left (fun h => he h.symm)
      simp [he, ih hd.2 hk', overwriteAll_cons]

/-! ## Vectors that represent an ordered map -/

variable [DecidableEq κ] {key : α → κ} {es : List (α × ν)} {m : OrderedMap κ ν}

/-- The vector `es`, searched by `key` of the name, stores the ordered map `m`: the keys
agree in order, and a first-match search finds the stored value. -/
structure Represents (key : α → κ) (es : List (α × ν)) (m : OrderedMap κ ν) : Prop where
  keys_eq : (es.map fun e => key e.1) = m.keys
  find_eq : ∀ k, (es.find? fun e => decide (key e.1 = k)).map Prod.snd = m.value k

namespace Represents

theorem nil : Represents key ([] : List (α × ν)) OrderedMap.empty where
  keys_eq := rfl
  find_eq := fun _ => rfl

/-- A represented vector never holds two names of one key. -/
theorem nodup (h : Represents key es m) : (es.map fun e => key e.1).Nodup :=
  h.keys_eq ▸ m.nodup

theorem length_eq (h : Represents key es m) : es.length = m.size := by
  rw [OrderedMap.size, ← h.keys_eq, List.length_map]

/-- The entries carry the values of the map. -/
theorem value_of_mem (h : Represents key es m) {e : α × ν} (he : e ∈ es) :
    m.value (key e.1) = some e.2 := by
  rw [← h.find_eq]
  have hnd := h.nodup
  clear h
  induction es with
  | nil => cases he
  | cons x es ih =>
    rw [List.map_cons, List.nodup_cons] at hnd
    rcases List.mem_cons.mp he with rfl | hmem
    · simp
    · -- the head has another key, or `e` would be its second entry
      have hne : ¬ key x.1 = key e.1 := fun hEq =>
        hnd.1 (List.mem_map.mpr ⟨e, hmem, hEq.symm⟩)
      rw [List.find?_cons_of_neg (by simpa using hne)]
      exact ih hmem hnd.2

theorem any_eq_contains (h : Represents key es m) (k : κ) :
    (es.any fun e => decide (key e.1 = k)) = m.contains k := by
  rw [Bool.eq_iff_iff, OrderedMap.contains, decide_eq_true_iff, ← h.keys_eq, List.any_eq_true]
  simp

/-- Under each key the vector holds the value of the map, and nothing else. -/
theorem filter_eq (h : Represents key es m) (k : κ) :
    (es.filter fun e => decide (key e.1 = k)).map Prod.snd = (m.value k).toList := by
  rw [← h.find_eq]
  have hnd := h.nodup
  clear h
  induction es with
  | nil => rfl
  | cons e es ih =>
    rw [List.map_cons, List.nodup_cons] at hnd
    by_cases hk : key e.1 = k
    · -- the rest has other keys
      have hrest : (es.filter fun x => decide (key x.1 = k)) = [] := by
        rw [List.filter_eq_nil_iff]
        intro x hx
        rw [decide_eq_true_iff]
        intro hxk
        exact hnd.1 (List.mem_map.mpr ⟨x, hx, hxk.trans hk.symm⟩)
      simp [hk, hrest]
    · rw [List.filter_cons_of_neg (by simpa using hk), List.find?_cons_of_neg (by simpa using hk)]
      exact ih hnd.2

/-- A name whose key is new may be appended. -/
theorem append (h : Represents key es m) {a : α} (ha : key a ∉ m.keys) (v : ν) :
    Represents key (es ++ [(a, v)]) (m.insert (key a) v) where
  keys_eq := by
    rw [OrderedMap.keys_insert_of_notMem ha, List.map_append, h.keys_eq, List.map_singleton]
  find_eq := by
    intro k
    rw [List.find?_append]
    by_cases hk : k = key a
    · -- the search runs through the old entries and finds the new one
      subst hk
      have hnone : (es.find? fun e => decide (key e.1 = key a)) = none := by
        rw [List.find?_eq_none]
        intro e he
        simp only [decide_eq_true_eq]
        intro hEq
        exact ha (h.keys_eq ▸ List.mem_map.mpr ⟨e, he, hEq⟩)
      simp [hnone]
    · rw [OrderedMap.value_insert_of_ne _ hk, ← h.find_eq k]
      cases (es.find? fun e => decide (key e.1 = k)) with
      | some e => rfl
      | none => simp [Ne.symm hk]

private theorem find?_overwriteAll (j k : κ) (v : ν) (es : List (α × ν)) :
    ((overwriteAll (fun a => decide (key a = k)) v es).find?
        fun e => decide (key e.1 = j)).map Prod.snd
      = if j = k then (es.find? fun e => decide (key e.1 = j)).map (fun _ => v)
        else (es.find? fun e => decide (key e.1 = j)).map Prod.snd := by
  induction es with
  | nil => simp
  | cons e es ih =>
    rw [overwriteAll_cons]
    -- overwriting keeps the names, so the search stops at the same entries
    by_cases hk : key e.1 = k
    · by_cases hj : k = j
      · simp [hk, hj]
      · rw [if_pos (decide_eq_true hk), List.find?_cons_of_neg (by simpa [hk] using hj),
          List.find?_cons_of_neg (by simpa [hk] using hj), ih]
    · rw [if_neg (by simpa using hk)]
      by_cases hj : key e.1 = j
      · have hjk : ¬ j = k := fun h => hk (hj.trans h)
        simp [hj, hjk]
      · rw [List.find?_cons_of_neg (by simpa using hj),
          List.find?_cons_of_neg (by simpa using hj), ih]

/-- Overwriting a known key is insertion. -/
theorem overwriteAll (h : Represents key es m) {k : κ} (hk : k ∈ m.keys) (v : ν) :
    Represents key (Foundation.overwriteAll (fun a => decide (key a = k)) v es)
      (m.insert k v) where
  keys_eq := by
    rw [OrderedMap.keys_insert_of_mem hk, map_key_overwriteAll, h.keys_eq]
  find_eq := by
    intro j
    rw [find?_overwriteAll]
    split
    · rename_i hj
      subst hj
      obtain ⟨w, hw⟩ := Option.isSome_iff_exists.mp ((m.mem_keys_iff j).mp hk)
      rw [← h.find_eq] at hw
      obtain ⟨e, he, _⟩ := Option.map_eq_some_iff.mp hw
      simp [he]
    · rename_i hj
      rw [OrderedMap.value_insert_of_ne _ hj, h.find_eq]

/-- The first-match loop with its fall-through is insertion. -/
theorem overwriteFirst_getD (h : Represents key es m) {a b : α} (hb : key b = key a) (v : ν) :
    Represents key
      ((Foundation.overwriteFirst (fun x => decide (key x = key a)) v es).getD (es ++ [(b, v)]))
      (m.insert (key a) v) := by
  by_cases ha : key a ∈ m.keys
  · -- a known key: the one entry that has it is overwritten
    rw [overwriteFirst_eq_some_overwriteAll v h.nodup (h.keys_eq ▸ ha), Option.getD_some]
    exact h.overwriteAll ha v
  · -- a new key: the loop falls through and the pair is appended
    have hnone : Foundation.overwriteFirst (fun x => decide (key x = key a)) v es = none := by
      rw [overwriteFirst_eq_none_iff]
      intro e he
      simp only [decide_eq_false_iff_not]
      intro hEq
      exact ha (h.keys_eq ▸ List.mem_map.mpr ⟨e, he, hEq⟩)
    rw [hnone, Option.getD_none, ← hb]
    exact h.append (hb ▸ ha) v

end Represents

end Httb.Foundation
