import Httb.Foundation.EraseMatch
import Httb.Foundation.OrderedMap

/-!
# Multimaps and Lists of Pairs

A multimap gives each key the list of its values. A list of pairs, read under a key function,
is one: the values filed under a key are those of the pairs whose names have that key, in
order. What happens to the list happens to the multimap.

## Rules

- `filed_append`, `filed_overwriteAll`, `filed_filter_not`, `filed_eraseMatch`: appending,
  overwriting, removing and deleting by number on the list are `addAll`, `setAll`, `remove`
  and `removeAt` on the multimap
- `addAll_filed_map`: appending pairs with one name is `addUnder`
-/

namespace Httb.Foundation

variable {α κ ν : Type*} [DecidableEq κ]

/-- A multimap with its values in order. -/
abbrev Multimap (κ ν : Type*) := κ → List ν

namespace Multimap

/-- No key has a value. -/
def clear : Multimap κ ν := fun _ => []

/-- Every key gets the values of another multimap after its own. -/
def addAll (m m' : Multimap κ ν) : Multimap κ ν := fun k => m k ++ m' k

/-- A key gets more values after its own. -/
def addUnder (m : Multimap κ ν) (k : κ) (vs : List ν) : Multimap κ ν :=
  Function.update m k (m k ++ vs)

/-- The values of a key are all set to one. -/
def setAll (m : Multimap κ ν) (k : κ) (v : ν) : Multimap κ ν :=
  Function.update m k ((m k).map fun _ => v)

/-- A key loses its values. -/
def remove (m : Multimap κ ν) (k : κ) : Multimap κ ν := Function.update m k []

/-- A key loses the value at one place, if there is one. -/
def removeAt (m : Multimap κ ν) (k : κ) (i : ℕ) : Multimap κ ν :=
  Function.update m k ((m k).eraseIdx i)

end Multimap

/-- The values of the pairs whose names have a key. -/
def filed (key : α → κ) (es : List (α × ν)) : Multimap κ ν :=
  fun k => (es.filter fun e => decide (key e.1 = k)).map Prod.snd

variable (key : α → κ)

@[simp] theorem filed_nil : filed key ([] : List (α × ν)) = Multimap.clear := rfl

theorem filed_append (es fs : List (α × ν)) :
    filed key (es ++ fs) = (filed key es).addAll (filed key fs) := by
  funext k
  rw [filed, List.filter_append, List.map_append]
  rfl

/-- A pair whose name has another key is not seen. -/
theorem filed_cons_of_ne {k : κ} {e : α × ν} (h : key e.1 ≠ k) (es : List (α × ν)) :
    filed key (e :: es) k = filed key es k := by
  rw [filed, List.filter_cons_of_neg (by simpa using h)]
  rfl

theorem filed_cons_of_eq {k : κ} {e : α × ν} (h : key e.1 = k) (es : List (α × ν)) :
    filed key (e :: es) k = e.2 :: filed key es k := by
  rw [filed, List.filter_cons_of_pos (by simpa using h)]
  rfl

theorem filed_map_mk (a : α) (vs : List ν) (k : κ) :
    filed key (vs.map fun v => (a, v)) k = if k = key a then vs else [] := by
  induction vs with
  | nil => simp [Multimap.clear]
  | cons v vs ih =>
    rw [List.map_cons]
    split
    · rename_i hk
      rw [filed_cons_of_eq key (e := (a, v)) hk.symm, ih, if_pos hk]
    · rename_i hk
      rw [filed_cons_of_ne key (e := (a, v)) fun heq => hk heq.symm, ih, if_neg hk]

/-- Pairs with one name. -/
theorem addAll_filed_map (m : Multimap κ ν) (a : α) (vs : List ν) :
    m.addAll (filed key (vs.map fun v => (a, v))) = m.addUnder (key a) vs := by
  funext k
  rw [Multimap.addAll, Multimap.addUnder, Function.update_apply, filed_map_mk]
  split
  · rename_i hk
    rw [hk]
  · rw [List.append_nil]

theorem filed_overwriteAll (k : κ) (v : ν) (es : List (α × ν)) :
    filed key (overwriteAll (fun a => decide (key a = k)) v es) = (filed key es).setAll k v := by
  funext j
  rw [Multimap.setAll, Function.update_apply]
  split
  · rename_i hj
    subst hj
    rw [filed, filter_overwriteAll (fun a => decide (key a = j)), filed, List.map_map, List.map_map]
    rfl
  · rename_i hj
    induction es with
    | nil => rfl
    | cons e es ih =>
      rw [overwriteAll_cons]
      by_cases hk : key e.1 = k
      · -- it is overwritten, under the key `k`
        have hne : key e.1 ≠ j := fun heq => hj (heq.symm.trans hk)
        have hne' : key (if decide (key e.1 = k) = true then (e.1, v) else e).1 ≠ j := by
          rwa [if_pos (by simpa using hk)]
        rw [filed_cons_of_ne key hne', filed_cons_of_ne key hne, ih]
      · rw [if_neg (by simpa using hk)]
        by_cases hkey : key e.1 = j
        · rw [filed_cons_of_eq key hkey, filed_cons_of_eq key hkey, ih]
        · rw [filed_cons_of_ne key hkey, filed_cons_of_ne key hkey, ih]

theorem filed_filter_not (k : κ) (es : List (α × ν)) :
    filed key (es.filter fun e => !decide (key e.1 = k)) = (filed key es).remove k := by
  funext j
  rw [Multimap.remove, Function.update_apply, filed, List.filter_filter]
  split
  · rename_i hj
    subst hj
    rw [List.map_eq_nil_iff, List.filter_eq_nil_iff]
    simp
  · rename_i hj
    refine congrArg (List.map Prod.snd) (List.filter_congr fun e _ => ?_)
    -- entries of other keys pass the filter
    by_cases hkey : key e.1 = j
    · simp [hkey, hj]
    · simp [hkey]

theorem filed_eraseMatch (k : κ) (i : ℕ) (es : List (α × ν)) :
    filed key (eraseMatch (fun e => decide (key e.1 = k)) i es) = (filed key es).removeAt k i := by
  funext j
  rw [Multimap.removeAt, Function.update_apply]
  induction es generalizing i with
  | nil => simp [Multimap.clear]
  | cons e es ih =>
    by_cases hk : key e.1 = k
    · have hmatch : decide (key e.1 = k) = true := by simpa using hk
      rw [filed_cons_of_eq key hk]
      cases i with
      | zero =>
        -- this is the one
        have hhere : eraseMatch (fun e => decide (key e.1 = k)) 0 (e :: es) = es :=
          eraseMatch_zero_cons (p := fun e : α × ν => decide (key e.1 = k)) hmatch es
        rw [hhere]
        split
        · rename_i hj
          rw [hj, List.eraseIdx_cons_zero]
        · rename_i hj
          rw [filed_cons_of_ne key fun heq => hj (heq.symm.trans hk)]
      | succ i =>
        have hlater : eraseMatch (fun e => decide (key e.1 = k)) (i + 1) (e :: es) =
            e :: eraseMatch (fun e => decide (key e.1 = k)) i es :=
          eraseMatch_succ_cons (p := fun e : α × ν => decide (key e.1 = k)) hmatch i es
        rw [hlater, List.eraseIdx_cons_succ]
        split
        · rename_i hj
          subst hj
          rw [filed_cons_of_eq key hk, ih, if_pos rfl]
        · rename_i hj
          have hne : key e.1 ≠ j := fun heq => hj (heq.symm.trans hk)
          rw [filed_cons_of_ne key hne, filed_cons_of_ne key hne, ih, if_neg hj]
    · have hkept : eraseMatch (fun e => decide (key e.1 = k)) i (e :: es) =
          e :: eraseMatch (fun e => decide (key e.1 = k)) i es :=
        eraseMatch_cons_of_neg (by simpa using hk) i es
      rw [hkept, filed_cons_of_ne key hk]
      by_cases hj : j = k
      · subst hj
        rw [filed_cons_of_ne key hk, ih, if_pos rfl, if_pos rfl]
      · rw [if_neg hj]
        have hrest := ih i
        rw [if_neg hj] at hrest
        by_cases hkey : key e.1 = j
        · rw [filed_cons_of_eq key hkey, filed_cons_of_eq key hkey, hrest]
        · rw [filed_cons_of_ne key hkey, filed_cons_of_ne key hkey, hrest]

end Httb.Foundation
