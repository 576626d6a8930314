import Httb.Foundation.OrderedMap
import Mathlib.Data.List.Perm.Basic

/-!
# Loading Entries into a Vector

Entries are written one by one into a vector of pairs that is searched by a key of the name.
When no two of them have one key, the vector that results is known in closed form: the entries
that were there keep their places and get the values written under their keys, and the entries
of new keys follow in the order in which they were written. So the order of writing shows in
the order of the new entries only.

## Rules

- `foldl_writeEntry`: the closed form
- `foldl_writeEntry_perm`, `find?_key_perm`: another order of writing, and searching it
- `represents_ofEntries`: a vector without two names of one key stores an ordered map
-/

namespace Httb.Foundation

variable {α κ ν : Type*} [DecidableEq κ] {key : α → κ} {es ws ws' : List (α × ν)}

/-- The ordered map of a vector in which no two names have one key. -/
def OrderedMap.ofEntries (key : α → κ) (es : List (α × ν))
    (h : (es.map fun e => key e.1).Nodup) : OrderedMap κ ν where
  keys := es.map fun e => key e.1
  value k := (es.find? fun e => decide (key e.1 = k)).map Prod.snd
  nodup := h
  mem_keys_iff k := by
    rw [Option.isSome_map, List.find?_isSome, List.mem_map]
    simp only [decide_eq_true_eq]

theorem represents_ofEntries (h : (es.map fun e => key e.1).Nodup) :
    Represents key es (OrderedMap.ofEntries key es h) := ⟨rfl, fun _ => rfl⟩

/-! ## One entry -/

/-- Write an entry: the first one of its key gets the value, and without one the entry is
appended, under the name that `store` makes of its name. -/
def writeEntry (key : α → κ) (store : α → α) (es : List (α × ν)) (w : α × ν) : List (α × ν) :=
  (overwriteFirst (fun a => decide (key a = key w.1)) w.2 es).getD (es ++ [(store w.1, w.2)])

variable {store : α → α}

theorem writeEntry_of_mem (hes : (es.map fun e => key e.1).Nodup) {w : α × ν}
    (h : key w.1 ∈ es.map fun e => key e.1) :
    writeEntry key store es w = overwriteAll (fun a => decide (key a = key w.1)) w.2 es := by
  rw [writeEntry, overwriteFirst_eq_some_overwriteAll w.2 hes h, Option.getD_some]

theorem writeEntry_of_notMem {w : α × ν} (h : key w.1 ∉ es.map fun e => key e.1) :
    writeEntry key store es w = es ++ [(store w.1, w.2)] := by
  have hnone : overwriteFirst (fun a => decide (key a = key w.1)) w.2 es = none := by
    rw [overwriteFirst_eq_none_iff]
    intro e he
    rw [decide_eq_false_iff_not]
    intro heq
    exact h (List.mem_map.mpr ⟨e, he, heq⟩)
  rw [writeEntry, hnone, Option.getD_none]

/-! ## Searching by key -/

theorem find?_key_eq_none {k : κ} (h : k ∉ ws.map fun w => key w.1) :
    ws.find? (fun w => decide (key w.1 = k)) = none := by
  rw [List.find?_eq_none]
  intro w hw
  rw [decide_eq_true_eq]
  intro heq
  exact h (List.mem_map.mpr ⟨w, hw, heq⟩)

/-- Where no two names have one key, the search finds the entry of the key. -/
theorem find?_key_of_mem (hws : (ws.map fun w => key w.1).Nodup) {w : α × ν} (hw : w ∈ ws) :
    ws.find? (fun x => decide (key x.1 = key w.1)) = some w := by
  cases hfind : ws.find? fun x => decide (key x.1 = key w.1) with
  | none =>
    have hnot := List.find?_eq_none.mp hfind w hw
    simp at hnot
  | some x =>
    have hkey : key x.1 = key w.1 := by simpa using List.find?_some hfind
    rw [List.inj_on_of_nodup_map hws (List.mem_of_find?_eq_some hfind) hw hkey]

/-- The search does not see the order. -/
theorem find?_key_perm (hws : (ws.map fun w => key w.1).Nodup) (h : ws.Perm ws') (k : κ) :
    ws.find? (fun w => decide (key w.1 = k)) = ws'.find? fun w => decide (key w.1 = k) := by
  have hkeys := h.map fun w => key w.1
  by_cases hk : k ∈ ws.map fun w => key w.1
  · obtain ⟨w, hw, rfl⟩ := List.mem_map.mp hk
    rw [find?_key_of_mem hws hw,
      find?_key_of_mem (hkeys.nodup_iff.mp hws) (h.mem_iff.mp hw)]
  · rw [find?_key_eq_none hk, find?_key_eq_none fun hk' => hk (hkeys.mem_iff.mpr hk')]

/-! ## All entries -/

/-- The entry, with the value that is written under its key. -/
def updateEntry (key : α → κ) (ws : List (α × ν)) (e : α × ν) : α × ν :=
  (e.1, ((ws.find? fun w => decide (key w.1 = key e.1)).map Prod.snd).getD e.2)

/-- The entries whose keys are new to a vector. -/
def newEntries (key : α → κ) (es ws : List (α × ν)) : List (α × ν) :=
  ws.filter fun w => decide (key w.1 ∉ es.map fun e => key e.1)

/-- Writing one more entry first changes the entries of its key. -/
theorem updateEntry_cons (w e : α × ν) :
    updateEntry key (w :: ws) e =
      if key e.1 = key w.1 then (e.1, w.2) else updateEntry key ws e := by
  rw [updateEntry, List.find?_cons]
  split
  · rename_i heq
    have hkey : key w.1 = key e.1 := by simpa using heq
    rw [if_pos hkey.symm]
    rfl
  · rename_i hne
    have hkey : ¬ key w.1 = key e.1 := by simpa using hne
    rw [if_neg fun h => hkey h.symm, updateEntry]

theorem updateEntry_of_notMem {e : α × ν} (h : key e.1 ∉ ws.map fun w => key w.1) :
    updateEntry key ws e = e := by
  rw [updateEntry, find?_key_eq_none h]
  rfl

/-- **What loading leaves.** -/
theorem foldl_writeEntry (hstore : ∀ a, key (store a) = key a)
    (hes : (es.map fun e => key e.1).Nodup) (hws : (ws.map fun w => key w.1).Nodup) :
    ws.foldl (writeEntry key store) es =
      es.map (updateEntry key ws) ++ (newEntries key es ws).map fun w => (store w.1, w.2) := by
  induction ws generalizing es with
  | nil =>
    have hsame : es.map (updateEntry key []) = es :=
      (List.map_congr_left fun e _ => updateEntry_of_notMem List.not_mem_nil).trans
        (List.map_id es)
    rw [hsame]
    simp [newEntries]
  | cons w ws ih =>
    rw [List.map_cons, List.nodup_cons] at hws
    obtain ⟨hw, hws⟩ := hws
    rw [List.foldl_cons]
    by_cases hmem : key w.1 ∈ es.map fun e => key e.1
    · -- a known key: its entry gets the value, which no later write changes
      have hkeys := map_key_overwriteAll key (fun a => decide (key a = key w.1)) w.2 es
      have hnew : newEntries key es (w :: ws) = newEntries key es ws :=
        List.filter_cons_of_neg (by simpa using hmem)
      rw [writeEntry_of_mem hes hmem, ih (hkeys ▸ hes) hws, hnew]
      rw [newEntries, hkeys, overwriteAll, List.map_map]
      congr 1
      apply List.map_congr_left
      intro e _
      rw [updateEntry_cons, Function.comp_apply]
      by_cases he : key e.1 = key w.1
      · rw [if_pos he, if_pos (decide_eq_true he)]
        exact updateEntry_of_notMem (he ▸ hw)
      · rw [if_neg he, if_neg (by simpa using he)]
    · -- a new key: the entry goes to the end of what was there
      have hkeys : ((es ++ [(store w.1, w.2)]).map fun e => key e.1) =
          (es.map fun e => key e.1) ++ [key w.1] := by
        rw [List.map_append, List.map_singleton, hstore]
      have hnodup : ((es ++ [(store w.1, w.2)]).map fun e => key e.1).Nodup := by
        rw [hkeys]
        exact List.nodup_append.mpr ⟨hes, List.nodup_singleton _, fun a ha b hb hab =>
          hmem (List.mem_singleton.mp hb ▸ hab ▸ ha)⟩
      have hlast : updateEntry key ws (store w.1, w.2) = (store w.1, w.2) :=
        updateEntry_of_notMem (by rwa [hstore])
      have hnew : newEntries key (es ++ [(store w.1, w.2)]) ws = newEntries key es ws := by
        rw [newEntries, hkeys]
        apply List.filter_congr
        intro x hx
        have hne : key x.1 ≠ key w.1 := fun heq => hw (List.mem_map.mpr ⟨x, hx, heq⟩)
        simp [hne]
      have hfirst : newEntries key es (w :: ws) = w :: newEntries key es ws :=
        List.filter_cons_of_pos (by simpa using hmem)
      have hold : es.map (updateEntry key (w :: ws)) = es.map (updateEntry key ws) := by
        apply List.map_congr_left
        intro e he
        rw [updateEntry_cons, if_neg fun heq => hmem (List.mem_map.mpr ⟨e, he, heq⟩)]
      rw [writeEntry_of_notMem hmem, ih hnodup hws, hnew, hfirst, hold, List.map_append,
        List.map_singleton, hlast, List.map_cons, List.append_assoc, List.singleton_append]

/-- **The order of loading** shows in the order of the new entries only. -/
theorem foldl_writeEntry_perm (hstore : ∀ a, key (store a) = key a)
    (hes : (es.map fun e => key e.1).Nodup) (hws : (ws.map fun w => key w.1).Nodup)
    (h : ws.Perm ws') :
    ∃ new new' : List (α × ν), new.Perm new' ∧
      ws.foldl (writeEntry key store) es = es.map (updateEntry key ws) ++ new ∧
      ws'.foldl (writeEntry key store) es = es.map (updateEntry key ws) ++ new' := by
  have hws' := (h.map fun w => key w.1).nodup_iff.mp hws
  have hsame : es.map (updateEntry key ws') = es.map (updateEntry key ws) := by
    apply List.map_congr_left
    intro e _
    rw [updateEntry, updateEntry, find?_key_perm hws h]
  have hnew : ((newEntries key es ws).map fun w => (store w.1, w.2)).Perm
      ((newEntries key es ws').map fun w => (store w.1, w.2)) := (h.filter _).map _
  refine ⟨_, _, hnew, foldl_writeEntry hstore hes hws, ?_⟩
  rw [foldl_writeEntry hstore hes hws', hsame]

end Httb.Foundation
