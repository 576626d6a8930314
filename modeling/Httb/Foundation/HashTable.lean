import Mathlib.Data.List.FinRange
import Mathlib.Data.List.Pairwise
import Mathlib.Logic.Function.Basic

/-!
# Hash Tables

Chained hashing with a comparison of one's own. A key of the table is compared by `eq` and placed
by `hash`; both must see the same of it, its meaning `key`. The table carries its invariants:
entries stand in the bucket of their hash, and no two keys in a bucket are equal.

## Main facts

- `lookup_insert`, `lookup_assign`, `lookup_erase`, `lookup_rehash`: seen through lookups, the
  operations are those of a map from meanings to values, wherever the table is rehashed
- `pairwise_toList`, `lookup_eq_find?`: the entries in any order of the buckets
- `lookup_assignAll`: a run of writes to a table that grows
-/

namespace Httb.Foundation

variable {α κ ν : Type*}

/-- How keys are hashed and compared, and what they mean. -/
structure Hashing (α κ : Type*) where
  hash : α → ℕ
  eq : α → α → Bool
  key : α → κ
  /-- Equal keys are those of one meaning, -/
  eq_iff : ∀ a b, eq a b = true ↔ key a = key b
  /-- and the hash depends on the meaning only. -/
  hash_of_key : ∀ a b, key a = key b → hash a = hash b

theorem Hashing.eq_comm (H : Hashing α κ) {a b : α} (h : H.eq a b = false) : H.eq b a = false := by
  rw [Bool.eq_false_iff] at h ⊢
  exact fun h' => h ((H.eq_iff a b).mpr ((H.eq_iff b a).mp h').symm)

/-- Keys that are what they mean. -/
def plainHashing [DecidableEq α] (hash : α → ℕ) : Hashing α α where
  hash := hash
  eq a b := decide (a = b)
  key := id
  eq_iff _ _ := decide_eq_true_iff
  hash_of_key _ _ h := congrArg hash h

/-- A table of buckets. -/
structure HashTable (H : Hashing α κ) (ν : Type*) where
  bucketCount : ℕ
  pos : 0 < bucketCount
  buckets : Fin bucketCount → List (α × ν)
  placed : ∀ i, ∀ e ∈ buckets i, H.hash e.1 % bucketCount = i
  distinct : ∀ i, (buckets i).Pairwise fun e e' => H.eq e.1 e'.1 = false

namespace HashTable

variable {H : Hashing α κ}

/-- The bucket of a key. -/
def index (t : HashTable H ν) (a : α) : Fin t.bucketCount :=
  ⟨H.hash a % t.bucketCount, Nat.mod_lt _ t.pos⟩

theorem index_of_key (t : HashTable H ν) {a b : α} (h : H.key a = H.key b) :
    t.index a = t.index b := by
  rw [index, index]
  simp only [H.hash_of_key a b h]

/-- The entry of a key, which is looked for in its bucket. -/
def find? (t : HashTable H ν) (a : α) : Option (α × ν) :=
  (t.buckets (t.index a)).find? fun e => H.eq e.1 a

/-- The value of a key. -/
def lookup (t : HashTable H ν) (a : α) : Option ν := (t.find? a).map Prod.snd

/-- The entries, bucket by bucket. -/
def toList (t : HashTable H ν) : List (α × ν) := (List.finRange t.bucketCount).flatMap t.buckets

/-- A table without entries. -/
def empty (bucketCount : ℕ) : HashTable H ν where
  bucketCount := bucketCount + 1
  pos := Nat.succ_pos _
  buckets _ := []
  placed _ _ he := by cases he
  distinct _ := .nil

@[simp] theorem lookup_empty (bucketCount : ℕ) (a : α) :
    (empty bucketCount : HashTable H ν).lookup a = none := rfl

/-! ## Changing one bucket -/

/-- Another content for the bucket of a key. -/
def setBucket (t : HashTable H ν) (a : α) (bucket : List (α × ν))
    (hplaced : ∀ e ∈ bucket, t.index e.1 = t.index a)
    (hdistinct : bucket.Pairwise fun e e' => H.eq e.1 e'.1 = false) : HashTable H ν where
  bucketCount := t.bucketCount
  pos := t.pos
  buckets := Function.update t.buckets (t.index a) bucket
  placed i e he := by
    rw [Function.update_apply] at he
    split at he
    · rename_i hi
      rw [hi]
      exact congrArg Fin.val (hplaced e he)
    · exact t.placed i e he
  distinct i := by
    rw [Function.update_apply]
    split
    · exact hdistinct
    · exact t.distinct i

theorem lookup_setBucket (t : HashTable H ν) (a : α) (bucket : List (α × ν)) (hplaced hdistinct)
    (b : α) :
    (t.setBucket a bucket hplaced hdistinct).lookup b =
      if t.index b = t.index a then (bucket.find? fun e => H.eq e.1 b).map Prod.snd
      else t.lookup b := by
  rw [lookup, find?, setBucket]
  change ((Function.update t.buckets (t.index a) bucket (t.index b)).find? _).map _ = _
  rw [Function.update_apply]
  split <;> rfl

/-- What stands in the bucket of a key. -/
theorem index_of_mem (t : HashTable H ν) {i : Fin t.bucketCount} {e : α × ν} (h : e ∈ t.buckets i) :
    t.index e.1 = i := Fin.ext (t.placed i e h)

/-! ## Operations -/

/-- Put an entry in front of the bucket of its key, which the table does not have. -/
def insertNew (t : HashTable H ν) (e : α × ν) (h : t.find? e.1 = none) : HashTable H ν :=
  t.setBucket e.1 (e :: t.buckets (t.index e.1))
    (fun x hx => by
      rcases List.mem_cons.mp hx with rfl | hx
      · rfl
      · exact t.index_of_mem hx)
    (List.pairwise_cons.mpr
      ⟨fun x hx => H.eq_comm (by simpa using List.find?_eq_none.mp h x hx), t.distinct _⟩)

/-- Insert an entry, unless the table has its key. -/
def insert (t : HashTable H ν) (e : α × ν) : HashTable H ν :=
  if h : t.find? e.1 = none then t.insertNew e h else t

/-- Give a key a value, whether the table has it or not. -/
def assign (t : HashTable H ν) (a : α) (v : ν) : HashTable H ν :=
  if h : t.find? a = none then t.insertNew (a, v) h
  else
    t.setBucket a ((t.buckets (t.index a)).map fun e => if H.eq e.1 a then (e.1, v) else e)
      (fun x hx => by
        obtain ⟨e, he, rfl⟩ := List.mem_map.mp hx
        have hsame : (if H.eq e.1 a then (e.1, v) else e).1 = e.1 := by split <;> rfl
        rw [hsame]
        exact t.index_of_mem he)
      ((t.distinct _).map _ fun e e' he => by
        have hsame (x : α × ν) : (if H.eq x.1 a then (x.1, v) else x).1 = x.1 := by split <;> rfl
        rwa [hsame, hsame])

/-- Take the entry of a key out. -/
def erase (t : HashTable H ν) (a : α) : HashTable H ν :=
  t.setBucket a ((t.buckets (t.index a)).filter fun e => !H.eq e.1 a)
    (fun _ hx => t.index_of_mem (List.mem_of_mem_filter hx)) ((t.distinct _).filter _)

/-! ## Lookups -/

variable (t : HashTable H ν)

theorem find?_eq_none_iff (a : α) : t.find? a = none ↔ t.lookup a = none := by
  rw [lookup, Option.map_eq_none_iff]

theorem lookup_of_key {a b : α} (h : H.key a = H.key b) : t.lookup a = t.lookup b := by
  have hsame : (fun e : α × ν => H.eq e.1 a) = fun e => H.eq e.1 b := by
    funext e
    rw [Bool.eq_iff_iff, H.eq_iff, H.eq_iff, h]
  rw [lookup, lookup, find?, find?, t.index_of_key h, hsame]

theorem lookup_insertNew (e : α × ν) (h : t.find? e.1 = none) (b : α) :
    (t.insertNew e h).lookup b = if H.eq e.1 b then some e.2 else t.lookup b := by
  rw [insertNew, lookup_setBucket]
  split
  · -- the key is looked for in the bucket that has changed
    rename_i hindex
    split
    · rename_i heq
      rw [List.find?_cons, heq]
      rfl
    · rename_i heq
      rw [List.find?_cons, Bool.eq_false_iff.mpr heq, lookup, find?, hindex]
  · rename_i hindex
    have hne : ¬ H.eq e.1 b = true := fun heq =>
      hindex (t.index_of_key ((H.eq_iff _ _).mp heq)).symm
    rw [if_neg hne]

/-- An entry is inserted if its key has no value. -/
theorem lookup_insert (e : α × ν) (b : α) :
    (t.insert e).lookup b =
      if H.eq e.1 b = true ∧ t.lookup e.1 = none then some e.2 else t.lookup b := by
  rw [insert]
  split
  · rename_i h
    rw [lookup_insertNew, (t.find?_eq_none_iff e.1).mp h]
    simp
  · rename_i h
    rw [find?_eq_none_iff] at h
    rw [if_neg fun hc => h hc.2]

/-- A key that is given a value has it, and so have those equal to it. -/
theorem lookup_assign (a : α) (v : ν) (b : α) :
    (t.assign a v).lookup b = if H.eq a b then some v else t.lookup b := by
  rw [assign]
  split
  · exact t.lookup_insertNew _ _ b
  · rename_i h
    have hsame (x : α × ν) : (if H.eq x.1 a then (x.1, v) else x).1 = x.1 := by split <;> rfl
    have hcomp : ((fun e : α × ν => H.eq e.1 b) ∘ fun e => if H.eq e.1 a then (e.1, v) else e) =
        fun e => H.eq e.1 b := by
      funext e
      rw [Function.comp_apply, hsame]
    rw [lookup_setBucket, List.find?_map, hcomp]
    by_cases hkey : H.key a = H.key b
    · -- the entry that is found is the one of the key
      rw [t.index_of_key hkey, if_pos rfl, if_pos ((H.eq_iff a b).mpr hkey)]
      rw [find?_eq_none_iff, t.lookup_of_key hkey, ← find?_eq_none_iff] at h
      obtain ⟨e, he⟩ := Option.ne_none_iff_exists'.mp h
      rw [find?] at he
      have hea : H.eq e.1 a = true :=
        (H.eq_iff _ _).mpr (((H.eq_iff _ _).mp (by simpa using List.find?_some he)).trans hkey.symm)
      rw [he, Option.map_some, if_pos hea]
      rfl
    · -- another key, in the same bucket or not
      rw [if_neg (fun heq => hkey ((H.eq_iff a b).mp heq))]
      split
      · rename_i hindex
        rw [← hindex, lookup, find?, Option.map_map]
        cases hfound : (t.buckets (t.index b)).find? fun e => H.eq e.1 b with
        | none => rfl
        | some e =>
          have heb : H.key e.1 = H.key b :=
            (H.eq_iff _ _).mp (by simpa using List.find?_some hfound)
          have hea : ¬ H.eq e.1 a = true := fun heq =>
            hkey (((H.eq_iff _ _).mp heq).symm.trans heb)
          rw [Option.map_some, Function.comp_apply, if_neg hea]
          rfl
      · rfl

/-- A key that is taken out has no value, nor have those equal to it. -/
theorem lookup_erase (a b : α) :
    (t.erase a).lookup b = if H.eq a b then none else t.lookup b := by
  rw [erase, lookup_setBucket, List.find?_filter]
  by_cases hkey : H.key a = H.key b
  · -- all entries with the key were taken out
    rw [t.index_of_key hkey, if_pos rfl, if_pos ((H.eq_iff a b).mpr hkey), Option.map_eq_none_iff,
      List.find?_eq_none]
    intro e _
    have hsame : H.eq e.1 a = H.eq e.1 b := by
      rw [Bool.eq_iff_iff, H.eq_iff, H.eq_iff, hkey]
    simp [hsame]
  · rw [if_neg (fun heq => hkey ((H.eq_iff a b).mp heq))]
    split
    · rename_i hindex
      -- no entry of another key was
      have hkept : (fun e : α × ν => decide ((!H.eq e.1 a) = true ∧ H.eq e.1 b = true)) =
          fun e => H.eq e.1 b := by
        funext e
        cases heb : H.eq e.1 b with
        | false => simp
        | true =>
          have hea : H.eq e.1 a = false := by
            rw [Bool.eq_false_iff]
            intro heq
            exact hkey (((H.eq_iff _ _).mp heq).symm.trans ((H.eq_iff _ _).mp heb))
          simp [hea]
      rw [hkept, ← hindex]
      rfl
    · rfl

/-! ## The entries -/

/-- No two keys of the table are equal, whichever buckets they stand in. -/
theorem pairwise_toList : t.toList.Pairwise fun e e' => H.eq e.1 e'.1 = false := by
  rw [toList, List.pairwise_flatMap]
  refine ⟨fun i _ => t.distinct i, ?_⟩
  refine (List.nodup_finRange t.bucketCount).imp ?_
  intro i j hij e he e' he'
  rw [Bool.eq_false_iff]
  intro heq
  refine hij ?_
  rw [← t.index_of_mem he, ← t.index_of_mem he']
  exact t.index_of_key ((H.eq_iff _ _).mp heq)

/-- A search that succeeds in one place only. -/
theorem findSome?_of_unique {β γ : Type*} {l : List β} {f : β → Option γ} {j : β} (hj : j ∈ l)
    (h : ∀ i ∈ l, i ≠ j → f i = none) : l.findSome? f = f j := by
  induction l with
  | nil => cases hj
  | cons i l ih =>
    rw [List.findSome?_cons]
    by_cases hi : i = j
    · subst hi
      -- if the first place has nothing, no place has
      cases hfi : f i with
      | some c => rfl
      | none =>
        dsimp only
        rw [List.findSome?_eq_none_iff]
        intro x hx
        by_cases hxi : x = i
        · rw [hxi, hfi]
        · exact h x (List.mem_cons_of_mem _ hx) hxi
    · rw [h i List.mem_cons_self hi]
      rcases List.mem_cons.mp hj with rfl | hj
      · exact absurd rfl hi
      · exact ih hj fun x hx => h x (List.mem_cons_of_mem _ hx)

/-- Looking a key up is searching all entries for it. -/
theorem lookup_eq_find? (a : α) :
    t.lookup a = (t.toList.find? fun e => H.eq e.1 a).map Prod.snd := by
  have hunique : (List.finRange t.bucketCount).findSome?
      (fun i => (t.buckets i).find? fun e => H.eq e.1 a) = t.find? a := by
    refine findSome?_of_unique (List.mem_finRange (t.index a)) fun i _ hi => ?_
    rw [List.find?_eq_none]
    intro e he heq
    exact hi ((t.index_of_mem he).symm.trans (t.index_of_key ((H.eq_iff _ _).mp heq)))
  rw [toList, List.find?_flatMap, hunique, lookup]

/-- What is looked up is the value of an entry, -/
theorem exists_mem_of_lookup {a : α} {v : ν} (h : t.lookup a = some v) :
    ∃ b, (b, v) ∈ t.toList ∧ H.key b = H.key a := by
  rw [lookup_eq_find?, Option.map_eq_some_iff] at h
  obtain ⟨⟨b, v'⟩, hfound, rfl⟩ := h
  exact ⟨b, List.mem_of_find?_eq_some hfound,
    (H.eq_iff _ _).mp (by simpa using List.find?_some hfound)⟩

/-- and every entry is found. -/
theorem lookup_of_mem {e : α × ν} (h : e ∈ t.toList) : t.lookup e.1 = some e.2 := by
  cases hlookup : t.lookup e.1 with
  | none =>
    rw [lookup_eq_find?, Option.map_eq_none_iff, List.find?_eq_none] at hlookup
    exact absurd ((H.eq_iff _ _).mpr rfl) (hlookup e h)
  | some v =>
    obtain ⟨b, hb, hkey⟩ := t.exists_mem_of_lookup hlookup
    by_contra hne
    have hdiff : e ≠ (b, v) := by
      rintro rfl
      exact hne rfl
    -- two entries with one key would be the same entry
    have : Std.Symm fun e e' : α × ν => H.eq e.1 e'.1 = false := ⟨fun _ _ => H.eq_comm⟩
    have hfalse : H.eq e.1 b = false := t.pairwise_toList.forall h hb hdiff
    rw [(H.eq_iff _ _).mpr hkey.symm] at hfalse
    cases hfalse

/-- The entries of a key are the one that is found, or none. -/
theorem filter_toList (a : α) :
    ((t.toList.filter fun e => H.eq e.1 a).map Prod.snd) = (t.lookup a).toList := by
  rw [t.lookup_eq_find?]
  generalize hes : t.toList = es
  have hdistinct := hes ▸ t.pairwise_toList
  clear hes
  induction es with
  | nil => rfl
  | cons e es ih =>
    obtain ⟨hfirst, hrest⟩ := List.pairwise_cons.mp hdistinct
    cases hea : H.eq e.1 a with
    | false =>
      rw [List.filter_cons_of_neg (by simp [hea]), List.find?_cons_of_neg (by simp [hea])]
      exact ih hrest
    | true =>
      -- no other entry has a key that is equal
      have hnone : (es.filter fun e => H.eq e.1 a) = [] := by
        rw [List.filter_eq_nil_iff]
        intro x hx hxa
        have hsame := (H.eq_iff _ _).mpr
          (((H.eq_iff _ _).mp hea).trans ((H.eq_iff _ _).mp hxa).symm)
        rw [hfirst x hx] at hsame
        cases hsame
      rw [List.filter_cons_of_pos (by simpa using hea), hnone,
        List.find?_cons_of_pos (by simpa using hea)]
      rfl

/-- The entries in another number of buckets. -/
def rehash (n : ℕ) : HashTable H ν where
  bucketCount := n + 1
  pos := Nat.succ_pos n
  buckets i := t.toList.filter fun e => H.hash e.1 % (n + 1) == i
  placed i e he := by simpa using List.of_mem_filter he
  distinct _ := t.pairwise_toList.filter _

/-- Rehashing does not show. -/
theorem lookup_rehash (n : ℕ) (a : α) : (t.rehash n).lookup a = t.lookup a := by
  rw [t.lookup_eq_find?, lookup, find?, rehash, List.find?_filter]
  congr 2
  funext e
  cases heq : H.eq e.1 a with
  | false => simp
  | true =>
    have hhash := H.hash_of_key _ _ ((H.eq_iff _ _).mp heq)
    simp [index, hhash]

/-! ## Growing -/

/-- Before a key is added, the table may be rehashed: `grow` looks at the numbers of entries
and of buckets. -/
def makeRoom (grow : ℕ → ℕ → Option ℕ) (a : α) : HashTable H ν :=
  if (t.find? a).isSome then t
  else
    match grow t.toList.length t.bucketCount with
    | some n => t.rehash n
    | none => t

theorem lookup_makeRoom (grow : ℕ → ℕ → Option ℕ) (a b : α) :
    (t.makeRoom grow a).lookup b = t.lookup b := by
  rw [makeRoom]
  split
  · rfl
  · split
    · exact t.lookup_rehash _ b
    · rfl

/-- Give keys values, one after the other, in a table that may grow. -/
def assignAll (grow : ℕ → ℕ → Option ℕ) (es : List (α × ν)) (t : HashTable H ν) :
    HashTable H ν :=
  es.foldl (fun t e => (t.makeRoom grow e.1).assign e.1 e.2) t

theorem assignAll_append (grow : ℕ → ℕ → Option ℕ) (es fs : List (α × ν))
    (t : HashTable H ν) :
    assignAll grow (es ++ fs) t = assignAll grow fs (assignAll grow es t) :=
  List.foldl_append

/-- The last value that a key was given counts. -/
theorem lookup_assignAll (grow : ℕ → ℕ → Option ℕ) (es : List (α × ν)) (t : HashTable H ν)
    (a : α) :
    (assignAll grow es t).lookup a =
      ((es.reverse.find? fun e => H.eq e.1 a).map Prod.snd).or (t.lookup a) := by
  induction es generalizing t with
  | nil => rfl
  | cons e es ih =>
    rw [assignAll, List.foldl_cons]
    refine (ih _).trans ?_
    rw [lookup_assign, lookup_makeRoom, List.reverse_cons, List.find?_append]
    cases es.reverse.find? fun e => H.eq e.1 a with
    | some x => rfl
    | none => cases hea : H.eq e.1 a <;> simp [hea]

/-! ## Keys -/

/-- With such keys, an entry is in the table if it is what is found under its key. -/
theorem mem_toList_iff [DecidableEq α] {hash : α → ℕ} (t : HashTable (plainHashing hash) ν)
    (a : α) (v : ν) : (a, v) ∈ t.toList ↔ t.lookup a = some v := by
  refine ⟨fun h => t.lookup_of_mem h, fun h => ?_⟩
  obtain ⟨b, hb, hsame⟩ := t.exists_mem_of_lookup h
  have hba : b = a := hsame
  rwa [hba] at hb

theorem nodup_keys : (t.toList.map Prod.fst).Nodup := by
  rw [List.Nodup, List.pairwise_map]
  refine t.pairwise_toList.imp fun {e e'} h heq => ?_
  rw [heq, (H.eq_iff _ _).mpr rfl] at h
  cases h

end HashTable

end Httb.Foundation
