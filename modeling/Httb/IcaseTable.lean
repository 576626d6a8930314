import Httb.Foundation.Calls
import Httb.Foundation.HashTable
import Httb.HeaderLoading

/-!
# Hash Maps of Header Names

`icase_map_t` (`include/httb/types.h`) is an unordered map whose keys are hashed by
`icase_hash_t` and compared by `icase_equal_t`. Both lower-case the characters, so a map of
this type is one from lower-cased names, however its keys are spelled, whatever numbers
`std::hash<int>` gives, and whenever the table is rehashed. `set_headers`
(`src/io_container.cpp`) copies such a map into a container.

## Main result

- `icaseMap_refines`
-/

namespace Httb

open Httb.Foundation

/-! ## The hash and the comparison -/

/-- The number that `tolower` returns for a `char`: its byte as an unsigned one, but for the byte
that is `EOF` as a `char`. -/
def lowerCode (c : Char) : Int32 :=
  let byte := (tolower c).toNat.toUInt8
  if byte = 0xFF then -1 else byte.toUInt32.toInt32

/-- `icase_hash_t`, over the numbers of `std::hash<int>`. -/
def icaseHash (hash : Int32 → UInt64) (str : Str) : UInt64 :=
  str.foldl (fun (h : UInt64) c =>
    h ^^^ (hash (lowerCode c) + (0x9e3779b9 : UInt64) + (h <<< (6 : UInt64)) +
      (h >>> (2 : UInt64)))) 0

theorem icaseHash_map_tolower (hash : Int32 → UInt64) (str : Str) :
    icaseHash hash (str.map tolower) = icaseHash hash str := by
  rw [icaseHash, icaseHash, List.foldl_map]
  simp only [lowerCode, tolower_tolower]

/-- Equal names have the same hash, as an unordered map requires. -/
@[simps] def icaseHashing (hash : Int32 → UInt64) : Hashing Str Str where
  hash str := (icaseHash hash str).toNat
  eq := caseInsensitiveEqual
  key str := str.map tolower
  eq_iff := caseInsensitiveEqual_iff
  hash_of_key a b h := by
    rw [← icaseHash_map_tolower, h, icaseHash_map_tolower]

/-! ## Calls on a map -/

/-- `icase_map_t` with its buckets. -/
abbrev IcaseTable (hash : Int32 → UInt64) := HashTable (icaseHashing hash) Str

/-- The map as it is iterated, bucket by bucket. -/
def icaseMapOf {hash : Int32 → UInt64} (table : IcaseTable hash) : IcaseMap :=
  ⟨table.toList, table.pairwise_toList⟩

/-- A call on a map. -/
inductive MapCall where
  | insert (kv : Kv)
  /-- `map[key] = value`. -/
  | assign (key value : Str)
  | erase (key : Str)
  | find (key : Str)
  | rehash (buckets : ℕ)
  | clear

/-- What a call returns. -/
inductive MapResult where
  | done
  | inserted (b : Bool)
  | erased (count : ℕ)
  | found (value : Option Str)
  deriving DecidableEq

namespace MapCall

section Exec

variable {hash : Int32 → UInt64}

/-- What the table does. -/
def exec (grow : ℕ → ℕ → Option ℕ) : MapCall → IcaseTable hash → MapResult × IcaseTable hash
  | .insert kv, table =>
    (.inserted (table.find? kv.1).isNone, (table.makeRoom grow kv.1).insert kv)
  | .assign key value, table => (.done, (table.makeRoom grow key).assign key value)
  | .erase key, table =>
    (.erased (if (table.find? key).isSome then 1 else 0), table.erase key)
  | .find key, table => (.found ((table.find? key).map Prod.snd), table)
  | .rehash buckets, table => (.done, table.rehash buckets)
  | .clear, table => (.done, HashTable.empty (table.bucketCount - 1))

end Exec

/-- What a call means: names are keys in lower case. -/
def spec : MapCall → (Str → Option Str) → MapResult × (Str → Option Str)
  | .insert kv, m =>
    let key := kv.1.map tolower
    (.inserted (m key).isNone, if (m key).isNone then Function.update m key (some kv.2) else m)
  | .assign key value, m => (.done, Function.update m (key.map tolower) (some value))
  | .erase key, m =>
    let key := key.map tolower
    (.erased (if (m key).isSome then 1 else 0), Function.update m key none)
  | .find key, m => (.found (m (key.map tolower)), m)
  | .rehash _, m => (.done, m)
  | .clear, _ => (.done, fun _ => none)

/-! ## One call -/

section Simulation

variable {hash : Int32 → UInt64}

/-- The table and the map that it is. -/
def Shows (table : IcaseTable hash) (m : Str → Option Str) : Prop :=
  ∀ name, table.lookup name = m (name.map tolower)

variable {table : IcaseTable hash} {m : Str → Option Str}

theorem isSome_find? (h : Shows table m) (name : Str) :
    (table.find? name).isSome = (m (name.map tolower)).isSome := by
  rw [← h name, HashTable.lookup, Option.isSome_map]

theorem isNone_find? (h : Shows table m) (name : Str) :
    (table.find? name).isNone = (m (name.map tolower)).isNone := by
  rw [← Option.not_isSome, isSome_find? h, Option.not_isSome]

theorem Shows.makeRoom (h : Shows table m) (grow : ℕ → ℕ → Option ℕ) (key : Str) :
    Shows (table.makeRoom grow key) m := by
  intro name
  rw [HashTable.lookup_makeRoom, h name]

/-- An update that depends on the names in lower case only. -/
theorem ite_caseInsensitiveEqual (h : Shows table m) (key : Str) (value : Option Str)
    (name : Str) :
    (if caseInsensitiveEqual key name then value else table.lookup name) =
      Function.update m (key.map tolower) value (name.map tolower) := by
  rw [Function.update_apply, h name]
  refine if_congr ?_ rfl rfl
  rw [caseInsensitiveEqual_iff]
  exact eq_comm

/-- The table returns what the map does, and stays a table for it. -/
theorem exec_shows (grow : ℕ → ℕ → Option ℕ) (call : MapCall) (h : Shows table m) :
    (exec grow call table).1 = (spec call m).1 ∧
      Shows (exec grow call table).2 (spec call m).2 := by
  cases call with
  | insert kv =>
    have hroom := h.makeRoom grow kv.1
    -- the table is asked after it has made room, which no lookup sees
    refine ⟨congrArg MapResult.inserted (isNone_find? h kv.1), fun name => ?_⟩
    rw [exec, HashTable.lookup_insert, hroom kv.1, spec]
    cases hm : m (kv.1.map tolower) with
    | none =>
      simp only [icaseHashing_eq, and_true, Option.isNone_none, if_true]
      exact ite_caseInsensitiveEqual hroom kv.1 (some kv.2) name
    | some value => simpa using hroom name
  | assign key value =>
    refine ⟨rfl, fun name => ?_⟩
    rw [exec, HashTable.lookup_assign]
    exact ite_caseInsensitiveEqual (h.makeRoom grow key) key (some value) name
  | erase key =>
    refine ⟨?_, fun name => ?_⟩
    · rw [exec, isSome_find? h]
      rfl
    · rw [exec, HashTable.lookup_erase]
      exact ite_caseInsensitiveEqual h key none name
  | find key => exact ⟨congrArg MapResult.found (h key), h⟩
  | rehash buckets =>
    refine ⟨rfl, fun name => ?_⟩
    rw [exec, HashTable.lookup_rehash]
    exact h name
  | clear => exact ⟨rfl, fun _ => rfl⟩

end Simulation

end MapCall

/-! ## Copying the map into a container -/

section Loading

variable [Toolbox] {hash : Int32 → UInt64}

/-- A header of the map replaces the one of the container. -/
theorem value_insertAll_table (table : IcaseTable hash) (m : OrderedMap Str Str) (name : Str) :
    (m.insertAll (table.toList.map HeaderOp.keyed)).value (toLowerCase name) =
      (table.lookup name).or (m.value (toLowerCase name)) := by
  have hkey (e : Kv) (h : toLowerCase e.1 = toLowerCase name) :
      table.lookup e.1 = table.lookup name := by
    rw [Toolbox.toLowerCase_eq, Toolbox.toLowerCase_eq] at h
    exact table.lookup_of_key h
  cases hlookup : table.lookup name with
  | none =>
    -- no header of the map is written under this name
    refine OrderedMap.value_insertAll_of_forall_ne (fun w hw heq => ?_) m
    obtain ⟨e, he, rfl⟩ := List.mem_map.mp hw
    have hfound := (hkey e heq).symm.trans (table.lookup_of_mem he)
    rw [hlookup] at hfound
    cases hfound
  | some value =>
    -- one of them is, and the table has one entry for all spellings
    obtain ⟨b, hb, hsame⟩ := table.exists_mem_of_lookup hlookup
    have hmem : toLowerCase name ∈ (table.toList.map HeaderOp.keyed).map Prod.fst := by
      rw [Toolbox.toLowerCase_eq, List.map_map]
      refine List.mem_map.mpr ⟨(b, value), hb, ?_⟩
      exact (Toolbox.toLowerCase_eq b).trans hsame
    obtain ⟨w, hw, heq, hvalue⟩ := OrderedMap.exists_value_insertAll hmem m
    obtain ⟨e, he, rfl⟩ := List.mem_map.mp hw
    have hfound := (hkey e heq).symm.trans (table.lookup_of_mem he)
    rw [hlookup] at hfound
    rw [hvalue, Option.some_or]
    exact hfound.symm

end Loading

variable [Toolbox]

/-- What a container shows into which a map was copied. -/
structure ShowsMap (m : Str → Option Str) (before after : IoContainer) : Prop where
  distinct : DistinctNames after.headers
  hasHeader : ∀ name,
    after.hasHeader name = ((m (name.map tolower)).isSome || before.hasHeader name)
  getHeaderValue : ∀ name,
    after.getHeaderValue name = (m (name.map tolower)).getD (before.getHeaderValue name)

theorem showsMap_setHeadersMap {hash : Int32 → UInt64} {table : IcaseTable hash}
    {m : Str → Option Str} (h : MapCall.Shows table m) {c : IoContainer}
    (hc : DistinctNames c.headers) : ShowsMap m c (c.setHeadersMap (icaseMapOf table)) := by
  obtain ⟨stored, hstored⟩ := IoContainer.exists_represents hc
  have hloaded : Represents toLowerCase (c.setHeadersMap (icaseMapOf table)).headers _ :=
    represents_foldl_addHeader table.toList hstored
  have hvalue (name : Str) := value_insertAll_table table stored name
  refine ⟨pairwise_names hloaded, fun name => ?_, fun name => ?_⟩
  · rw [hasHeader_eq_contains hloaded, hasHeader_eq_contains hstored,
      OrderedMap.contains_eq_isSome, OrderedMap.contains_eq_isSome, hvalue, h name,
      Option.isSome_or]
  · rw [getHeaderValue_eq_value hloaded, getHeaderValue_eq_value hstored, hvalue, h name]
    cases m (name.map tolower) <;> rfl

/-- **A hash map of headers is a map from lower-cased names.** Whatever is called on it, in any
order, it returns what a map of names in lower case returns, and `set_headers` writes this map
over the headers of a container: neither the hash nor the rehashing can be seen. -/
theorem icaseMap_refines (hash : Int32 → UInt64) (grow : ℕ → ℕ → Option ℕ) (buckets : ℕ)
    (calls : List MapCall) {c : IoContainer} (hc : DistinctNames c.headers) :
    let run := runCalls (MapCall.exec grow) calls (HashTable.empty buckets : IcaseTable hash)
    let meaning := runCalls MapCall.spec calls fun _ => none
    run.1 = meaning.1 ∧ ShowsMap meaning.2 c (c.setHeadersMap (icaseMapOf run.2)) := by
  intro run meaning
  have hempty : MapCall.Shows (HashTable.empty buckets : IcaseTable hash) fun _ => none :=
    fun _ => rfl
  obtain ⟨hresults, hshows⟩ :=
    runCalls_simulates (fun call _ _ h => MapCall.exec_shows grow call h) calls hempty
  exact ⟨hresults, showsMap_setHeadersMap hshows hc⟩

omit [Toolbox] in
/-- Two spellings of a name in a table that grows: the map keeps the first value, and the header
of the container is replaced. -/
theorem icaseMap_refines_two_spellings :
    letI := Toolbox.reference
    let grow (entries buckets : ℕ) := if buckets ≤ entries then some (2 * buckets) else none
    let calls : List MapCall := [.insert ("Accept".toList, "a".toList),
      .insert ("ACCEPT".toList, "b".toList), .assign "Host".toList "h".toList,
      .find "accept".toList]
    let run := runCalls (MapCall.exec grow) calls
      (HashTable.empty 0 : IcaseTable fun i => i.toInt64.toUInt64)
    let c : IoContainer := { headers := [("host".toList, "old".toList)] }
    run.1 = [.inserted true, .inserted false, .done, .found (some "a".toList)] ∧
      (c.setHeadersMap (icaseMapOf run.2)).getHeaderValue "HOST".toList = "h".toList := by
  let := Toolbox.reference
  have hc : DistinctNames [("host".toList, "old".toList)] := List.pairwise_singleton _ _
  intro grow calls run c
  obtain ⟨hresults, hshows⟩ :=
    icaseMap_refines (fun i => i.toInt64.toUInt64) grow 0 calls (c := c) hc
  exact ⟨hresults.trans (by decide), (hshows.getHeaderValue _).trans (by decide)⟩

end Httb
