import Httb.Foundation.Loading
import Httb.HeaderMap

/-!
# Loading Headers from a Hash Map

`io_container::set_headers` (`src/io_container.cpp`) adds the entries of an unordered map one
by one, in the order in which the map is iterated, which is not specified. What it leaves
differs from one order to another only in the order of the headers that are new.

## Key Results

- `caseInsensitiveEqual_iff`: the map and the container compare names alike
- `setHeaders_any_order`: what any two orders have in common
-/

namespace Httb

open Httb.Foundation

/-! ## Comparing names -/

/-- `icase_equal_t` compares the lower-cased characters. -/
theorem caseInsensitiveEqual_iff (a b : Str) :
    caseInsensitiveEqual a b = true ↔ a.map tolower = b.map tolower := by
  rw [caseInsensitiveEqual]
  induction a generalizing b with
  | nil => cases b <;> simp
  | cons x a ih =>
    cases b with
    | nil => simp
    | cons y b =>
      have hrest := ih b
      simp only [Bool.and_eq_true, beq_iff_eq] at hrest
      simp only [List.length_cons, List.zip_cons_cons, List.all_cons, Bool.and_eq_true,
        beq_iff_eq, Nat.add_right_cancel_iff, List.map_cons, List.cons.injEq, ← hrest]
      exact and_left_comm

variable [Toolbox]

/-- The names of the headers are pairwise different up to case. -/
def DistinctNames (headers : KvVector) : Prop :=
  headers.Pairwise fun a b => equalsIcase a.1 b.1 = false

theorem distinctNames_iff (headers : KvVector) :
    DistinctNames headers ↔ (headers.map fun h => toLowerCase h.1).Nodup :=
  pairwise_names_iff headers

/-- So the container takes the keys of a map to be different, too. -/
theorem IcaseMap.distinctNames (map : IcaseMap) : DistinctNames map.entries := by
  apply map.distinct.imp
  intro a b hab
  rw [equalsIcase_eq_decide, decide_eq_false_iff_not, Toolbox.toLowerCase_eq,
    Toolbox.toLowerCase_eq, ← caseInsensitiveEqual_iff, hab]
  exact Bool.false_ne_true

/-! ## Loading is writing entries -/

namespace IoContainer

theorem headers_addHeader_eq_writeEntry (c : IoContainer) (w : Kv) :
    (c.addHeader w.1 w.2).headers = writeEntry toLowerCase toLowerCase c.headers w := by
  rw [headers_addHeader, equalsIcase_right]
  rfl

theorem headers_foldl_addHeader (values : KvVector) (c : IoContainer) :
    (values.foldl (fun c h => c.addHeader h.1 h.2) c).headers =
      values.foldl (writeEntry toLowerCase toLowerCase) c.headers := by
  induction values generalizing c with
  | nil => rfl
  | cons w values ih =>
    rw [List.foldl_cons, List.foldl_cons, ih, headers_addHeader_eq_writeEntry]

/-- The store of a container with distinct names. -/
theorem exists_represents {c : IoContainer} (h : DistinctNames c.headers) :
    ∃ m, Represents toLowerCase c.headers m :=
  ⟨_, represents_ofEntries ((distinctNames_iff _).mp h)⟩

end IoContainer

/-! ## Names stay distinct -/

namespace HeaderOp

variable {c : IoContainer}

/-- No call that writes headers stores a name twice. -/
theorem distinctNames_apply (h : DistinctNames c.headers) (op : HeaderOp) :
    DistinctNames (op.apply c).headers := by
  obtain ⟨m, hm⟩ := IoContainer.exists_represents h
  exact pairwise_names (represents_apply hm op)

theorem distinctNames_foldl (h : DistinctNames c.headers) (ops : List HeaderOp) :
    DistinctNames (ops.foldl apply c).headers := by
  induction ops generalizing c with
  | nil => exact h
  | cons op ops ih => exact ih (distinctNames_apply h op)

end HeaderOp

/-! ## Lookups -/

namespace IoContainer

variable {c c' : IoContainer}

theorem findHeaderPair_perm (h : DistinctNames c.headers) (hperm : c.headers.Perm c'.headers)
    (name : Str) : c.findHeaderPair name = c'.findHeaderPair name := by
  rw [findHeaderPair, findHeaderPair]
  simp only [equalsIcase_eq_decide]
  exact find?_key_perm ((distinctNames_iff _).mp h) hperm _

/-- The other lookups look at the pair that is found. -/
theorem hasHeader_eq_isSome (c : IoContainer) (name : Str) :
    c.hasHeader name = (c.findHeaderPair name).isSome := by
  rw [hasHeader, findHeaderPair, Bool.eq_iff_iff, List.any_eq_true, List.find?_isSome]

theorem getHeaderValue_eq_getD (c : IoContainer) (name : Str) :
    c.getHeaderValue name = ((c.findHeaderPair name).map Prod.snd).getD [] := by
  rw [getHeaderValue, findHeaderPair]
  cases c.headers.find? fun h => equalsIcase h.1 name <;> rfl

end IoContainer

/-! ## Any two orders -/

/-- What two containers have in common into which the same headers were loaded. -/
structure LoadedAlike (before after after' : IoContainer) : Prop where
  perm : after.headers.Perm after'.headers
  /-- The headers that were there keep their places in both. -/
  names : (after.headers.take before.headers.length).map Prod.fst = before.headers.map Prod.fst
  places : after.headers.take before.headers.length = after'.headers.take before.headers.length
  hasHeader : ∀ name, after.hasHeader name = after'.hasHeader name
  findHeaderPair : ∀ name, after.findHeaderPair name = after'.findHeaderPair name
  getHeaderValue : ∀ name, after.getHeaderValue name = after'.getHeaderValue name
  cmpHeaderValue : ∀ name comparable,
    after.cmpHeaderValue name comparable = after'.cmpHeaderValue name comparable

theorem loadedAlike_setHeadersMap {c : IoContainer} (hc : DistinctNames c.headers)
    {map map' : IcaseMap} (hperm : map.entries.Perm map'.entries) :
    LoadedAlike c (c.setHeadersMap map) (c.setHeadersMap map') := by
  have hnodup := (distinctNames_iff _).mp hc
  have hkeys := (distinctNames_iff _).mp map.distinctNames
  obtain ⟨new, new', hnew, hloaded, hloaded'⟩ :=
    foldl_writeEntry_perm toLowerCase_toLowerCase hnodup hkeys hperm
  rw [← IoContainer.headers_foldl_addHeader] at hloaded hloaded'
  have hheaders : (c.setHeadersMap map).headers = _ := hloaded
  have hheaders' : (c.setHeadersMap map').headers = _ := hloaded'
  have hall : (c.setHeadersMap map).headers.Perm (c.setHeadersMap map').headers := by
    rw [hheaders, hheaders']
    exact hnew.append_left _
  have hdistinct : DistinctNames (c.setHeadersMap map).headers :=
    HeaderOp.distinctNames_apply hc (.setHeadersMap map)
  have hfind := IoContainer.findHeaderPair_perm hdistinct hall
  have hhas (name : Str) : (c.setHeadersMap map).hasHeader name =
      (c.setHeadersMap map').hasHeader name := by
    rw [IoContainer.hasHeader_eq_isSome, hfind, ← IoContainer.hasHeader_eq_isSome]
  have hvalue (name : Str) : (c.setHeadersMap map).getHeaderValue name =
      (c.setHeadersMap map').getHeaderValue name := by
    rw [IoContainer.getHeaderValue_eq_getD, hfind, ← IoContainer.getHeaderValue_eq_getD]
  have htake (rest : KvVector) :
      (c.headers.map (updateEntry toLowerCase map.entries) ++ rest).take c.headers.length =
        c.headers.map (updateEntry toLowerCase map.entries) :=
    List.take_left' (List.length_map _)
  exact {
    perm := hall
    names := by
      rw [hheaders, htake, List.map_map]
      rfl
    places := by rw [hheaders, hheaders', htake, htake]
    hasHeader := hhas
    findHeaderPair := hfind
    getHeaderValue := hvalue
    cmpHeaderValue := fun name comparable => by
      rw [IoContainer.cmpHeaderValue, IoContainer.cmpHeaderValue, hhas, hvalue] }

/-- What a container has into which a multimap was loaded: no name twice, and under each
name of the multimap one of the values that it maps to the name. -/
structure LoadsOneOfEach (mmp : IcaseMultimap) (after : IoContainer) : Prop where
  distinct : DistinctNames after.headers
  one_of : ∀ e ∈ mmp.entries, ∃ e' ∈ mmp.entries, equalsIcase e'.1 e.1 = true ∧
    after.hasHeader e.1 = true ∧ after.getHeaderValue e.1 = e'.2

theorem loadsOneOfEach_setHeadersMultimap {c : IoContainer} (hc : DistinctNames c.headers)
    (mmp : IcaseMultimap) : LoadsOneOfEach mmp (c.setHeadersMultimap mmp) := by
  obtain ⟨m, hm⟩ := IoContainer.exists_represents hc
  have hloaded : Represents toLowerCase (c.setHeadersMultimap mmp).headers _ :=
    represents_foldl_addHeader mmp.entries hm
  refine ⟨pairwise_names hloaded, fun e he => ?_⟩
  have hkeyed : toLowerCase e.1 ∈ (mmp.entries.map HeaderOp.keyed).map Prod.fst :=
    List.mem_map_of_mem (List.mem_map_of_mem he)
  obtain ⟨w, hw, hkey, hvalue⟩ := OrderedMap.exists_value_insertAll hkeyed m
  obtain ⟨e', he', rfl⟩ := List.mem_map.mp hw
  refine ⟨e', he', (Toolbox.equalsIcase_iff _ _).mpr hkey, ?_, ?_⟩
  · rw [hasHeader_eq_contains hloaded, OrderedMap.contains_eq_isSome]
    exact Option.isSome_iff_exists.mpr ⟨_, hvalue⟩
  · have hfound : OrderedMap.value _ (toLowerCase e.1) = some e'.2 := hvalue
    rw [getHeaderValue_eq_value hloaded, hfound, Option.getD_some]

/-- **Loading a hash map does not depend on the order in which it is iterated**: two orders
leave the same headers, those that were there in the same places, and the same answers. Of a
multimap any order leaves under each of its names one of the values, and no name twice. -/
theorem setHeaders_any_order {c : IoContainer} (hc : DistinctNames c.headers) :
    (∀ map map' : IcaseMap, map.entries.Perm map'.entries →
      LoadedAlike c (c.setHeadersMap map) (c.setHeadersMap map')) ∧
    ∀ mmp : IcaseMultimap, LoadsOneOfEach mmp (c.setHeadersMultimap mmp) :=
  ⟨fun _ _ => loadedAlike_setHeadersMap hc, loadsOneOfEach_setHeadersMultimap hc⟩

omit [Toolbox] in
/-- Two orders of a map with one header that is there in another spelling and two new ones. -/
theorem setHeaders_two_orders :
    letI := Toolbox.reference
    let c : IoContainer := { headers := [("Accept".toList, "a".toList)] }
    let map : IcaseMap :=
      ⟨[("ACCEPT".toList, "b".toList), ("X".toList, "1".toList), ("Y".toList, "2".toList)],
        by decide⟩
    let map' : IcaseMap :=
      ⟨[("Y".toList, "2".toList), ("X".toList, "1".toList), ("ACCEPT".toList, "b".toList)],
        by decide⟩
    LoadedAlike c (c.setHeadersMap map) (c.setHeadersMap map') ∧
      (c.setHeadersMap map).headers =
        [("Accept".toList, "b".toList), ("x".toList, "1".toList), ("y".toList, "2".toList)] := by
  let := Toolbox.reference
  have hc : DistinctNames [("Accept".toList, "a".toList)] := List.pairwise_singleton _ _
  refine ⟨(setHeaders_any_order (c := { headers := [("Accept".toList, "a".toList)] }) hc).1 _ _ ?_,
    by decide⟩
  exact List.reverse_perm
    [("Y".toList, "2".toList), ("X".toList, "1".toList), ("ACCEPT".toList, "b".toList)]

end Httb
