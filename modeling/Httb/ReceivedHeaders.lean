import Httb.HeaderMap
import Httb.Response

/-!
# The Headers of a Received Message

Both clients copy the fields of a received message into a response with `add_header`
(`src/client.cpp`), which keeps one value for a name. A message may carry several under one
name; what the response keeps then is the value that came last.

## Key Result

- `received_values`: the values a response holds under a name, and when they are all that
  were received
-/

namespace Httb

open Httb.Foundation

variable [Toolbox]

/-- The values filed under a name, up to case, in order. -/
def valuesUnder (name : Str) (headers : KvVector) : List Str :=
  (headers.filter fun header => equalsIcase header.1 name).map Prod.snd

theorem valuesUnder_eq (name : Str) (headers : KvVector) :
    valuesUnder name headers =
      (headers.filter fun header => decide (toLowerCase header.1 = toLowerCase name)).map
        Prod.snd := by
  simp only [valuesUnder, equalsIcase_eq_decide]

/-- In a header store the values under a name are the one it has, if any. -/
theorem valuesUnder_of_represents {headers : KvVector} {m : OrderedMap Str Str}
    (h : Represents toLowerCase headers m) (name : Str) :
    valuesUnder name headers = (m.value (toLowerCase name)).toList := by
  rw [valuesUnder_eq, h.filter_eq]

/-- The ordered map that the received fields make. -/
theorem represents_responseOfBlocking (message : BeastResponse) :
    Represents toLowerCase (responseOfBlocking message).headers
      (OrderedMap.empty.insertAll (message.fields.map HeaderOp.keyed)) := by
  rw [responseOfBlocking, addFields_eq]
  exact represents_foldl_addHeader message.fields Represents.nil

/-- Of the values received under a name the response keeps the last one. -/
theorem valuesUnder_responseOfBlocking (message : BeastResponse) (name : Str) :
    valuesUnder name (responseOfBlocking message).getHeaders =
      (valuesUnder name message.fields).getLast?.toList := by
  rw [IoContainer.getHeaders, valuesUnder_of_represents (represents_responseOfBlocking message),
    OrderedMap.value_insertAll_empty, ← List.map_reverse, List.find?_map, Option.map_map,
    valuesUnder_eq, List.getLast?_map, List.getLast?_filter]
  rfl

omit [Toolbox] in
/-- A list is its last element exactly when it has no second one. -/
theorem getLast?_toList_eq_iff {α : Type*} (l : List α) :
    l.getLast?.toList = l ↔ l.length ≤ 1 := by
  match l with
  | [] => simp
  | [a] => simp
  | a :: b :: l =>
    apply iff_of_false
    · intro h
      have hlength := congrArg List.length h
      rw [List.getLast?_eq_some_getLast (by simp)] at hlength
      simp at hlength
    · simp

/-- No name has two values exactly when the names are pairwise different. -/
theorem length_valuesUnder_le_one_iff (fields : KvVector) :
    (∀ name, (valuesUnder name fields).length ≤ 1) ↔
      fields.Pairwise fun a b => equalsIcase a.1 b.1 = false := by
  have hlength (name : Str) : (valuesUnder name fields).length =
      (fields.map fun field => toLowerCase field.1).count (toLowerCase name) := by
    rw [valuesUnder_eq, List.length_map, List.count, List.countP_map,
      List.countP_eq_length_filter]
    refine congrArg List.length (List.filter_congr fun field _ => ?_)
    rw [Function.comp_apply, beq_eq_decide]
  rw [pairwise_names_iff, List.nodup_iff_count_le_one]
  simp only [hlength]
  constructor
  · intro h key
    by_cases hmem : key ∈ fields.map fun field => toLowerCase field.1
    · obtain ⟨field, _, rfl⟩ := List.mem_map.mp hmem
      exact h field.1
    · rw [List.count_eq_zero_of_not_mem hmem]
      exact Nat.zero_le 1
  · exact fun h name => h (toLowerCase name)

/-- **The values of a received message.** Of the values received under a name, up to case, a
response keeps the one that came last; so all of them are there, for every name, if and only
if the names are pairwise different. -/
theorem received_values (message : BeastResponse) :
    (∀ name, valuesUnder name (responseOfBlocking message).getHeaders =
        (valuesUnder name message.fields).getLast?.toList ∧
      valuesUnder name (responseOfAsync message).getHeaders =
        (valuesUnder name message.fields).getLast?.toList) ∧
    ((∀ name, valuesUnder name (responseOfBlocking message).getHeaders =
          valuesUnder name message.fields ∧
        valuesUnder name (responseOfAsync message).getHeaders =
          valuesUnder name message.fields) ↔
      message.fields.Pairwise fun a b => equalsIcase a.1 b.1 = false) := by
  rw [responseOfAsync_eq]
  simp only [and_self, valuesUnder_responseOfBlocking, getLast?_toList_eq_iff]
  exact ⟨fun _ => trivial, length_valuesUnder_le_one_iff message.fields⟩

omit [Toolbox] in
/-- Of two cookies the first one is lost. -/
theorem received_values_lost :
    letI := Toolbox.reference
    let message : BeastResponse :=
      { fields := [("Set-Cookie".toList, "a=1".toList), ("set-cookie".toList, "b=2".toList)] }
    valuesUnder "Set-Cookie".toList message.fields = ["a=1".toList, "b=2".toList] ∧
      valuesUnder "Set-Cookie".toList (responseOfBlocking message).getHeaders = ["b=2".toList] ∧
      valuesUnder "Set-Cookie".toList (responseOfAsync message).getHeaders = ["b=2".toList] := by
  decide

end Httb
