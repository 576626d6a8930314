import Httb.QueryString
import Httb.RequestBody
import Httb.Response

/-!
# Form Bodies and Their Two Decoders

`body_form_urlencoded::build` writes names and values as they are, so its text is the text
of a parameter list in a URL, and `response::parse_form_url_encode` reads it as `parse_url`
reads a query. The constructor from a string reads it in the same way, after it has dropped
a question mark at the start.

## Key Results

- `form_roundTrip`: which parameter lists come back from each of the two decoders
- `build_ofString`: a string that is encoded already is built as it was given
-/

namespace Httb

open Httb.Foundation

variable [Toolbox]

namespace BodyFormUrlencoded

/-! ## The text -/

omit [Toolbox] in
theorem buildLoop_eq (size i : ℕ) (params : KvVector) (h : i + params.length = size) :
    buildLoop size i params =
      "&".toList.intercalate (params.map fun p => p.1 ++ "=".toList ++ p.2) := by
  induction params generalizing i with
  | nil => rfl
  | cons p params ih =>
    rw [List.length_cons] at h
    rw [buildLoop, ih (i + 1) (by omega), List.map_cons]
    cases params with
    | nil =>
      -- the last parameter is followed by nothing
      rw [if_neg (by simp at h; omega), List.map_nil, List.intercalate_singleton,
        List.intercalate_nil, List.append_nil, List.append_nil]
    | cons q params =>
      rw [if_pos (by simp at h; omega), List.map_cons, List.intercalate_cons_cons]

/-- The text of a form is that of a parameter list. -/
theorem build_eq (b : BodyFormUrlencoded) : b.build = paramsText b.params := by
  rw [build, buildLoop_eq _ _ _ (by simp), paramsText, Toolbox.glue_eq]

/-! ## The decoders -/

/-- `parse_form_url_encode` reads a body as `parse_url` reads a query. -/
theorem parseFormUrlEncode_eq (resp : Response) :
    resp.parseFormUrlEncode = queryParams resp.data := by
  rw [Response.parseFormUrlEncode, queryParams, map_splitPairStr]

omit [Toolbox] in
/-- A name that loses its first character keeps the list printable. -/
theorem printable_of_cons {c : Char} {name value : Str} {rest : KvVector}
    (h : Printable ((c :: name, value) :: rest)) : Printable ((name, value) :: rest) where
  key := by
    obtain ⟨hfirst, hrest⟩ := List.forall_mem_cons.mp h.key
    refine List.forall_mem_cons.mpr ⟨?_, hrest⟩
    exact ⟨fun hmem => hfirst.1 (List.mem_cons_of_mem c hmem),
      fun hmem => hfirst.2 (List.mem_cons_of_mem c hmem)⟩
  value := List.forall_mem_cons.mpr (List.forall_mem_cons.mp h.value)

theorem params_foldl_addParam (pairs : List Str) (b : BodyFormUrlencoded) :
    (pairs.foldl (fun b param => b.addParam (splitPairStr param "=".toList)) b).params =
      b.params ++ pairs.map fun item => splitPairStr item "=".toList := by
  induction pairs generalizing b with
  | nil => simp
  | cons item pairs ih =>
    rw [List.foldl_cons, ih]
    simp [addParam]

/-- The constructor reads a text that is not empty as `parse_url` does, too, but for a
question mark at its start. -/
theorem params_ofString {encoded query : Str} (hne : query ≠ [])
    (hquery : (if encoded.head? = some '?' then encoded.drop 1 else encoded) = query) :
    (ofString encoded).params = queryParams query := by
  rw [ofString, parseParams, hquery, params_foldl_addParam]
  exact map_splitStr_eq_queryParams hne

/-! ## Round trips -/

/-- A parameter list comes back from its text exactly when it is printable. -/
theorem queryParams_paramsText_eq_iff (params : KvVector) :
    queryParams (paramsText params) = params ↔ Printable params := by
  refine ⟨fun h => ?_, queryParams_paramsText⟩
  rw [← h]
  exact queryParams_printable _

theorem paramsText_cons_ne_nil (p : Kv) (params : KvVector) : paramsText (p :: params) ≠ [] :=
  paramsText_ne_nil (List.cons_ne_nil p params)

/-- The text begins with the first name. -/
theorem paramsText_cons (c : Char) (name value : Str) (params : KvVector) :
    paramsText ((c :: name, value) :: params) = c :: paramsText ((name, value) :: params) := by
  simp only [paramsText, Toolbox.glue_eq, List.map_cons]
  cases params with
  | nil => simp
  | cons q params => simp [List.intercalate_cons_cons]

theorem head?_paramsText_nil (value : Str) (params : KvVector) :
    (paramsText (([], value) :: params)).head? = some '=' := by
  simp only [paramsText, Toolbox.glue_eq, List.map_cons]
  cases params with
  | nil => simp
  | cons q params => simp [List.intercalate_cons_cons]

/-- What the constructor makes of the text of a form. -/
theorem params_ofString_build (first : Kv) (rest : KvVector) :
    (ofString (build ⟨first :: rest⟩)).params = first :: rest ↔
      Printable (first :: rest) ∧ first.1.head? ≠ some '?' := by
  obtain ⟨name, value⟩ := first
  rw [build_eq]
  by_cases hmark : name.head? = some '?'
  · -- the question mark is dropped, and no name that is read then is as long as this one
    obtain ⟨name, rfl⟩ : ∃ n, name = '?' :: n := by
      cases name with
      | nil => simp at hmark
      | cons c n => exact ⟨n, by simpa using hmark⟩
    have hdropped : (if (paramsText (('?' :: name, value) :: rest)).head? = some '?' then
        (paramsText (('?' :: name, value) :: rest)).drop 1
      else paramsText (('?' :: name, value) :: rest)) = paramsText ((name, value) :: rest) := by
      simp [paramsText_cons]
    have hread := params_ofString (paramsText_cons_ne_nil (name, value) rest) hdropped
    rw [hread]
    apply iff_of_false
    · intro h
      have hprintable : Printable (('?' :: name, value) :: rest) := by
        rw [← h]
        exact queryParams_printable _
      rw [queryParams_paramsText (printable_of_cons hprintable)] at h
      simp at h
    · exact fun h => h.2 hmark
  · have hhead : (paramsText ((name, value) :: rest)).head? ≠ some '?' := by
      cases name with
      | nil =>
        rw [head?_paramsText_nil]
        decide
      | cons c n =>
        rw [paramsText_cons]
        simpa using hmark
    have hread := params_ofString (paramsText_cons_ne_nil (name, value) rest) (if_neg hhead)
    rw [hread, queryParams_paramsText_eq_iff]
    simp [hmark]

/-- **The round trip of form bodies, exactly.** `parse_form_url_encode` gives the list back if
and only if no name holds `=` or `&` and no value holds `&`; the constructor gives a list that
is not empty back if and only if, besides, the first name does not begin with `?`. -/
theorem form_roundTrip :
    (∀ (params : KvVector) (resp : Response),
      (resp.setBody (build ⟨params⟩)).parseFormUrlEncode = params ↔ Printable params) ∧
    ∀ (first : Kv) (rest : KvVector),
      (ofString (build ⟨first :: rest⟩)).params = first :: rest ↔
        Printable (first :: rest) ∧ first.1.head? ≠ some '?' := by
  refine ⟨fun params resp => ?_, params_ofString_build⟩
  rw [parseFormUrlEncode_eq, Response.setBody, build_eq]
  exact queryParams_paramsText_eq_iff params

omit [Toolbox] in
/-- A value with a separator comes back as two parameters from both decoders. -/
theorem form_value_with_separator :
    letI := Toolbox.reference
    (({} : Response).setBody (build ⟨[("a".toList, "1&b=2".toList)]⟩)).parseFormUrlEncode =
      [("a".toList, "1".toList), ("b".toList, "2".toList)] ∧
    (({} : Response).setBody (build ⟨[("a".toList, "1&b=2".toList)]⟩)).parseFormUrlEncode ≠
      [("a".toList, "1&b=2".toList)] ∧
    (ofString (build ⟨[("a".toList, "1&b=2".toList)]⟩)).params ≠
      [("a".toList, "1&b=2".toList)] := by
  decide

/-! ## Encoded strings -/

/-- A text whose pieces all have an `=` is printed as it was read. -/
theorem paramsText_queryParams {text : Str} (hne : text ≠ [])
    (h : ∀ item ∈ text.splitOn '&', '=' ∈ item) : paramsText (queryParams text) = text := by
  have hpieces : (queryParams text).map (fun p => p.1 ++ "=".toList ++ p.2) =
      text.splitOn '&' := by
    rw [queryParams_eq_pieces, if_neg hne, List.map_map]
    refine (List.map_congr_left fun item hitem => ?_).trans (List.map_id _)
    rw [Function.comp_apply, List.append_assoc]
    exact cutFirst_join (h item hitem)
  rw [paramsText, hpieces, Toolbox.glue_eq]
  exact List.intercalate_splitOn '&'

/-- **An encoded string is passed through**, by a form that was made of it with either
constructor, as it is by a plain body. -/
theorem build_ofString {encoded : Str} (hne : encoded ≠ []) (hmark : encoded.head? ≠ some '?')
    (h : ∀ item ∈ encoded.splitOn '&', '=' ∈ item) (request : IoContainer) :
    (ofString encoded).build = encoded ∧ (ofStringMove encoded).build = encoded ∧
      ((ofString encoded).toRequestBody.build request).1 =
        ((bodyString encoded).build request).1 ∧
      ((ofStringMove encoded).toRequestBody.build request).1 =
        ((bodyString encoded).build request).1 := by
  have hbuilt : (ofString encoded).build = encoded := by
    rw [build_eq, params_ofString hne (if_neg hmark)]
    exact paramsText_queryParams hne h
  exact ⟨hbuilt, hbuilt, hbuilt, hbuilt⟩

omit [Toolbox] in
/-- An empty name, an empty value and an `=` inside a value. -/
theorem build_ofString_odd :
    letI := Toolbox.reference
    (ofString "=1&b=&c=x=y".toList).build = "=1&b=&c=x=y".toList := by
  let := Toolbox.reference
  have hpieces : ∀ item ∈ "=1&b=&c=x=y".toList.splitOn '&', '=' ∈ item := by
    have hsplit : "=1&b=&c=x=y".toList.splitOn '&' =
        ["=1".toList, "b=".toList, "c=x=y".toList] := by decide
    rw [hsplit]
    simp
  exact (build_ofString (by decide) (by decide) hpieces {}).1

end BodyFormUrlencoded

end Httb
