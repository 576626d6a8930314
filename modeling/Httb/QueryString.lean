import Httb.UrlRoundTrip

/-!
# The Query String of a Request

`get_query_string` and `parse_query` (`src/request.cpp`). The printer puts one question mark
before the text of the parameters, the parser takes one away and reads the rest as `parse_url`
reads a query, with the other overloads of `split` and `split_pair`.

## Key Result

- `parseQuery_getQueryString`: a printed parameter list is read back, and appended
-/

namespace Httb

open Httb.Foundation

variable [Toolbox]

/-! ## Reading a query text -/

/-- Both overloads of `split_pair` cut a piece in the same way. -/
theorem map_splitPairStr (items : List Str) :
    items.map (fun item => splitPairStr item "=".toList) =
      items.map fun item => splitPair item '=' := by
  apply List.map_congr_left
  intro item _
  rw [Toolbox.splitPair_eq]
  exact Toolbox.splitPairStr_eq item '='

/-- A text that is not empty is read in the same way with both overloads. -/
theorem map_splitStr_eq_queryParams {query : Str} (h : query ≠ []) :
    (splitStr query "&".toList).map (fun item => splitPairStr item "=".toList) =
      queryParams query := by
  have hempty : ¬ query.isEmpty = true := by simpa using h
  have hpieces : splitStr query "&".toList = query.splitOn '&' := Toolbox.splitStr_eq query '&'
  rw [queryParams, if_neg hempty, Toolbox.split_eq, hpieces]
  exact map_splitPairStr _

namespace BaseRequest

theorem foldl_addQuery (pairs : List Str) (r : BaseRequest) :
    pairs.foldl (fun r param => r.addQuery (splitPairStr param "=".toList)) r =
      { r with params := r.params ++ pairs.map fun item => splitPairStr item "=".toList } := by
  induction pairs generalizing r with
  | nil => simp
  | cons item pairs ih =>
    rw [List.foldl_cons, ih]
    simp [addQuery]

/-- `parse_query` appends what it reads behind a question mark. -/
theorem parseQuery_eq (r : BaseRequest) {query : Str} (h : query ≠ []) :
    r.parseQuery ('?' :: query) = { r with params := r.params ++ queryParams query } := by
  have hquery : (if ('?' :: query).head? = some '?' then ('?' :: query).drop 1
      else '?' :: query) = query := if_pos rfl
  rw [parseQuery, hquery, foldl_addQuery, map_splitStr_eq_queryParams h]

/-- What `parse_query` adds, whatever it is given. The empty text is read as one parameter. -/
theorem params_parseQuery {queryString query : Str}
    (hquery : (if queryString.head? = some '?' then queryString.drop 1 else queryString) =
      query) :
    (({} : BaseRequest).parseQuery queryString).params =
      if query = [] then [([], [])] else queryParams query := by
  rw [parseQuery, hquery, foldl_addQuery]
  show [] ++ (splitStr query "&".toList).map (fun item => splitPairStr item "=".toList) = _
  rw [List.nil_append]
  split
  · rename_i hempty
    have hsplit : splitStr [] "&".toList = [[]] := Toolbox.splitStr_eq [] '&'
    have hpair : splitPairStr [] "=".toList = ([], []) := Toolbox.splitPairStr_eq [] '='
    rw [hempty, hsplit, List.map_singleton, hpair]
  · rename_i hne
    exact map_splitStr_eq_queryParams hne

end BaseRequest

/-! ## Round trip -/

/-- **Query strings round-trip.** What `get_query_string` prints of a parameter list without
separators in it, `parse_query` appends to the parameters of any request, in the same order. -/
theorem parseQuery_getQueryString {r : BaseRequest} (hne : r.params ≠ [])
    (h : Printable r.params) (r' : BaseRequest) :
    r'.parseQuery r.getQueryString = { r' with params := r'.params ++ r.params } := by
  have htext : paramsText r.params ≠ [] := paramsText_ne_nil hne
  have hprinted : r.getQueryString = '?' :: paramsText r.params := by
    rw [getQueryString_eq, UrlParts.renderQuery, if_neg (by simpa using htext)]
  rw [hprinted, BaseRequest.parseQuery_eq r' htext, queryParams_paramsText h]

omit [Toolbox] in
/-- A name that begins with a question mark, an empty value, and a value with `=` in it. -/
theorem parseQuery_getQueryString_marks :
    letI := Toolbox.reference
    let r : BaseRequest := { params := [("?a".toList, []), ([], "1=2".toList)] }
    r.getQueryString = "??a=&=1=2".toList ∧
      (({} : BaseRequest).parseQuery r.getQueryString).params = r.params := by
  let := Toolbox.reference
  have hprintable : Printable [("?a".toList, []), ([], "1=2".toList)] :=
    ⟨List.forall_mem_cons.mpr ⟨by decide, List.forall_mem_singleton.mpr (by decide)⟩,
      List.forall_mem_cons.mpr ⟨by decide, List.forall_mem_singleton.mpr (by decide)⟩⟩
  refine ⟨by decide, ?_⟩
  rw [parseQuery_getQueryString (List.cons_ne_nil _ _) hprintable]
  rfl

end Httb
