import Httb.FormBody
import Httb.QueryRuns
import Httb.RequestLine
import Httb.RequestPath

/-!
# Parameters on the Wire

The parameters of a request leave it as text behind the path (`get_path_with_query` in
`src/request.cpp`), with nothing escaped. The receiver of the message has that text alone. If
no call stores a separator in a name, a value or the path, he reads off it the multimap that
the calls made (`QueryRuns.lean`); `parse_url` and `parse_query` may be called with anything,
because they cut their argument at the separators.

## Layers

- `Legible`, `legible_exec`: what every call keeps
- `readQuery_of_legible`: what is read off a legible request
- `query_arrives`: a run of calls, and then the wire
-/

namespace Httb

open Httb.Foundation

variable [Toolbox]

/-- The parameters that a receiver reads off the target: the text behind the question mark is
decoded as the text of a form is. -/
def readQuery (message : BeastRequest) : KvVector :=
  (({} : Response).setBody (cutFirst '?' message.target).2).parseFormUrlEncode

/-- The path and the parameters can be told apart in the target. -/
structure Legible (r : BaseRequest) : Prop where
  params : Printable r.params
  path : '?' ∉ r.path

/-! ## Reading -/

/-- The receiver has the parameters, in order. -/
theorem readQuery_of_legible [Beast] [BuildConfig] {r : BaseRequest} (h : Legible r) :
    readQuery r.toBeastRequest = r.params := by
  have hpath : '?' ∉ r.getPath := by
    rw [BaseRequest.getPath]
    split
    · decide
    · exact h.path
  have htext : (cutFirst '?' (r.getPath ++ r.getQueryString)).2 = paramsText r.params := by
    rw [getQueryString_eq, UrlParts.renderQuery]
    split
    · -- without parameters there is no question mark, and nothing behind it
      rename_i hempty
      rw [List.isEmpty_iff.mp hempty, List.append_nil, cutFirst]
      have hall : ∀ c ∈ r.getPath, (c != '?') = true := fun c hc => by
        rw [bne_iff_ne]
        rintro rfl
        exact hpath hc
      rw [List.dropWhile_eq_nil_iff.mpr hall]
      rfl
    · rw [cutFirst_append_cons hpath]
  rw [readQuery, target_toBeastRequest, BaseRequest.getPathWithQuery, htext,
    BodyFormUrlencoded.parseFormUrlEncode_eq, Response.setBody,
    queryParams_paramsText h.params]

/-! ## Calls -/

variable [BoostRegex]

/-- The call stores no separator. -/
def QueryCall.Legible : QueryCall → Prop
  | .addQuery keyValue => Printable [keyValue]
  | .addQueryInt name _ => '=' ∉ name ∧ '&' ∉ name
  | .setQuery _ value => '&' ∉ value
  | .other ⟨.of (.setPath path), _⟩ => '?' ∉ path
  | .other ⟨.of (.addPath path), _⟩ => '?' ∉ path
  | _ => True

omit [Toolbox] [BoostRegex] in
theorem not_mem_decimal {c : Char} (hc : c.isDigit = false) (n : ℕ) : c ∉ decimal n := by
  intro h
  have hdigit := Nat.isDigit_of_mem_toDigits (b := 10) (by decide) (by decide) h
  rw [hc] at hdigit
  cases hdigit

omit [Toolbox] [BoostRegex] in
/-- Writing a value over those of a key. -/
theorem Printable.overwriteAll {params : KvVector} (h : Printable params) (p : Str → Bool)
    {value : Str} (hvalue : '&' ∉ value) : Printable (overwriteAll p value params) := by
  -- names stay, and values are kept or replaced
  have hentry {e : Kv} (he : e ∈ Foundation.overwriteAll p value params) :
      ∃ e' ∈ params, e = if p e'.1 then (e'.1, value) else e' := by
    obtain ⟨e', he', rfl⟩ := List.mem_map.mp he
    exact ⟨e', he', rfl⟩
  refine ⟨fun e he => ?_, fun e he => ?_⟩
  · obtain ⟨e', he', rfl⟩ := hentry he
    split
    · exact h.key e' he'
    · exact h.key e' he'
  · obtain ⟨e', he', rfl⟩ := hentry he
    split
    · exact hvalue
    · exact h.value e' he'

omit [BoostRegex] in
/-- What `parse_query` reads can be read again. -/
theorem printable_parseQuery (queryString : Str) :
    Printable (({} : BaseRequest).parseQuery queryString).params := by
  rw [BaseRequest.params_parseQuery rfl]
  generalize (if queryString.head? = some '?' then queryString.drop 1 else queryString) = query
  split
  · exact ⟨by simp, by simp⟩
  · exact queryParams_printable _

/-- A path that is read off a URL has no question mark. -/
theorem not_mem_path_of_matches {url : Str} (h : matchesPattern urlParseRegex url = true) :
    '?' ∉ (urlParts url).path := by
  rcases (urlParts_wellFormed h).path_class with hempty | ⟨path, hpath, hclass⟩
  · rw [hempty]
    exact List.not_mem_nil
  · rw [hpath, List.mem_cons, not_or]
    refine ⟨by decide, fun hmem => ?_⟩
    exact absurd (hclass _ hmem) (by decide)

theorem legible_parseUrl {r : BaseRequest} (h : Legible r) (url : Str) :
    Legible (r.parseUrl url) := by
  cases hmatch : matchesPattern urlParseRegex url with
  | false =>
    rw [BaseRequest.parseUrl_of_not_matches hmatch]
    exact h
  | true =>
    rw [BaseRequest.parseUrl_of_matches hmatch]
    exact ⟨h.params.append (queryParams_printable _), not_mem_path_of_matches hmatch⟩

omit [Toolbox] [BoostRegex] in
/-- The path calls store their argument, and slashes. -/
theorem not_mem_setPath {path : Str} (h : '?' ∉ path) (r : BaseRequest) :
    '?' ∉ (r.setPath path).path := by
  rw [BaseRequest.setPath_eq]
  dsimp only
  split
  · rw [List.mem_cons, not_or]
    exact ⟨by decide, h⟩
  · exact h

omit [Toolbox] [BoostRegex] in
theorem not_mem_addPath {r : BaseRequest} (hr : '?' ∉ r.path) {path : Str} (h : '?' ∉ path) :
    '?' ∉ (r.addPath path).path := by
  by_cases hpath : path = [] ∨ path = "/".toList
  · rwa [BaseRequest.addPath_of_eq r hpath]
  · rw [not_or] at hpath
    rw [BaseRequest.addPath_of_ne r hpath.1 hpath.2]
    intro hmem
    rcases List.mem_append.mp hmem with hmem | hmem
    · exact hr ((prefix_withoutLastSlash r.path).subset hmem)
    · rcases List.mem_cons.mp hmem with heq | hmem
      · exact absurd heq (by decide)
      · exact h ((suffix_withoutFirstSlash path).subset hmem)

/-- The calls on other parts of the request. -/
theorem legible_other {r : BaseRequest} (h : Legible r)
    (call : { call : RequestCall // call.touchesParams = false })
    (hcall : (QueryCall.other call).Legible) : Legible (call.1.apply r) := by
  obtain ⟨call, hparams⟩ := call
  have hpart : (call.apply r).params = r.params :=
    RequestCall.params.get_of_not_touches r hparams
  refine ⟨hpart.symm ▸ h.params, ?_⟩
  cases htouches : call.touchesPath with
  | false =>
    have hpath : (call.apply r).path = r.path :=
      RequestCall.path.get_of_not_touches r htouches
    exact hpath.symm ▸ h.path
  | true =>
    -- a URL that is read would touch the parameters, too
    cases call with
    | header op => cases htouches
    | of op =>
      cases op with
      | setPath path => exact not_mem_setPath hcall r
      | addPath path => exact not_mem_addPath h.path hcall
      | parseUrl url => exact absurd (htouches.symm.trans hparams) (by decide)
      | _ => cases htouches

/-- **One call.** A legible request stays legible. -/
theorem legible_exec {r : BaseRequest} (h : Legible r) (icase : Bool) {call : QueryCall}
    (hcall : call.Legible) : Legible (call.exec icase r).2 := by
  -- calls that read add nothing, and those that remove leave some of the entries
  cases call with
  | addQuery keyValue => exact ⟨h.params.append hcall, h.path⟩
  | addQueryInt name value =>
    have hpair : Printable [(name, decimal value.toNat)] :=
      ⟨List.forall_mem_singleton.mpr hcall,
        List.forall_mem_singleton.mpr (not_mem_decimal (by decide) _)⟩
    exact ⟨h.params.append hpair, h.path⟩
  | parseQuery queryString =>
    rw [QueryCall.exec, RequestCall.parseQuery_eq_append]
    exact ⟨h.params.append (printable_parseQuery queryString), h.path⟩
  | parseUrl url => exact legible_parseUrl h url
  | setQuery key value =>
    rw [QueryCall.exec, BaseRequest.setQuery_eq]
    exact ⟨h.params.overwriteAll (fun name => decide (SameKey icase name key)) hcall, h.path⟩
  | removeQuery key =>
    rw [QueryCall.exec, BaseRequest.removeQuery_eq]
    exact ⟨h.params.sublist List.filter_sublist, h.path⟩
  | removeQueryArray key index =>
    rw [QueryCall.exec, BaseRequest.removeQueryArray_eq]
    exact ⟨h.params.sublist (eraseMatch_sublist _ _), h.path⟩
  | clearQueries => exact ⟨h.params.sublist (List.nil_sublist _), h.path⟩
  | hasQuery _ | getQueryValue _ | findQuery _ | getQueryArray _ => exact h
  | other call => exact legible_other h call hcall

theorem legible_runCalls {r : BaseRequest} (h : Legible r) (icase : Bool) {calls : List QueryCall}
    (hcalls : ∀ call ∈ calls, call.Legible) :
    Legible (runCalls (QueryCall.exec icase) calls r).2 := by
  induction calls generalizing r with
  | nil => exact h
  | cons call calls ih =>
    obtain ⟨hcall, hrest⟩ := List.forall_mem_cons.mp hcalls
    exact ih (legible_exec h icase hcall) hrest

/-- Every constructor makes a legible request. -/
theorem legible_init (init : RequestInit) : Legible init.request := by
  have hslash : '?' ∉ "/".toList := by decide
  have hnew (port : Str) (method : Verb) : Legible { port, method } :=
    ⟨⟨by simp, by simp⟩, hslash⟩
  cases init with
  | default => exact hnew _ _
  | ofUrl url => exact legible_parseUrl (hnew _ _) url
  | ofUrlPort url port => exact legible_parseUrl (hnew _ _) url
  | ofUrlMethod url method => exact legible_parseUrl (hnew _ _) url

/-! ## The whole way -/

/-- **The wire shows the multimap.** Whatever calls are made on a request, from whatever
constructor and in whatever order, if none of them stores a separator, then the receiver of the
message reads off its target the multimap that the same calls make of the one the request
began with. -/
theorem query_arrives [Beast] [BuildConfig] (icase : Bool) (init : RequestInit)
    {calls : List QueryCall} (hcalls : ∀ call ∈ calls, call.Legible) :
    let r := (runCalls (QueryCall.exec icase) calls init.request).2
    valuesOf icase (readQuery r.toBeastRequest) =
      (runCalls (QueryCall.spec icase) calls (QueryCall.abstraction icase init.request)).2 := by
  intro r
  have hlegible : Legible r := legible_runCalls (legible_init init) icase hcalls
  have hrefines := runCalls_refines (QueryCall.spec_abstraction icase) calls init.request
  rw [readQuery_of_legible hlegible, hrefines]
  rfl

omit [Toolbox] [BoostRegex] in
/-- Two spellings of a name, one of them from a URL, and a value that is replaced. -/
theorem query_arrives_two_spellings :
    letI := Toolbox.reference
    letI := BoostRegex.reference
    letI := Beast.reference
    letI : BuildConfig := ⟨[], []⟩
    let calls : List QueryCall := [.addQuery ("a".toList, "1".toList),
      .parseUrl "http://h/p?A=2&b=3".toList, .setQuery "B".toList "x=y".toList]
    let r := (runCalls (QueryCall.exec true) calls (RequestInit.request .default)).2
    valuesOf true (readQuery r.toBeastRequest) "a".toList = ["1".toList, "2".toList] ∧
      valuesOf true (readQuery r.toBeastRequest) "b".toList = ["x=y".toList] := by
  let := Toolbox.reference
  let := BoostRegex.reference
  let := Beast.reference
  let : BuildConfig := ⟨[], []⟩
  intro calls r
  have hcalls : ∀ call ∈ calls, call.Legible := by
    simp only [calls, List.forall_mem_cons, List.not_mem_nil, false_implies, implies_true,
      and_true]
    have hvalue : '&' ∉ "x=y".toList := by decide
    exact ⟨⟨by decide, by decide⟩, trivial, hvalue⟩
  have harrives := query_arrives true .default hcalls
  exact ⟨(congrFun harrives _).trans (by decide), (congrFun harrives _).trans (by decide)⟩

end Httb
