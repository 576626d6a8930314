import Httb.Foundation.Runs
import Httb.RequestPath
import Httb.UrlRoundTrip
import Httb.Wire

/-!
# What Reaches the Request Line

`to_beast_request` passes the path and the parameters of a request on as the target of the
request line (`src/request.cpp`). Nothing between a setter and the target looks at the
characters: `parse_url` takes them from the classes of its pattern, the other setters take
them as they come.

## Layers

- `cleanTarget_iff`: the target is clean when the path and all parameters are
- `cleanTarget_apply_iff`: a call keeps it clean exactly when the strings it stores are
- `target_clean_iff`: so it is with whole runs
-/

namespace Httb

open Httb.Foundation

/-! ## Clean strings -/

/-- A space or a control character. -/
def isBreaking (c : Char) : Bool := c == ' ' || c.toNat < 32 || c.toNat == 127

/-- The string has neither spaces nor control characters. -/
def Clean (s : Str) : Prop := ∀ c ∈ s, isBreaking c = false

instance (s : Str) : Decidable (Clean s) :=
  decidable_of_iff (s.all (fun c => !isBreaking c) = true) (by simp [Clean])

theorem clean_nil : Clean [] := by
  intro c hc
  cases hc

theorem clean_append {s t : Str} : Clean (s ++ t) ↔ Clean s ∧ Clean t := List.forall_mem_append

theorem clean_cons {c : Char} {s : Str} (hc : isBreaking c = false) :
    Clean (c :: s) ↔ Clean s := by
  rw [Clean, List.forall_mem_cons]
  exact and_iff_right hc

/-- No character of a URL's path or query is breaking. -/
theorem isBreaking_eq_false {c : Char} (h : isPathChar c = true ∨ isQueryChar c = true) :
    isBreaking c = false := by
  by_contra hbreaking
  rw [Bool.not_eq_false] at hbreaking
  -- the breaking characters are among the first 128, and none of them is in either class
  have hsmall : c.toNat < 128 := by
    simp only [isBreaking, Bool.or_eq_true, beq_iff_eq, decide_eq_true_eq] at hbreaking
    rcases hbreaking with (rfl | h) | h
    · decide
    · omega
    · omega
  have hclasses : ∀ n : Fin 128, isBreaking (Char.ofNat n) = true →
      isPathChar (Char.ofNat n) = false ∧ isQueryChar (Char.ofNat n) = false := by
    decide
  have hc := hclasses ⟨c.toNat, hsmall⟩
  simp only [Char.ofNat_toNat] at hc
  simp [hc hbreaking] at h

section Target

variable [Toolbox]

/-! ## The target -/

/-- All names and values are clean. -/
def CleanParams (params : KvVector) : Prop := ∀ p ∈ params, Clean p.1 ∧ Clean p.2

theorem clean_paramsText {params : KvVector} :
    Clean (paramsText params) ↔ CleanParams params := by
  rw [paramsText, Toolbox.glue_eq]
  constructor
  · -- every name and every value is a part of the text
    intro h p hp
    have hitem : Clean (p.1 ++ "=".toList ++ p.2) := fun c hc =>
      h c (mem_intercalate_of_mem (List.mem_map_of_mem hp) hc)
    rw [clean_append, clean_append] at hitem
    exact ⟨hitem.1.1, hitem.2⟩
  · intro h c hc
    rcases mem_intercalate hc with hc | ⟨item, hitem, hc⟩
    · obtain rfl : c = '&' := by simpa using hc
      rfl
    · obtain ⟨p, hp, rfl⟩ := List.mem_map.mp hitem
      have hclean : Clean (p.1 ++ "=".toList ++ p.2) := by
        rw [clean_append, clean_append]
        exact ⟨⟨(h p hp).1, by decide⟩, (h p hp).2⟩
      exact hclean c hc

theorem clean_pathWithQuery {r : BaseRequest} :
    Clean r.getPathWithQuery ↔ Clean r.path ∧ CleanParams r.params := by
  have hpath : Clean r.getPath ↔ Clean r.path := by
    rw [BaseRequest.getPath]
    cases hr : r.path with
    | nil => exact iff_of_true (by decide) clean_nil
    | cons c path => rfl
  have hquery : Clean r.getQueryString ↔ CleanParams r.params := by
    rw [getQueryString_eq, UrlParts.renderQuery, ← clean_paramsText]
    cases paramsText r.params with
    | nil => rfl
    | cons c text => exact clean_cons rfl
  rw [BaseRequest.getPathWithQuery, clean_append, hpath, hquery]

/-- The target that a request passes on is clean. -/
def CleanTarget [Beast] [BuildConfig] (r : BaseRequest) : Prop := Clean r.toBeastRequest.target

variable [Beast] [BuildConfig]

theorem target_toBeastRequest (r : BaseRequest) :
    r.toBeastRequest.target = r.getPathWithQuery := by
  rw [BaseRequest.toBeastRequest]
  split
  · rw [Beast.preparePayload_eq]
  · rfl

theorem cleanTarget_iff {r : BaseRequest} :
    CleanTarget r ↔ Clean r.path ∧ CleanParams r.params := by
  rw [CleanTarget, target_toBeastRequest, clean_pathWithQuery]

/-! ## One call -/

/-- The calls that write the path or the parameters. -/
inductive TargetCall where
  | parseUrl (url : Str)
  | addQuery (keyValue : Kv)
  | setQuery (key value : Str) (icase : Bool)
  | setPath (path : Str)
  | addPath (path : Str)

/-- The effect of a call. -/
def TargetCall.apply [BoostRegex] (r : BaseRequest) : TargetCall → BaseRequest
  | .parseUrl url => r.parseUrl url
  | .addQuery keyValue => r.addQuery keyValue
  | .setQuery key value icase => r.setQuery key value icase
  | .setPath path => r.setPath path
  | .addPath path => r.addPath path

/-- The strings that a call stores in the request are clean. -/
def StoresClean (r : BaseRequest) : TargetCall → Prop
  -- `parse_url` stores what its pattern has captured, and otherwise nothing
  | .parseUrl _ => True
  | .addQuery keyValue => Clean keyValue.1 ∧ Clean keyValue.2
  -- `set_query` stores nothing when no parameter has the key
  | .setQuery key value icase => r.hasQuery key icase = true → Clean value
  | .setPath path => Clean path
  | .addPath path => Clean path

omit [Beast] [BuildConfig] in
theorem clean_parseUrl [BoostRegex] {r : BaseRequest} (hpath : Clean r.path)
    (hparams : CleanParams r.params) (url : Str) :
    Clean (r.parseUrl url).path ∧ CleanParams (r.parseUrl url).params := by
  cases hmatch : matchesPattern urlParseRegex url with
  | false =>
    rw [BaseRequest.parseUrl_of_not_matches hmatch]
    exact ⟨hpath, hparams⟩
  | true =>
    have hw := urlParts_wellFormed hmatch
    rw [BaseRequest.parseUrl_of_matches hmatch]
    refine ⟨?path, List.forall_mem_append.mpr ⟨hparams, ?params⟩⟩
    case path =>
      rcases hw.path_class with hempty | ⟨p, hp, hclass⟩
      · rw [hempty]
        exact clean_nil
      · rw [hp, clean_cons rfl]
        exact fun c hc => isBreaking_eq_false (.inl (hclass c hc))
    case params =>
      have htext : Clean (paramsText (queryParams (urlParts url).query)) := fun c hc =>
        isBreaking_eq_false (.inr (queryParams_class hw.query_class c hc))
      exact clean_paramsText.mp htext

omit [Beast] [BuildConfig] in
/-- `set_query` writes its value to the parameters of the key. -/
theorem cleanParams_setQuery {r : BaseRequest} (h : CleanParams r.params) (key value : Str)
    (icase : Bool) :
    CleanParams (r.setQuery key value icase).params ↔
      (r.hasQuery key icase = true → Clean value) := by
  rw [BaseRequest.setQuery, BaseRequest.hasQuery, List.any_eq_true]
  constructor
  · rintro hclean ⟨param, hmem, hcmp⟩
    have hwritten := hclean (param.1, value)
      (List.mem_map.mpr ⟨param, hmem, by rw [if_pos hcmp]⟩)
    exact hwritten.2
  · intro hvalue p hp
    obtain ⟨param, hmem, rfl⟩ := List.mem_map.mp hp
    by_cases hcmp : cmp icase param.1 key = true
    · rw [if_pos hcmp]
      exact ⟨(h param hmem).1, hvalue ⟨param, hmem, hcmp⟩⟩
    · rw [if_neg hcmp]
      exact h param hmem

omit [Toolbox] [Beast] [BuildConfig] in
/-- `set_path` stores its argument, perhaps behind a slash. -/
theorem clean_setPath (r : BaseRequest) (path : Str) :
    Clean (r.setPath path).path ↔ Clean path := by
  rw [BaseRequest.setPath_eq]
  dsimp only
  split
  · exact clean_cons rfl
  · rfl

omit [Toolbox] [Beast] [BuildConfig] in
/-- `add_path` stores its argument, perhaps behind a slash or without one. -/
theorem clean_addPath {r : BaseRequest} (h : Clean r.path) (path : Str) :
    Clean (r.addPath path).path ↔ Clean path := by
  by_cases hpath : path = [] ∨ path = "/".toList
  · rw [BaseRequest.addPath_of_eq r hpath]
    apply iff_of_true h
    rcases hpath with rfl | rfl <;> decide
  · rw [not_or] at hpath
    have hbefore : Clean (withoutLastSlash r.path) := fun c hc =>
      h c ((prefix_withoutLastSlash r.path).subset hc)
    rw [BaseRequest.addPath_of_ne r hpath.1 hpath.2, clean_append, and_iff_right hbefore,
      clean_cons rfl]
    rcases withoutFirstSlash_cases path with hfirst | ⟨-, hsame⟩
    · conv_rhs => rw [hfirst]
      exact (clean_cons rfl).symm
    · rw [hsame]

/-- **One call.** A clean target stays clean exactly when the call stores clean strings. -/
theorem cleanTarget_apply_iff [BoostRegex] {r : BaseRequest} (h : CleanTarget r)
    (call : TargetCall) : CleanTarget (call.apply r) ↔ StoresClean r call := by
  rw [cleanTarget_iff] at h ⊢
  obtain ⟨hpath, hparams⟩ := h
  cases call with
  | parseUrl url => exact iff_of_true (clean_parseUrl hpath hparams url) trivial
  | addQuery keyValue =>
    have happend : CleanParams (r.params ++ [keyValue]) ↔
        Clean keyValue.1 ∧ Clean keyValue.2 := by
      rw [CleanParams, List.forall_mem_append, List.forall_mem_singleton]
      exact and_iff_right hparams
    exact (and_iff_right hpath).trans happend
  | setQuery key value icase =>
    exact (and_iff_right hpath).trans (cleanParams_setQuery hparams key value icase)
  | setPath path =>
    rw [TargetCall.apply, BaseRequest.params_setPath, clean_setPath, StoresClean]
    exact and_iff_left hparams
  | addPath path =>
    rw [TargetCall.apply, BaseRequest.params_addPath, clean_addPath hpath, StoresClean]
    exact and_iff_left hparams

/-! ## Runs -/

/-- **The request line, exactly.** In a run of calls on a new request, the target is clean in
every state if and only if every call stores clean strings. -/
theorem target_clean_iff [BoostRegex] (method : Verb) (port : Str) (calls : List TargetCall) :
    Always CleanTarget ({ method, port } : BaseRequest)
        (traceOf TargetCall.apply { method, port } calls) ↔
      Guarded StoresClean ({ method, port } : BaseRequest)
        (traceOf TargetCall.apply { method, port } calls) := by
  have hstart : CleanTarget ({ method, port } : BaseRequest) := by
    rw [cleanTarget_iff]
    have hpath : Clean "/".toList := by decide
    exact ⟨hpath, fun p hp => absurd hp List.not_mem_nil⟩
  refine (run_traceOf TargetCall.apply _ calls).always_iff_guarded hstart (fun r hr => hr) ?_ ?_
  · rintro r call - hr hstores rfl
    exact (cleanTarget_apply_iff hr call).mpr hstores
  · rintro r call - hr hstores rfl
    exact fun hclean => hstores ((cleanTarget_apply_iff hr call).mp hclean)

end Target

/-- A value with a line break ends the request line and starts a field of its own. -/
theorem target_with_line_break :
    letI := Toolbox.reference
    letI := BoostRegex.reference
    letI := Beast.reference
    letI : BuildConfig := ⟨[], []⟩
    let r := [TargetCall.parseUrl "http://h/".toList,
      .addQuery ("a".toList, "1 HTTP/1.1\r\nX: y".toList)].foldl TargetCall.apply {}
    r.toBeastRequest.target = "/?a=1 HTTP/1.1\r\nX: y".toList ∧ ¬ CleanTarget r := by
  unfold CleanTarget
  decide

end Httb
