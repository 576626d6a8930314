import Httb.RequestLine

/-!
# The Slash at the Start of the Path

Three calls write the path of a request: `parse_url`, `set_path` and `add_path`
(`src/request.cpp`). `set_path` puts a slash before a path that has none, but it asks for more
than one character first, and what it stores is printed in URLs and sent as the target of the
request line.

## Key Result

- `originForm_iff`: along a run the path begins with a slash exactly when no call sets a path
  of one other character
-/

namespace Httb

open Httb.Foundation

/-- The calls that write the path. -/
inductive PathCall where
  | parseUrl (url : Str)
  | setPath (path : Str)
  | addPath (path : Str)

/-- The call does not set a path of one character other than the slash. -/
def PathCall.Roots : PathCall → Prop
  | .setPath path => path.length = 1 → path = "/".toList
  | _ => True

/-- The stored path is empty or begins with a slash. -/
def Rooted (r : BaseRequest) : Prop := r.path = [] ∨ r.path.head? = some '/'

section Slash

variable [Toolbox]

/-! ## Where the path is seen -/

namespace BaseRequest

/-- What `get_url` prints before the path. -/
def urlAuthority (r : BaseRequest) : Str :=
  r.proto ++ "://".toList ++ r.host ++
    (if r.port ≠ "80".toList ∧ r.port ≠ "443".toList then ":".toList ++ r.port else [])

theorem getUrl_eq (r : BaseRequest) :
    r.getUrl =
      r.urlAuthority ++ (r.getPath ++ (if r.hasAnyQuery then r.getQueryString else [])) := by
  have hpath : (if !r.path.isEmpty then r.path else "/".toList) = r.getPath := by
    rw [getPath]
    cases r.path.isEmpty <;> rfl
  rw [getUrl, hpath, urlAuthority, List.append_assoc]

end BaseRequest

/-- The path that a caller is given, the target and the URL all have a slash where the path
begins. -/
structure OriginForm [Beast] [BuildConfig] (r : BaseRequest) : Prop where
  path : r.getPath.head? = some '/'
  target : r.toBeastRequest.target.head? = some '/'
  url : ∃ rest, r.getUrl = r.urlAuthority ++ '/' :: rest

theorem originForm_iff_rooted [Beast] [BuildConfig] {r : BaseRequest} :
    OriginForm r ↔ Rooted r := by
  have hpath : r.getPath.head? = some '/' ↔ Rooted r := by
    rw [BaseRequest.getPath, Rooted]
    cases r.path with
    | nil => simp
    | cons c path => simp
  constructor
  · exact fun h => hpath.mp h.path
  · intro h
    have hhead := hpath.mpr h
    obtain ⟨rest, hrest⟩ := List.head?_eq_some_iff.mp hhead
    refine ⟨hhead, ?_, ?_⟩
    · rw [target_toBeastRequest, BaseRequest.getPathWithQuery, hrest]
      rfl
    · rw [BaseRequest.getUrl_eq, hrest]
      exact ⟨_, rfl⟩

/-! ## One call -/

/-- The effect of a call. -/
def PathCall.apply [BoostRegex] (r : BaseRequest) : PathCall → BaseRequest
  | .parseUrl url => r.parseUrl url
  | .setPath path => r.setPath path
  | .addPath path => r.addPath path

theorem rooted_parseUrl [BoostRegex] {r : BaseRequest} (h : Rooted r) (url : Str) :
    Rooted (r.parseUrl url) := by
  cases hmatch : matchesPattern urlParseRegex url with
  | false => rwa [BaseRequest.parseUrl_of_not_matches hmatch]
  | true =>
    rw [BaseRequest.parseUrl_of_matches hmatch]
    rcases (urlParts_wellFormed hmatch).path_class with hempty | ⟨p, hp, -⟩
    · exact .inl hempty
    · exact .inr (by simp [hp])

omit [Toolbox] in
/-- `set_path` puts a slash before every path but the empty one and those of one character. -/
theorem rooted_setPath_iff (r : BaseRequest) (path : Str) :
    Rooted (r.setPath path) ↔ (path.length = 1 → path = "/".toList) := by
  rw [BaseRequest.setPath_eq, Rooted]
  match path with
  | [] => simp
  | [c] => simp
  | c :: d :: rest =>
    by_cases hc : c = '/'
    · simp [hc]
    · simp [hc]

omit [Toolbox] in
theorem rooted_addPath {r : BaseRequest} (h : Rooted r) (path : Str) : Rooted (r.addPath path) := by
  by_cases hpath : path = [] ∨ path = "/".toList
  · rwa [BaseRequest.addPath_of_eq r hpath]
  · rw [not_or] at hpath
    rw [BaseRequest.addPath_of_ne r hpath.1 hpath.2]
    -- either something is left of the path, or the slash between the two comes first
    right
    dsimp only
    cases hbefore : withoutLastSlash r.path with
    | nil => rfl
    | cons c rest =>
      obtain ⟨tail, htail⟩ := prefix_withoutLastSlash r.path
      rw [hbefore] at htail
      rcases h with hempty | hhead
      · rw [hempty] at htail
        cases htail
      · rw [← htail] at hhead
        exact hhead

theorem rooted_apply_iff [BoostRegex] {r : BaseRequest} (h : Rooted r) (call : PathCall) :
    Rooted (call.apply r) ↔ call.Roots := by
  cases call with
  | parseUrl url => exact iff_of_true (rooted_parseUrl h url) trivial
  | setPath path => exact rooted_setPath_iff r path
  | addPath path => exact iff_of_true (rooted_addPath h path) trivial

/-! ## Runs -/

theorem rooted_make [BoostRegex] (start : BaseRequest.Construction) : Rooted start.make := by
  cases start with
  | default => exact .inr rfl
  | ofUrl url => exact rooted_parseUrl (.inr rfl) url
  | ofUrlPort url port => exact rooted_parseUrl (.inr rfl) url
  | ofUrlMethod url method => exact rooted_parseUrl (.inr rfl) url

/-- **The slash at the start of the path, exactly.** In a run of calls on a newly constructed
request, the path begins with a slash in every state if and only if no call sets a path of one
character other than the slash. -/
theorem originForm_iff [BoostRegex] [Beast] [BuildConfig] (start : BaseRequest.Construction)
    (calls : List PathCall) :
    Always OriginForm start.make (traceOf PathCall.apply start.make calls) ↔
      ∀ call ∈ calls, call.Roots := by
  rw [← guarded_traceOf_iff (f := PathCall.apply) (s := start.make)]
  refine (run_traceOf PathCall.apply _ calls).always_iff_guarded (rooted_make start)
    (fun r => originForm_iff_rooted.mpr) ?_ ?_
  · rintro r call - hr hroots rfl
    exact (rooted_apply_iff hr call).mpr hroots
  · rintro r call - hr hroots rfl
    intro hform
    exact hroots ((rooted_apply_iff hr call).mp (originForm_iff_rooted.mp hform))

end Slash

/-- A path of one letter is stored as it is: the URL runs it into the host, and the target has
no slash. -/
theorem setPath_one_letter :
    letI := Toolbox.reference
    letI := BoostRegex.reference
    letI := Beast.reference
    letI : BuildConfig := ⟨[], []⟩
    let r := PathCall.apply (BaseRequest.Construction.make (.ofUrl "http://h/".toList))
      (.setPath "a".toList)
    r.getPath = "a".toList ∧ r.getUrl = "http://ha".toList ∧
      r.toBeastRequest.target = "a".toList ∧ ¬ OriginForm r := by
  let := Toolbox.reference
  let := BoostRegex.reference
  let := Beast.reference
  let : BuildConfig := ⟨[], []⟩
  refine ⟨by decide, by decide, by decide, ?_⟩
  intro h
  exact absurd h.path (by decide)

end Httb
