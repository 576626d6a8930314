import Httb.Redirects
import Httb.UrlComponents
import Httb.UrlRoundTrip

/-!
# Relative Locations

A server may name the place of a redirect by its path alone. `parse_url` accepts nothing but
absolute URLs and returns from anything else without a word, so the copy of the request that
both redirect branches make goes out as it is (`src/client.cpp`).

## Key Result

- `relativeRedirect_iff`: the follow-up goes where the location says if and only if that is
  what the request shows as its own place
-/

namespace Httb

open Httb.Foundation Httb.Foundation.Traced

/-- A location that begins with its path. -/
def relativeText (path : Str) (query : Option Str) : Str := path ++ optionalText '?' query

/-- The path and the query text are such as a URL has. -/
structure RelativeReference (path : Str) (query : Option Str) : Prop where
  path_class : ∃ p, path = '/' :: p ∧ ∀ c ∈ p, isPathChar c = true
  query_class : ∀ text ∈ query, ∀ c ∈ text, isQueryChar c = true

theorem RelativeReference.head {path : Str} {query : Option Str}
    (h : RelativeReference path query) : ∃ rest, relativeText path query = '/' :: rest := by
  obtain ⟨p, rfl, _⟩ := h.path_class
  exact ⟨_, rfl⟩

/-- A slash is no letter, so the pattern does not match at it. -/
theorem successes_urlParseRegex_slash (rest : Str) :
    urlParseRegex.successes ('/' :: rest) = [] := by
  have hreach : Regex.reach isProtoChar none ('/' :: rest) < 1 := by
    have hslash : isProtoChar '/' = false := rfl
    simp [Regex.reach, hslash]
  rw [urlParseRegex]
  exact Regex.successes_seq_of_fail
    (Regex.successes_group_of_fail (Regex.successes_many_of_fail hreach))

section Following

variable [Toolbox] [BoostRegex]

/-- `parse_url` refuses a relative reference, and leaves the request as it was. -/
theorem parseUrl_relative {path : Str} {query : Option Str} (h : RelativeReference path query)
    (r : BaseRequest) : r.parseUrl (relativeText path query) = r := by
  obtain ⟨rest, hrest⟩ := h.head
  apply BaseRequest.parseUrl_of_not_matches
  rw [← Bool.not_eq_true, Toolbox.matchesPattern_iff, hrest]
  rintro ⟨m, hm, _⟩
  rw [successes_urlParseRegex_slash] at hm
  cases hm

/-- The message is a redirect to the location. -/
structure RedirectsTo (message : BeastResponse) (location : Str) : Prop where
  status : isRedirectStatus (responseOfBlocking message).status = true
  location : (responseOfBlocking message).getHeaderValue "location".toList = location

/-- The follow-up request that a redirect makes. -/
def followUp (request : BaseRequest) (message : BeastResponse) : BaseRequest :=
  redirectRequest request (responseOfBlocking message)

/-- The place that a relative reference names, as seen from a request. -/
def relativePlace (request : BaseRequest) (path : Str) (query : Option Str) : UrlFields :=
  { request.shownFields with path := path, params := queryParams (query.getD []) }

omit [BoostRegex] in
/-- A redirect that names a place can be followed. -/
theorem RedirectsTo.isFollowable {message : BeastResponse} {location : Str}
    (h : RedirectsTo message location) (hne : location ≠ []) :
    isFollowable (responseOfBlocking message) = true := by
  rw [Httb.isFollowable, h.status, Bool.true_and, ← Bool.not_eq_false]
  intro hheader
  -- a header that is not there has an empty value
  have hfind : (responseOfBlocking message).headers.find?
      (fun header => equalsIcase header.1 "location".toList) = none := by
    rw [List.find?_eq_none]
    intro header hmem hname
    rw [IoContainer.hasHeader, List.any_eq_false] at hheader
    exact hheader header hmem hname
  have hvalue := h.location
  rw [IoContainer.getHeaderValue, hfind] at hvalue
  exact hne hvalue.symm

variable [BoostErrors]

/-- **Where a relative redirect leads, exactly.** Both clients build the same follow-up, and it
shows the protocol, host, port and ssl flag of the request and the path and the parameters of
the location if and only if these are the path and the parameters that the request shows. -/
theorem relativeRedirect_iff {client : Client} (hfollow : client.followRedirects = true)
    (request : BaseRequest) {path : Str} {query : Option Str} (h : RelativeReference path query)
    {message : BeastResponse} (hredirect : RedirectsTo message (relativeText path query)) :
    (∀ cb, onSuccess client cb request message = .executeAgain (followUp request message)) ∧
      (∀ (net : BaseRequest → Outcomes) (n : ℕ) (bounces : Int),
        bounces < client.maxRedirectBounces →
          redirectLoop client net (n + 1) request bounces (responseOfBlocking message) =
            bind (executeBlocking client net n (followUp request message)) fun resp =>
              redirectLoop client net n request (bounces + 1) resp) ∧
      ((followUp request message).shownFields = relativePlace request path query ↔
        request.getPath = path ∧ request.params = queryParams (query.getD [])) := by
  have hne : relativeText path query ≠ [] := by
    obtain ⟨rest, hrest⟩ := h.head
    simp [hrest]
  have hfollowable := hredirect.isFollowable hne
  refine ⟨fun cb => ?async, fun net n bounces hbounces => ?blocking, ?place⟩
  case async =>
    rw [isFollowable, Bool.and_eq_true] at hfollowable
    rw [onSuccess, responseOfAsync_eq, hfollow, hfollowable.1, hfollowable.2]
    rfl
  case blocking => exact redirectLoop_of_followable hfollowable n hbounces
  case place =>
    have hunchanged : followUp request message = request := by
      rw [followUp, redirectRequest, hredirect.location, parseUrl_relative h]
    rw [hunchanged, relativePlace, BaseRequest.shownFields, BaseRequest.urlFields,
      UrlFields.mk.injEq]
    simp only [true_and]

end Following

/-- A redirect to a path. -/
def movedToPath (path : Str) : BeastResponse :=
  { result := .found, fields := [("Location".toList, path)] }

/-- A request without a path shows `/`, and the redirect to `/` leads to itself. -/
theorem relativeRedirect_same_place :
    letI := Toolbox.reference
    letI := BoostRegex.reference
    (followUp (BaseRequest.ofUrl "http://h".toList) (movedToPath "/".toList)).shownFields =
      relativePlace (BaseRequest.ofUrl "http://h".toList) "/".toList none :=
  letI := Toolbox.reference
  letI := BoostRegex.reference
  letI := BoostErrors.silent
  have hreference : RelativeReference "/".toList none := ⟨⟨[], rfl, nofun⟩, nofun⟩
  have hredirect : RedirectsTo (movedToPath "/".toList) (relativeText "/".toList none) :=
    ⟨by decide, by decide⟩
  have hfollow : ({} : Client).followRedirects = true := rfl
  (relativeRedirect_iff hfollow (BaseRequest.ofUrl "http://h".toList) hreference
    hredirect).2.2.mpr (by decide)

/-- From `/a` it leads back to `/a`. -/
theorem relativeRedirect_sent_again :
    letI := Toolbox.reference
    letI := BoostRegex.reference
    followUp (BaseRequest.ofUrl "http://h/a".toList) (movedToPath "/b".toList) =
        BaseRequest.ofUrl "http://h/a".toList ∧
      (followUp (BaseRequest.ofUrl "http://h/a".toList) (movedToPath "/b".toList)).shownFields ≠
        relativePlace (BaseRequest.ofUrl "http://h/a".toList) "/b".toList none := by
  decide

end Httb
