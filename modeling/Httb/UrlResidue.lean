import Httb.Url

/-!
# What an Earlier URL Leaves Behind

Both redirect paths call `parse_url` on a copy of a request that already holds a URL. The
function assigns some fields, appends to one and leaves others alone, so the result can
differ from a request freshly built from the new URL. `parseUrl_used_eq_fresh_iff` says
exactly for which pairs of URLs it does not.
-/

namespace Httb

section Residue

variable [Toolbox] [BoostRegex]

/-- The URL's protocol is one for which `parse_url` sets the port and the ssl flag. -/
def namesPortScheme (url : Str) : Bool := isHttps (urlParts url).proto || isFtp (urlParts url).proto

/-- Nothing of the first URL is left after the second one is parsed: it has no query, and
its ssl flag and port are either overwritten or the ones a fresh request starts with. -/
def NoResidue (url₁ url₂ : Str) : Prop :=
  (urlParts url₁).query = [] ∧
    (namesPortScheme url₂ = true ∨
      isHttps (urlParts url₁).proto = false ∧
        ((urlParts url₂).port ≠ [] ∨ portOfUrl url₁ = "80".toList))

instance (url₁ url₂ : Str) : Decidable (NoResidue url₁ url₂) := by
  unfold NoResidue
  infer_instance

omit [BoostRegex] in
theorem queryParams_eq_nil_iff (query : Str) : queryParams query = [] ↔ query = [] := by
  rw [queryParams]
  cases query with
  | nil => simp
  | cons c query => simp [Toolbox.split_eq, List.splitOn_ne_nil]

section Fields

variable {url₁ url₂ : Str} (h₁ : matchesPattern urlParseRegex url₁ = true)
  (h₂ : matchesPattern urlParseRegex url₂ = true)
include h₁ h₂

/-- The parameter list is fresh exactly when the first URL had no query. -/
theorem params_used_eq_fresh_iff :
    ((BaseRequest.ofUrl url₁).parseUrl url₂).params = (BaseRequest.ofUrl url₂).params ↔
      (urlParts url₁).query = [] := by
  rw [BaseRequest.parseUrl_of_matches h₂, BaseRequest.ofUrl_of_matches h₁,
    BaseRequest.ofUrl_of_matches h₂]
  rw [← queryParams_eq_nil_iff]
  exact List.append_left_eq_self

/-- The ssl flag is fresh exactly when the second protocol decides it or the first did not
set it. -/
theorem ssl_used_eq_fresh_iff :
    ((BaseRequest.ofUrl url₁).parseUrl url₂).ssl = (BaseRequest.ofUrl url₂).ssl ↔
      namesPortScheme url₂ = true ∨ isHttps (urlParts url₁).proto = false := by
  rw [BaseRequest.parseUrl_of_matches h₂, BaseRequest.ofUrl_of_matches h₁,
    BaseRequest.ofUrl_of_matches h₂, namesPortScheme]
  cases isHttps (urlParts url₂).proto <;> cases isFtp (urlParts url₂).proto <;> simp

/-- The port is fresh exactly when the second URL decides it or the first left port 80. -/
theorem port_used_eq_fresh_iff :
    ((BaseRequest.ofUrl url₁).parseUrl url₂).port = (BaseRequest.ofUrl url₂).port ↔
      (urlParts url₂).port ≠ [] ∨ namesPortScheme url₂ = true ∨
        portOfUrl url₁ = "80".toList := by
  rw [BaseRequest.parseUrl_of_matches h₂, BaseRequest.ofUrl_of_matches h₁,
    BaseRequest.ofUrl_of_matches h₂, namesPortScheme, portOfUrl.eq_def url₂,
    defaultPort.eq_def (urlParts url₂).proto]
  cases hp : (urlParts url₂).port with
  | cons c port => simp
  | nil => cases isHttps (urlParts url₂).proto <;> cases isFtp (urlParts url₂).proto <;> simp

end Fields

/-- **Residue of an earlier URL, exactly.** For URLs that the pattern accepts, parsing the
second one on a request built from the first gives the URL fields of a fresh request
if and only if `NoResidue` holds of the two. -/
theorem parseUrl_used_eq_fresh_iff {url₁ url₂ : Str}
    (h₁ : matchesPattern urlParseRegex url₁ = true)
    (h₂ : matchesPattern urlParseRegex url₂ = true) :
    ((BaseRequest.ofUrl url₁).parseUrl url₂).urlFields = (BaseRequest.ofUrl url₂).urlFields ↔
      NoResidue url₁ url₂ := by
  have hproto : ((BaseRequest.ofUrl url₁).parseUrl url₂).proto =
      (BaseRequest.ofUrl url₂).proto := by
    rw [BaseRequest.parseUrl_of_matches h₂, BaseRequest.ofUrl_of_matches h₂]
  have hhost : ((BaseRequest.ofUrl url₁).parseUrl url₂).host = (BaseRequest.ofUrl url₂).host := by
    rw [BaseRequest.parseUrl_of_matches h₂, BaseRequest.ofUrl_of_matches h₂]
  have hpath : ((BaseRequest.ofUrl url₁).parseUrl url₂).path = (BaseRequest.ofUrl url₂).path := by
    rw [BaseRequest.parseUrl_of_matches h₂, BaseRequest.ofUrl_of_matches h₂]
  rw [BaseRequest.urlFields, BaseRequest.urlFields, UrlFields.mk.injEq,
    params_used_eq_fresh_iff h₁ h₂, ssl_used_eq_fresh_iff h₁ h₂, port_used_eq_fresh_iff h₁ h₂,
    NoResidue]
  -- protocol, host and path are always replaced; the other three fields decide
  constructor
  · rintro ⟨-, -, hport, hssl, -, hquery⟩
    refine ⟨hquery, ?_⟩
    by_cases hn : namesPortScheme url₂ = true
    · exact .inl hn
    · exact .inr ⟨hssl.resolve_left hn, hport.imp_right fun h => h.resolve_left hn⟩
  · rintro ⟨hquery, hrest⟩
    refine ⟨hproto, hhost, ?_, hrest.imp_right fun h => h.1, hpath, hquery⟩
    rcases hrest with hn | ⟨-, hp | hp⟩
    · exact .inr (.inl hn)
    · exact .inl hp
    · exact .inr (.inr hp)

end Residue

/-- A first URL without a query leaves nothing behind when the second protocol is `https`. -/
theorem parseUrl_https_eq_fresh :
    letI := Toolbox.reference
    letI := BoostRegex.reference
    ((BaseRequest.ofUrl "http://a/x".toList).parseUrl "https://b/y?q=1".toList).urlFields =
      (BaseRequest.ofUrl "https://b/y?q=1".toList).urlFields :=
  letI := Toolbox.reference
  letI := BoostRegex.reference
  have h₁ : matchesPattern urlParseRegex "http://a/x".toList = true := by decide
  have h₂ : matchesPattern urlParseRegex "https://b/y?q=1".toList = true := by decide
  (parseUrl_used_eq_fresh_iff h₁ h₂).mpr (by decide)

/-- A secure page that sends the client on to a plain one: the follow-up keeps port 443, the
ssl flag and the old query, which a fresh request does not have. -/
theorem parseUrl_http_keeps_residue :
    letI := Toolbox.reference
    letI := BoostRegex.reference
    matchesPattern urlParseRegex "https://a/x?q=1".toList = true ∧
    matchesPattern urlParseRegex "http://b/y".toList = true ∧
    ((BaseRequest.ofUrl "https://a/x?q=1".toList).parseUrl "http://b/y".toList).urlFields =
      ⟨"http".toList, "b".toList, "443".toList, true, "/y".toList, [("q".toList, "1".toList)]⟩ ∧
    ((BaseRequest.ofUrl "https://a/x?q=1".toList).parseUrl "http://b/y".toList).urlFields ≠
      (BaseRequest.ofUrl "http://b/y".toList).urlFields := by
  decide

end Httb
