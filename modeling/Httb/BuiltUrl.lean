import Httb.FormBody
import Httb.OriginForm
import Httb.PortNumber
import Httb.QueryMultimap
import Httb.RequestComponents

/-!
# The URL of a Request that was Built

A request may be put together by setters in place of a URL (`src/request.cpp`). Its `get_url` is
a text that another request can be made of, with `parse_url`, but the setters know nothing of
each other: the ssl flag may contradict the protocol, and a port may be one that `get_url` does
not print. This module says when nothing is lost on the way through the URL, after any run of
calls whose arguments are made of the characters of a URL.

## Layers

- `UrlReady`, `urlReady_apply`: what the calls keep
- `ofUrl_getUrl_of_ready`: what is read back
- `builtUrl_iff`: after any run, what has to hold for everything to come back
-/

namespace Httb

open Httb.Foundation

section Ready

variable [Toolbox]

/-- The names and values are made of the characters of a query. -/
def QueryText (params : KvVector) : Prop := ∀ p ∈ params, ∀ c ∈ p.1 ++ p.2, isQueryChar c = true

/-- The parts of the request are texts as the pattern of `parse_url` takes them. -/
structure UrlReady (r : BaseRequest) : Prop where
  proto_ne_nil : r.proto ≠ []
  proto : ∀ c ∈ r.proto, isProtoChar c = true
  host : ∀ c ∈ r.host, isHostChar c = true
  port : PortText r.port
  rooted : Rooted r
  path : ∀ c ∈ r.path, isPathChar c = true
  params : QueryText r.params

/-! ## What is read back -/

theorem QueryText.paramsText {params : KvVector} (h : QueryText params) :
    ∀ c ∈ paramsText params, isQueryChar c = true := by
  intro c hc
  rw [Httb.paramsText, Toolbox.glue_eq] at hc
  -- a character is one of a separator, a name or a value
  rcases mem_intercalate hc with hc | ⟨item, hitem, hc⟩
  · obtain rfl : c = '&' := by simpa using hc
    rfl
  · obtain ⟨p, hp, rfl⟩ := List.mem_map.mp hitem
    simp only [List.mem_append] at hc
    rcases hc with (hc | hc) | hc
    · exact h p hp c (List.mem_append_left _ hc)
    · obtain rfl : c = '=' := by simpa using hc
      rfl
    · exact h p hp c (List.mem_append_right _ hc)

theorem UrlReady.printedParts_wellFormed {r : BaseRequest} (h : UrlReady r) :
    r.printedParts.WellFormed where
  proto_ne_nil := h.proto_ne_nil
  proto_class := h.proto
  host_class := h.host
  port_class := by
    show ∀ c ∈ (if isDroppedPort r.port then [] else r.port), isPortChar c = true
    split
    · simp
    · exact h.port.digits
  port_length := by
    show (if isDroppedPort r.port then [] else r.port).length ≤ 5
    split
    · exact Nat.zero_le _
    · exact h.port.length
  path_class := by
    -- an empty path is printed as a slash
    right
    show ∃ p, r.getPath = '/' :: p ∧ ∀ c ∈ p, isPathChar c = true
    rcases h.rooted with hempty | hhead
    · exact ⟨[], by rw [BaseRequest.getPath, hempty]; rfl, by simp⟩
    · obtain ⟨p, hp⟩ := List.head?_eq_some_iff.mp hhead
      refine ⟨p, by rw [BaseRequest.getPath, hp]; rfl, fun c hc => ?_⟩
      exact h.path c (hp ▸ List.mem_cons_of_mem _ hc)
  query_class := h.params.paramsText

omit [Toolbox] in
theorem BaseRequest.getPath_ne_nil (r : BaseRequest) : r.getPath ≠ [] := by
  rw [getPath]
  split
  · decide
  · rename_i hfull
    simpa using hfull

omit [Toolbox] in
theorem getPath_of_ne_nil {r : BaseRequest} (h : r.path ≠ []) : r.getPath = r.path := by
  rw [BaseRequest.getPath, if_neg (by simpa using h)]

variable [BoostRegex]

/-- Protocol, host and path come back; the flag, the port and the parameters are what the URL
says about them. -/
theorem ofUrl_getUrl_of_ready {r : BaseRequest} (h : UrlReady r) :
    matchesPattern urlParseRegex r.getUrl = true ∧
      (BaseRequest.ofUrl r.getUrl).shownFields =
        { proto := r.proto
          host := r.host
          port := if isDroppedPort r.port then defaultPort r.proto else r.port
          ssl := isHttps r.proto
          path := r.getPath
          params := queryParams (paramsText r.params) } := by
  obtain ⟨hmatch, hparts⟩ := urlParts_render h.printedParts_wellFormed
  rw [← getUrl_eq_render h.port.ne_nil] at hmatch hparts
  refine ⟨hmatch, ?_⟩
  -- a port that is printed is read; without one the protocol's is taken
  have hport : (if !r.printedParts.port.isEmpty then r.printedParts.port
      else defaultPort r.proto) =
        if isDroppedPort r.port then defaultPort r.proto else r.port := by
    by_cases hdropped : isDroppedPort r.port = true
    · have hnone : r.printedParts.port = [] := if_pos hdropped
      rw [hnone, if_pos hdropped]
      rfl
    · have hsome : r.printedParts.port = r.port := if_neg hdropped
      rw [hsome, if_neg hdropped, if_pos (by simpa using h.port.ne_nil)]
  rw [BaseRequest.ofUrl_of_matches hmatch, portOfUrl, hparts, BaseRequest.shownFields,
    getPath_of_ne_nil r.getPath_ne_nil]
  simp only [BaseRequest.urlFields, UrlFields.mk.injEq]
  exact ⟨rfl, rfl, hport, rfl, rfl, rfl⟩

/-- Everything comes back under three conditions: the flag is that of the protocol, a port that is
not printed is that of the protocol, and no parameter holds a separator. -/
theorem shownFields_ofUrl_getUrl_iff {r : BaseRequest} (h : UrlReady r) :
    (BaseRequest.ofUrl r.getUrl).shownFields = r.shownFields ↔
      r.ssl = isHttps r.proto ∧
        (isDroppedPort r.port = true → r.port = defaultPort r.proto) ∧ Printable r.params := by
  rw [(ofUrl_getUrl_of_ready h).2, BaseRequest.shownFields, BaseRequest.urlFields]
  simp only [UrlFields.mk.injEq, true_and, BodyFormUrlencoded.queryParams_paramsText_eq_iff]
  -- a port that is printed comes back, another one is the default of the protocol
  have hport : (if isDroppedPort r.port then defaultPort r.proto else r.port) = r.port ↔
      (isDroppedPort r.port = true → r.port = defaultPort r.proto) := by
    split
    · rename_i hdropped
      exact ⟨fun heq _ => heq.symm, fun heq => (heq hdropped).symm⟩
    · rename_i hkept
      exact iff_of_true rfl fun hdropped => absurd hdropped hkept
  rw [hport]
  constructor
  · rintro ⟨hcond, hssl, hparams⟩
    exact ⟨hssl.symm, hcond, hparams⟩
  · rintro ⟨hssl, hcond, hparams⟩
    exact ⟨hcond, hssl.symm, hparams⟩

/-! ## Calls -/

/-- The call passes texts as the pattern of `parse_url` takes them. A path of one character has to
be the slash, because `set_path` puts none before it. -/
def RequestCall.KeepsUrl : RequestCall → Prop
  | .of (.setProtoName protocolName) =>
    protocolName ≠ [] ∧ ∀ c ∈ protocolName, isProtoChar c = true
  | .of (.setHost hostname) => ∀ c ∈ hostname, isHostChar c = true
  | .of (.setPath path) =>
    (∀ c ∈ path, isPathChar c = true) ∧ (path.length = 1 → path = "/".toList)
  | .of (.addPath path) => ∀ c ∈ path, isPathChar c = true
  | .of (.addQuery keyValue) => QueryText [keyValue]
  | .of (.setQuery _ value _) => ∀ c ∈ value, isQueryChar c = true
  | .of (.parseQuery queryString) =>
    ∀ c ∈ (if queryString.head? = some '?' then queryString.drop 1 else queryString),
      isQueryChar c = true
  | _ => True

omit [Toolbox] [BoostRegex] in
theorem QueryText.append {params params' : KvVector} (h : QueryText params)
    (h' : QueryText params') : QueryText (params ++ params') :=
  List.forall_mem_append.mpr ⟨h, h'⟩

omit [Toolbox] [BoostRegex] in
theorem QueryText.sublist {params params' : KvVector} (h : QueryText params)
    (hsub : params'.Sublist params) : QueryText params' := fun p hp => h p (hsub.subset hp)

omit [Toolbox] [BoostRegex] in
/-- Writing a value over those of a key. -/
theorem QueryText.overwriteAll {params : KvVector} (h : QueryText params) (p : Str → Bool)
    {value : Str} (hvalue : ∀ c ∈ value, isQueryChar c = true) :
    QueryText (overwriteAll p value params) := by
  intro e he c hc
  obtain ⟨e', he', rfl⟩ := List.mem_map.mp he
  split at hc
  · rcases List.mem_append.mp hc with hc | hc
    · exact h e' he' c (List.mem_append_left _ hc)
    · exact hvalue c hc
  · exact h e' he' c hc

omit [BoostRegex] in
/-- What is read off a text is made of its characters. -/
theorem queryText_queryParams {query : Str} (h : ∀ c ∈ query, isQueryChar c = true) :
    QueryText (queryParams query) := by
  intro p hp c hc
  refine queryParams_class h c ?_
  rw [paramsText, Toolbox.glue_eq]
  refine mem_intercalate_of_mem (List.mem_map_of_mem hp) ?_
  rw [List.append_assoc]
  rcases List.mem_append.mp hc with hc | hc
  · exact List.mem_append_left _ hc
  · exact List.mem_append_right _ (List.mem_append_right _ hc)

omit [BoostRegex] in
theorem queryText_parseQuery {queryString : Str}
    (h : ∀ c ∈ (if queryString.head? = some '?' then queryString.drop 1 else queryString),
      isQueryChar c = true) : QueryText (({} : BaseRequest).parseQuery queryString).params := by
  rw [BaseRequest.params_parseQuery rfl]
  revert h
  generalize (if queryString.head? = some '?' then queryString.drop 1 else queryString) = query
  intro h
  split
  · simp [QueryText]
  · exact queryText_queryParams h

/-- Reading a URL leaves parts that the pattern takes. -/
theorem urlReady_parseUrl {r : BaseRequest} (h : UrlReady r) (url : Str) :
    UrlReady (r.parseUrl url) := by
  have hrooted := rooted_parseUrl h.rooted url
  cases hmatch : matchesPattern urlParseRegex url with
  | false => rwa [BaseRequest.parseUrl_of_not_matches hmatch]
  | true =>
    have hw := urlParts_wellFormed hmatch
    rw [BaseRequest.parseUrl_of_matches hmatch] at hrooted ⊢
    refine ⟨hw.proto_ne_nil, hw.proto_class, hw.host_class, ?port, hrooted, ?path, ?params⟩
    case port =>
      dsimp only
      -- the port of the URL, of its protocol, or the one from before
      split_ifs with hnamed
      · exact ⟨by simpa using hnamed, hw.port_length, hw.port_class⟩
      · exact ⟨by decide, by decide, List.all_eq_true.mp rfl⟩
      · exact ⟨by decide, by decide, List.all_eq_true.mp rfl⟩
      · exact h.port
    case path =>
      dsimp only
      rcases hw.path_class with hempty | ⟨p, hp, hclass⟩
      · rw [hempty]
        simp
      · rw [hp]
        exact List.forall_mem_cons.mpr ⟨by decide, hclass⟩
    case params => exact h.params.append (queryText_queryParams hw.query_class)

/-- **One call.** The parts stay texts that the pattern takes. -/
theorem urlReady_apply {r : BaseRequest} (h : UrlReady r) {call : RequestCall}
    (hcall : call.KeepsUrl) : UrlReady (call.apply r) := by
  cases call with
  | header op => exact { h with }
  | of op =>
    cases op with
    | parseUrl url => exact urlReady_parseUrl h url
    | setProtoName protocolName => exact { h with proto_ne_nil := hcall.1, proto := hcall.2 }
    | setHost hostname => exact { h with host := hcall }
    | setPort portNumber => exact { h with port := (portText_decimal portNumber).1 }
    | setPath path =>
      have hrooted := (rooted_setPath_iff r path).mpr hcall.2
      show UrlReady (r.setPath path)
      rw [BaseRequest.setPath_eq] at hrooted ⊢
      refine { h with rooted := hrooted, path := ?_ }
      dsimp only
      split
      · exact List.forall_mem_cons.mpr ⟨by decide, hcall.1⟩
      · exact hcall.1
    | addPath path =>
      have hrooted := rooted_addPath h.rooted path
      show UrlReady (r.addPath path)
      by_cases hpath : path = [] ∨ path = "/".toList
      · rwa [BaseRequest.addPath_of_eq r hpath]
      · rw [not_or] at hpath
        rw [BaseRequest.addPath_of_ne r hpath.1 hpath.2] at hrooted ⊢
        refine { h with rooted := hrooted, path := ?_ }
        refine List.forall_mem_append.mpr ⟨fun c hc => ?_, List.forall_mem_cons.mpr
          ⟨by decide, fun c hc => ?_⟩⟩
        · exact h.path c ((prefix_withoutLastSlash r.path).subset hc)
        · exact hcall c ((suffix_withoutFirstSlash path).subset hc)
    | parseQuery queryString =>
      show UrlReady (r.parseQuery queryString)
      rw [RequestCall.parseQuery_eq_append]
      exact { h with params := h.params.append (queryText_parseQuery hcall) }
    | addQuery keyValue => exact { h with params := h.params.append hcall }
    | setQuery key value icase =>
      show UrlReady (r.setQuery key value icase)
      rw [BaseRequest.setQuery_eq]
      exact { h with
        params := h.params.overwriteAll (fun name => decide (SameKey icase name key)) hcall }
    | removeQuery key icase =>
      show UrlReady (r.removeQuery key icase).1
      rw [BaseRequest.removeQuery_eq]
      exact { h with params := h.params.sublist List.filter_sublist }
    | removeQueryArray key index icase =>
      show UrlReady (r.removeQueryArray key index icase).1
      rw [BaseRequest.removeQueryArray_eq]
      exact { h with params := h.params.sublist (eraseMatch_sublist _ _) }
    | clearQueries => exact { h with params := h.params.sublist (List.nil_sublist _) }
    | setBody _ | setRequestBody _ | clearBody | clearHeaders | addHeaders _ | setMethod _
    | useSsl _ => exact { h with }

/-! ## Runs -/

theorem urlReady_run {r : BaseRequest} (h : UrlReady r) {calls : List RequestCall}
    (hcalls : ∀ call ∈ calls, call.KeepsUrl) : UrlReady (RequestCall.run calls r) := by
  induction calls generalizing r with
  | nil => exact h
  | cons call calls ih =>
    obtain ⟨hcall, hrest⟩ := List.forall_mem_cons.mp hcalls
    exact ih (urlReady_apply h hcall) hrest

/-- Every constructor makes such a request. -/
theorem urlReady_init (init : RequestInit) : UrlReady init.request := by
  have hnew {port : Str} (hport : PortText port) (method : Verb) : UrlReady { port, method } := by
    refine ⟨by simp, ?_, by simp, hport, .inr rfl, ?_, by simp [QueryText]⟩
    · exact List.all_eq_true.mp rfl
    · exact List.all_eq_true.mp rfl
  have hdefault : PortText "80".toList := ⟨by decide, by decide, List.all_eq_true.mp rfl⟩
  cases init with
  | default => exact hnew hdefault _
  | ofUrl url => exact urlReady_parseUrl (hnew hdefault _) url
  | ofUrlPort url port => exact urlReady_parseUrl (hnew (portText_decimal port).1 _) url
  | ofUrlMethod url method => exact urlReady_parseUrl (hnew hdefault _) url

/-- **When a URL carries the request.** A request that was constructed and then changed by any
calls with texts of a URL prints a URL that is accepted. The request that is made of it shows the
same protocol, host, port, flag, path and parameters if and only if the flag is the one that goes
with the protocol, a port that is not printed is, too, and no parameter holds a separator. -/
theorem builtUrl_iff (init : RequestInit) {calls : List RequestCall}
    (hcalls : ∀ call ∈ calls, call.KeepsUrl) :
    let r := RequestCall.run calls init.request
    matchesPattern urlParseRegex r.getUrl = true ∧
      ((BaseRequest.ofUrl r.getUrl).shownFields = r.shownFields ↔
        r.ssl = isHttps r.proto ∧
          (isDroppedPort r.port = true → r.port = defaultPort r.proto) ∧
          Printable r.params) := by
  intro r
  have hready : UrlReady r := urlReady_run (urlReady_init init) hcalls
  exact ⟨(ofUrl_getUrl_of_ready hready).1, shownFields_ofUrl_getUrl_iff hready⟩

end Ready

/-- A request for TLS that was built without naming the protocol is read back as a plain one. -/
theorem builtUrl_loses_ssl :
    letI := Toolbox.reference
    letI := BoostRegex.reference
    let r := RequestCall.run [.of (.setHost "h".toList), .of (.useSsl true), .of (.setPort 8443)]
      (RequestInit.request .default)
    r.getUrl = "http://h:8443/".toList ∧
      (BaseRequest.ofUrl r.getUrl).shownFields ≠ r.shownFields := by
  let := Toolbox.reference
  let := BoostRegex.reference
  have hcalls : ∀ call ∈ [RequestCall.of (.setHost "h".toList), .of (.useSsl true),
      .of (.setPort 8443)], call.KeepsUrl := by
    simp only [List.forall_mem_cons, List.not_mem_nil, false_implies, implies_true, and_true]
    exact ⟨List.all_eq_true.mp rfl, trivial, trivial⟩
  refine ⟨by decide, mt (builtUrl_iff .default hcalls).2.mp ?_⟩
  rintro ⟨hssl, -⟩
  exact absurd hssl (by decide)

end Httb
