import Httb.Url

/-!
# Printing a Parsed URL and Parsing It Again

`get_url` prints the parts of a request and `parse_url` reads them back. A text that
`get_url` prints is itself a rendered `UrlParts`, so the round trip is a statement about
parts: the query survives because `parse_url` cuts where `get_query_string` joins, the path
because an empty one is printed as `/`. The port survives unless the URL names a port that
`get_url` drops and that is not the one its protocol brings back.

## Key Result

- `ofUrl_getUrl_eq_iff`: the round trip gives the same request if and only if
  `PortSurvives`
-/

namespace Httb

open Httb.Foundation

/-- What a caller sees of the URL fields: an empty path shows as `/`. -/
def BaseRequest.shownFields [Toolbox] (r : BaseRequest) : UrlFields :=
  { r.urlFields with path := r.getPath }

/-- The ports that `get_url` leaves out. -/
def isDroppedPort (port : Str) : Bool := port = "80".toList ∨ port = "443".toList

section RoundTrip

variable [Toolbox]

/-- The URL names no port that `get_url` drops, except the one its protocol stands for. -/
def PortSurvives [BoostRegex] (url : Str) : Prop :=
  isDroppedPort (urlParts url).port = false ∨
    (urlParts url).port = defaultPort (urlParts url).proto

instance [BoostRegex] (url : Str) : Decidable (PortSurvives url) := by
  unfold PortSurvives
  infer_instance

/-! ## The query -/

/-- The text of a parameter list, without the question mark. -/
def paramsText (params : KvVector) : Str :=
  glue "&".toList (params.map fun p => p.1 ++ "=".toList ++ p.2)

/-- A parameter list whose printed form can be taken apart again. -/
structure Printable (params : KvVector) : Prop where
  key : ∀ p ∈ params, '=' ∉ p.1 ∧ '&' ∉ p.1
  value : ∀ p ∈ params, '&' ∉ p.2

omit [Toolbox] in
theorem Printable.append {params params' : KvVector} (h : Printable params)
    (h' : Printable params') : Printable (params ++ params') where
  key p hp := (List.mem_append.mp hp).elim (h.key p) (h'.key p)
  value p hp := (List.mem_append.mp hp).elim (h.value p) (h'.value p)

omit [Toolbox] in
theorem Printable.sublist {params params' : KvVector} (h : Printable params)
    (hsub : params'.Sublist params) : Printable params' where
  key p hp := h.key p (hsub.subset hp)
  value p hp := h.value p (hsub.subset hp)

theorem paramsText_nil : paramsText [] = [] := by
  rw [paramsText, Toolbox.glue_eq, List.map_nil, List.intercalate_nil]

theorem paramsText_ne_nil {params : KvVector} (h : params ≠ []) : paramsText params ≠ [] := by
  obtain ⟨p, ps, rfl⟩ := List.exists_cons_of_ne_nil h
  have hmem : '=' ∈ paramsText (p :: ps) := by
    rw [paramsText, Toolbox.glue_eq]
    exact mem_intercalate_of_mem List.mem_cons_self (by simp)
  exact List.ne_nil_of_mem hmem

theorem getQueryString_eq (r : BaseRequest) :
    r.getQueryString = UrlParts.renderQuery (paramsText r.params) := by
  rw [BaseRequest.getQueryString, UrlParts.renderQuery]
  cases hparams : r.params with
  | nil => simp [paramsText_nil]
  | cons p ps =>
    rw [if_pos (by simp), if_neg (by simp [paramsText_ne_nil])]
    rfl

/-- What is read from a query text can be printed. -/
theorem queryParams_printable (query : Str) : Printable (queryParams query) := by
  have hpieces : ∀ p ∈ queryParams query,
      ∃ item ∈ query.splitOn '&', p = cutFirst '=' item := by
    intro p hp
    rw [queryParams, Toolbox.split_eq] at hp
    split at hp
    · simp at hp
    · obtain ⟨item, hitem, rfl⟩ := List.mem_map.mp hp
      exact ⟨item, hitem, Toolbox.splitPair_eq item '='⟩
  refine ⟨fun p hp => ?_, fun p hp => ?_⟩
  · obtain ⟨item, hitem, rfl⟩ := hpieces p hp
    refine ⟨delimiter_not_mem_cutFirst item, fun h => ?_⟩
    exact delimiter_not_mem_of_mem_splitOn hitem (mem_of_mem_cutFirst (.inl h))
  · obtain ⟨item, hitem, rfl⟩ := hpieces p hp
    exact fun h => delimiter_not_mem_of_mem_splitOn hitem (mem_of_mem_cutFirst (.inr h))

/-- Printing a parameter list and reading it gives it back, with its order. -/
theorem queryParams_paramsText {params : KvVector} (h : Printable params) :
    queryParams (paramsText params) = params := by
  rw [queryParams]
  split
  · -- only the empty list has the empty text
    rename_i hempty
    by_contra hne
    exact paramsText_ne_nil (Ne.symm hne) (List.isEmpty_iff.mp hempty)
  · rename_i hempty
    have hne : params ≠ [] := by
      rintro rfl
      simp [paramsText_nil] at hempty
    -- the pieces at the separators are the printed parameters again
    have hitem : ∀ item ∈ params.map (fun p => p.1 ++ "=".toList ++ p.2), '&' ∉ item := by
      intro item hitem hmem
      obtain ⟨p, hp, rfl⟩ := List.mem_map.mp hitem
      simp only [List.mem_append] at hmem
      rcases hmem with (hmem | hmem) | hmem
      · exact (h.key p hp).2 hmem
      · simp at hmem
      · exact h.value p hp hmem
    have hpieces : split (paramsText params) '&' =
        params.map fun p => p.1 ++ "=".toList ++ p.2 := by
      rw [Toolbox.split_eq, paramsText, Toolbox.glue_eq]
      exact List.splitOn_intercalate '&' hitem (by simpa using hne)
    rw [hpieces, List.map_map]
    -- and each of them is cut where it was put together
    refine (List.map_congr_left fun p hp => ?_).trans params.map_id
    rw [Function.comp_apply, Toolbox.splitPair_eq, List.append_assoc]
    exact cutFirst_append_cons (h.key p hp).1 p.2

/-- Nothing but separators is printed that was not read. -/
theorem queryParams_class {query : Str} (h : ∀ c ∈ query, isQueryChar c = true) :
    ∀ c ∈ paramsText (queryParams query), isQueryChar c = true := by
  intro c hc
  rw [paramsText, Toolbox.glue_eq] at hc
  rcases mem_intercalate hc with hc | ⟨item, hitem, hc⟩
  · obtain rfl : c = '&' := by simpa using hc
    rfl
  · obtain ⟨p, hp, rfl⟩ := List.mem_map.mp hitem
    rw [queryParams, Toolbox.split_eq] at hp
    split at hp
    · simp at hp
    · obtain ⟨piece, hpiece, rfl⟩ := List.mem_map.mp hp
      rw [Toolbox.splitPair_eq] at hc
      have hread (hc : c ∈ (cutFirst '=' piece).1 ∨ c ∈ (cutFirst '=' piece).2) :
          isQueryChar c = true :=
        h c (mem_of_mem_splitOn hpiece (mem_of_mem_cutFirst hc))
      simp only [List.mem_append] at hc
      rcases hc with (hc | hc) | hc
      · exact hread (.inl hc)
      · obtain rfl : c = '=' := by simpa using hc
        rfl
      · exact hread (.inr hc)

/-! ## The port -/

/-- A port number as the pattern takes it. -/
structure PortText (port : Str) : Prop where
  ne_nil : port ≠ []
  length : port.length ≤ 5
  digits : ∀ c ∈ port, isPortChar c = true

theorem defaultPort_portText (proto : Str) : PortText (defaultPort proto) := by
  rw [defaultPort]
  split_ifs
  all_goals exact ⟨by decide, by decide, List.all_eq_true.mp rfl⟩

/-- The port of a parsed request is one that can be read again. -/
theorem portOfUrl_portText [BoostRegex] {url : Str}
    (h : matchesPattern urlParseRegex url = true) : PortText (portOfUrl url) := by
  have hw := urlParts_wellFormed h
  rw [portOfUrl]
  split
  · rename_i hport
    exact ⟨by simpa using hport, hw.port_length, hw.port_class⟩
  · exact defaultPort_portText _

/-! ## What get_url prints -/

/-- The parts that `get_url` prints. -/
def BaseRequest.printedParts (r : BaseRequest) : UrlParts where
  proto := r.proto
  host := r.host
  port := if isDroppedPort r.port then [] else r.port
  path := r.getPath
  query := paramsText r.params

/-- `get_url` renders the printed parts. -/
theorem getUrl_eq_render {r : BaseRequest} (h : r.port ≠ []) :
    r.getUrl = r.printedParts.render := by
  have hport : (if r.port ≠ "80".toList ∧ r.port ≠ "443".toList then ":".toList ++ r.port
      else []) = UrlParts.renderPort (if isDroppedPort r.port then [] else r.port) := by
    by_cases hdropped : isDroppedPort r.port = true
    · rw [if_pos hdropped, if_neg]
      · rfl
      · rw [isDroppedPort, decide_eq_true_iff] at hdropped
        tauto
    · rw [if_neg hdropped, if_pos, UrlParts.renderPort, if_neg (by simpa using h)]
      · rfl
      · rw [isDroppedPort, decide_eq_true_iff] at hdropped
        tauto
  have hquery : (if r.hasAnyQuery then r.getQueryString else []) =
      UrlParts.renderQuery (paramsText r.params) := by
    rw [← getQueryString_eq, BaseRequest.hasAnyQuery]
    cases hparams : r.params.isEmpty <;> simp [BaseRequest.getQueryString, hparams]
  have hpath : (if !r.path.isEmpty then r.path else "/".toList) = r.getPath := by
    rw [BaseRequest.getPath]
    cases r.path.isEmpty <;> rfl
  rw [BaseRequest.getUrl, hport, hquery, hpath, UrlParts.render]
  simp only [BaseRequest.printedParts, List.append_assoc]

section Parsed

variable [BoostRegex] {url : Str} (h : matchesPattern urlParseRegex url = true)
include h

/-- A parsed request prints as a URL of the pattern's shape. -/
theorem printedParts_wellFormed : (BaseRequest.ofUrl url).printedParts.WellFormed := by
  have hw := urlParts_wellFormed h
  have hp := portOfUrl_portText h
  rw [BaseRequest.ofUrl_of_matches h]
  simp only [BaseRequest.printedParts]
  exact {
    proto_ne_nil := hw.proto_ne_nil
    proto_class := hw.proto_class
    host_class := hw.host_class
    port_class := by
      split
      · simp
      · exact hp.digits
    port_length := by
      split
      · simp
      · exact hp.length
    path_class := by
      -- an empty path is printed as `/`
      right
      simp only [BaseRequest.getPath]
      rcases hw.path_class with hpath | ⟨p, hpath, hclass⟩
      · exact ⟨[], by simp [hpath], by simp⟩
      · exact ⟨p, by simp [hpath], hclass⟩
    query_class := queryParams_class hw.query_class }

/-- **The second parse reads the printed parts.** -/
theorem ofUrl_getUrl :
    BaseRequest.ofUrl (BaseRequest.ofUrl url).getUrl =
      { BaseRequest.ofUrl url with
        path := (BaseRequest.ofUrl url).getPath
        port :=
          if isDroppedPort (portOfUrl url) then defaultPort (urlParts url).proto
          else portOfUrl url } := by
  have hp := portOfUrl_portText h
  have hport : (BaseRequest.ofUrl url).port = portOfUrl url := by
    rw [BaseRequest.ofUrl_of_matches h]
  have hparams := queryParams_paramsText (queryParams_printable (urlParts url).query)
  obtain ⟨hmatch, hparts⟩ := urlParts_render (printedParts_wellFormed h)
  rw [getUrl_eq_render (hport ▸ hp.ne_nil), BaseRequest.ofUrl_of_matches hmatch, portOfUrl, hparts,
    BaseRequest.ofUrl_of_matches h]
  simp only [BaseRequest.printedParts, hparams]
  -- a port that is printed is read; without one the protocol's is taken
  cases isDroppedPort (portOfUrl url)
  · simp [hp.ne_nil]
  · simp

/-- **Round trip of URLs, exactly.** Printing a request that was parsed from a URL and parsing
the result gives back protocol, host, port, ssl flag, shown path and parameters if and only
if the port survives. -/
theorem ofUrl_getUrl_eq_iff :
    (BaseRequest.ofUrl (BaseRequest.ofUrl url).getUrl).shownFields =
      (BaseRequest.ofUrl url).shownFields ↔ PortSurvives url := by
  have hpath (port : Str) (r : BaseRequest) :
      BaseRequest.getPath { r with path := r.getPath, port := port } = r.getPath := by
    cases hr : r.path <;> simp [BaseRequest.getPath, hr]
  rw [ofUrl_getUrl h]
  simp only [BaseRequest.shownFields, BaseRequest.urlFields, UrlFields.mk.injEq, hpath, true_and,
    and_true]
  rw [BaseRequest.ofUrl_of_matches h, PortSurvives, portOfUrl]
  cases hport : (urlParts url).port with
  | nil =>
    -- without a port the URL means its protocol's, whatever is printed
    simp [isDroppedPort]
  | cons c port =>
    -- an explicit port comes back unless it is dropped, and then only as the protocol's
    cases hdropped : isDroppedPort (c :: port)
    · simp [hdropped]
    · simp [hdropped, eq_comm]

end Parsed

end RoundTrip

/-- A URL with an explicit port of its own. -/
theorem ofUrl_getUrl_port_eq :
    letI := Toolbox.reference
    letI := BoostRegex.reference
    (BaseRequest.ofUrl (BaseRequest.ofUrl "https://h:8443/p?a=1&b".toList).getUrl).shownFields =
      (BaseRequest.ofUrl "https://h:8443/p?a=1&b".toList).shownFields :=
  letI := Toolbox.reference
  letI := BoostRegex.reference
  have hmatch : matchesPattern urlParseRegex "https://h:8443/p?a=1&b".toList = true := by decide
  (ofUrl_getUrl_eq_iff hmatch).mpr (by decide)

/-- Plain HTTP on port 443: the printed URL has no port, and port 80 is read back. -/
theorem ofUrl_getUrl_loses_port :
    letI := Toolbox.reference
    letI := BoostRegex.reference
    matchesPattern urlParseRegex "http://h:443/".toList = true ∧
    (BaseRequest.ofUrl "http://h:443/".toList).getUrl = "http://h/".toList ∧
    (BaseRequest.ofUrl (BaseRequest.ofUrl "http://h:443/".toList).getUrl).shownFields ≠
      (BaseRequest.ofUrl "http://h:443/".toList).shownFields := by
  decide

end Httb
