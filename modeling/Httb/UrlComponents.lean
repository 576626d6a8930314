import Httb.UrlResidue

/-!
# The Components of a URL

What a constructor takes from a URL that is put together from a protocol, a host, perhaps a
port, a path and perhaps a query text (`src/request.cpp`). The groups of the pattern share
most of their characters, and the separators between them are optional; still no character
moves from one component to the next.

## Key Results

- `ofUrl_urlText`: the components are recovered, whatever is left out
- `port_precedence_iff`: the port that is named comes first, then the constructor's argument,
  then the protocol's default, but for an argument that the protocol overwrites
-/

namespace Httb

open Httb.Foundation

/-! ## Putting a URL together -/

/-- A part that may be left out, behind its separator. -/
def optionalText (separator : Char) : Option Str → Str
  | none => []
  | some text => separator :: text

/-- `proto://host[:port]path[?query]`. -/
def urlText (proto host : Str) (port : Option Str) (path : Str) (query : Option Str) : Str :=
  proto ++ "://".toList ++ host ++ optionalText ':' port ++ path ++ optionalText '?' query

/-- The components are such as a URL has. -/
structure UrlComponents (proto host : Str) (port : Option Str) (path : Str) (query : Option Str) :
    Prop where
  proto_ne_nil : proto ≠ []
  proto_class : ∀ c ∈ proto, isProtoChar c = true
  host_ne_nil : host ≠ []
  host_class : ∀ c ∈ host, isHostChar c = true
  port_digits : ∀ p ∈ port, 1 ≤ p.length ∧ p.length ≤ 5 ∧ ∀ c ∈ p, isPortChar c = true
  path_class : path = [] ∨ ∃ p, path = '/' :: p ∧ ∀ c ∈ p, isPathChar c = true
  query_class : ∀ text ∈ query, ∀ c ∈ text, isQueryChar c = true

namespace UrlComponents

variable {proto host : Str} {port : Option Str} {path : Str} {query : Option Str}

/-- The components as parts; what is left out is empty. -/
def parts (proto host : Str) (port : Option Str) (path : Str) (query : Option Str) : UrlParts :=
  ⟨proto, host, port.getD [], path, query.getD []⟩

theorem wellFormed (h : UrlComponents proto host port path query) :
    (parts proto host port path query).WellFormed where
  proto_ne_nil := h.proto_ne_nil
  proto_class := h.proto_class
  host_class := h.host_class
  port_class := by
    cases port with
    | none => simp [parts]
    | some p => exact (h.port_digits p rfl).2.2
  port_length := by
    cases port with
    | none => simp [parts]
    | some p => exact (h.port_digits p rfl).2.1
  path_class := h.path_class
  query_class := by
    cases query with
    | none => simp [parts]
    | some text => exact h.query_class text rfl

/-- The text is rendered parts. A question mark may stand before an empty query text. -/
theorem urlText_eq_renderTo (h : UrlComponents proto host port path query) :
    ∃ tail, UrlParts.QueryTail (query.getD []) tail ∧
      urlText proto host port path query = (parts proto host port path query).renderTo tail := by
  have hport : optionalText ':' port = UrlParts.renderPort (port.getD []) := by
    cases port with
    | none => rfl
    | some p =>
      have hne : p.isEmpty = false := by
        have hpos := (h.port_digits p rfl).1
        cases p with
        | nil => simp at hpos
        | cons c p => rfl
      simp [optionalText, UrlParts.renderPort, hne]
  refine ⟨optionalText '?' query, ⟨h.wellFormed.query_class, ?_⟩, ?_⟩
  · cases query with
    | none => exact .inr ⟨rfl, rfl⟩
    | some text => exact .inl rfl
  · rw [urlText, hport, UrlParts.renderTo]
    simp [parts]

end UrlComponents

section Parsing

variable [Toolbox] [BoostRegex]

/-! ## Taking it apart -/

/-- **The components of a URL are recovered.** -/
theorem ofUrl_urlText {proto host : Str} {port : Option Str} {path : Str} {query : Option Str}
    (h : UrlComponents proto host port path query) :
    (BaseRequest.ofUrl (urlText proto host port path query)).urlFields =
      { proto := proto
        host := host
        port := port.getD (defaultPort proto)
        ssl := isHttps proto
        path := path
        params :=
          if query.getD [] = [] then []
          else ((query.getD []).splitOn '&').map (cutFirst '=') } := by
  obtain ⟨tail, htail, htext⟩ := h.urlText_eq_renderTo
  obtain ⟨hmatch, hparts⟩ := urlParts_renderTo h.wellFormed htail
  have hport : portOfUrl (urlText proto host port path query) = port.getD (defaultPort proto) := by
    rw [htext, portOfUrl, hparts]
    cases port with
    | none => rfl
    | some p =>
      -- a port that is named is not empty
      have hpos := (h.port_digits p rfl).1
      have hne : p ≠ [] := List.ne_nil_of_length_pos hpos
      simp [UrlComponents.parts, hne]
  rw [← htext] at hmatch hparts
  rw [BaseRequest.ofUrl_of_matches hmatch, BaseRequest.urlFields, hparts, hport,
    ← queryParams_eq_pieces]
  rfl

omit [Toolbox] [BoostRegex] in
/-- A URL with every component, and with an empty piece in the query. -/
theorem ofUrl_urlText_full :
    letI := Toolbox.reference
    letI := BoostRegex.reference
    (BaseRequest.ofUrl (urlText "https".toList "a.b".toList (some "8443".toList) "/x".toList
        (some "p=1&&q".toList))).urlFields =
      ⟨"https".toList, "a.b".toList, "8443".toList, true, "/x".toList,
        [("p".toList, "1".toList), ([], []), ("q".toList, [])]⟩ :=
  letI := Toolbox.reference
  letI := BoostRegex.reference
  have hcomponents : UrlComponents "https".toList "a.b".toList (some "8443".toList) "/x".toList
      (some "p=1&&q".toList) :=
    { proto_ne_nil := by decide
      proto_class := List.all_eq_true.mp rfl
      host_ne_nil := by decide
      host_class := List.all_eq_true.mp rfl
      port_digits := by
        intro p hp
        obtain rfl := Option.some.inj hp
        exact ⟨by decide, by decide, List.all_eq_true.mp rfl⟩
      path_class := .inr ⟨"x".toList, rfl, List.all_eq_true.mp rfl⟩
      query_class := by
        intro text htext
        obtain rfl := Option.some.inj htext
        exact List.all_eq_true.mp rfl }
  (ofUrl_urlText hcomponents).trans (by decide)

/-! ## Which port wins -/

/-- The precedence of ports: the one the URL names, the constructor's argument, the
protocol's default. -/
def precedencePort (url : Str) (argument : Option UInt16) : Str :=
  if (urlParts url).port ≠ [] then (urlParts url).port
  else
    match argument with
    | some port => decimal port.toNat
    | none => defaultPort (urlParts url).proto

/-- The protocol does not overwrite the port argument: the URL names a port, or its protocol
sets none, or sets the same. -/
def PortArgumentKept (url : Str) (port : UInt16) : Prop :=
  (urlParts url).port ≠ [] ∨ namesPortScheme url = false ∨
    decimal port.toNat = defaultPort (urlParts url).proto

instance (url : Str) (port : UInt16) : Decidable (PortArgumentKept url port) := by
  unfold PortArgumentKept
  infer_instance

theorem port_ofUrl {url : Str} (h : matchesPattern urlParseRegex url = true) :
    (BaseRequest.ofUrl url).port = precedencePort url none := by
  rw [BaseRequest.ofUrl_of_matches h, portOfUrl, precedencePort]
  cases (urlParts url).port <;> rfl

/-- The method does not matter to the port. -/
theorem port_ofUrlMethod {url : Str} (h : matchesPattern urlParseRegex url = true) (method : Verb) :
    (BaseRequest.ofUrlMethod url method).port = precedencePort url none := by
  rw [← port_ofUrl h, BaseRequest.ofUrlMethod, BaseRequest.ofUrl, BaseRequest.parseUrl_of_matches h,
    BaseRequest.parseUrl_of_matches h]

/-- The constructor stores its argument first, and `parse_url` writes over it. -/
theorem port_ofUrlPort_iff {url : Str} (h : matchesPattern urlParseRegex url = true)
    (port : UInt16) :
    (BaseRequest.ofUrlPort url port).port = precedencePort url (some port) ↔
      PortArgumentKept url port := by
  rw [BaseRequest.ofUrlPort, BaseRequest.parseUrl_of_matches h, precedencePort, PortArgumentKept,
    namesPortScheme, defaultPort]
  cases hport : (urlParts url).port with
  | cons c p => simp
  | nil =>
    cases isHttps (urlParts url).proto
    · cases isFtp (urlParts url).proto
      · simp
      · simp [eq_comm]
    · simp [eq_comm]

/-- **The precedence of ports, exactly.** For a URL that the pattern accepts the three
constructors follow it if and only if the port argument is not overwritten. -/
theorem port_precedence_iff {url : Str} (h : matchesPattern urlParseRegex url = true)
    (method : Verb) (port : UInt16) :
    ((BaseRequest.ofUrl url).port = precedencePort url none ∧
        (BaseRequest.ofUrlMethod url method).port = precedencePort url none ∧
        (BaseRequest.ofUrlPort url port).port = precedencePort url (some port)) ↔
      PortArgumentKept url port := by
  rw [port_ofUrlPort_iff h]
  constructor
  · rintro ⟨-, -, hkept⟩
    exact hkept
  · intro hkept
    exact ⟨port_ofUrl h, port_ofUrlMethod h method, hkept⟩

end Parsing

/-- Plain HTTP leaves the argument alone. -/
theorem port_precedence_http :
    letI := Toolbox.reference
    letI := BoostRegex.reference
    (BaseRequest.ofUrlPort "http://h/".toList 8080).port = "8080".toList :=
  letI := Toolbox.reference
  letI := BoostRegex.reference
  have hmatch : matchesPattern urlParseRegex "http://h/".toList = true := by decide
  ((port_precedence_iff hmatch .get 8080).mpr (by decide)).2.2.trans (by decide)

/-- HTTPS overwrites the argument. -/
theorem port_argument_overwritten :
    letI := Toolbox.reference
    letI := BoostRegex.reference
    matchesPattern urlParseRegex "https://h/".toList = true ∧
    precedencePort "https://h/".toList (some 8443) = "8443".toList ∧
    (BaseRequest.ofUrlPort "https://h/".toList 8443).port = "443".toList := by
  decide

end Httb
