import Httb.UrlRoundTrip

/-!
# Printed URLs as Normal Forms

`get_url` after `parse_url` (`src/request.cpp`) changes a URL: a path is added, a port may go, a
name without a value gets an equals sign. Two URLs are printed alike exactly if the requests show
the same parts, with the ports 80 and 443 as no port at all. What is printed does not change
again, with one exception: `get_url` drops these two ports of any protocol, and to a URL of `ftp`
without a port `parse_url` gives the port 20, which is printed the next time.

## Key Result

- `normalUrl_normal`: accepted, as fine as the parts that are shown, and stable but for `ftp`
-/

namespace Httb

variable [Toolbox] [BoostRegex]

/-- Parse a URL and print the request. -/
def normalUrl (url : Str) : Str := (BaseRequest.ofUrl url).getUrl

/-- The parts of a URL that are shown: the port is missing if it is one that `get_url` drops. -/
def shownParts (url : Str) : UrlFields :=
  let r := BaseRequest.ofUrl url
  { r.shownFields with port := if isDroppedPort r.port then [] else r.port }

variable {url url' : Str}

/-- A parsed URL is printed by rendering its parts. -/
theorem normalUrl_eq_render (h : matchesPattern urlParseRegex url = true) :
    normalUrl url = (BaseRequest.ofUrl url).printedParts.render := by
  have hport : (BaseRequest.ofUrl url).port = portOfUrl url := by
    rw [BaseRequest.ofUrl_of_matches h]
  exact getUrl_eq_render (hport ▸ (portOfUrl_portText h).ne_nil)

/-- The parts that are printed are read off the text. -/
theorem urlParts_normalUrl (h : matchesPattern urlParseRegex url = true) :
    matchesPattern urlParseRegex (normalUrl url) = true ∧
      urlParts (normalUrl url) = (BaseRequest.ofUrl url).printedParts := by
  rw [normalUrl_eq_render h]
  exact urlParts_render (printedParts_wellFormed h)

/-- So two URLs are printed alike if their printed parts are the same. -/
theorem normalUrl_eq_iff (h : matchesPattern urlParseRegex url = true)
    (h' : matchesPattern urlParseRegex url' = true) :
    normalUrl url = normalUrl url' ↔
      (BaseRequest.ofUrl url).printedParts = (BaseRequest.ofUrl url').printedParts := by
  constructor
  · intro heq
    rw [← (urlParts_normalUrl h).2, heq, (urlParts_normalUrl h').2]
  · intro heq
    rw [normalUrl_eq_render h, normalUrl_eq_render h', heq]

/-! ## What is shown -/

/-- The parameters of a parsed URL are read off their text. -/
theorem queryParams_params (h : matchesPattern urlParseRegex url = true) :
    queryParams (paramsText (BaseRequest.ofUrl url).params) = (BaseRequest.ofUrl url).params := by
  rw [BaseRequest.ofUrl_of_matches h]
  exact queryParams_paramsText (queryParams_printable _)

theorem ssl_ofUrl (h : matchesPattern urlParseRegex url = true) :
    (BaseRequest.ofUrl url).ssl = isHttps (BaseRequest.ofUrl url).proto := by
  rw [BaseRequest.ofUrl_of_matches h]

/-- The parts that are printed say as much as the parts that are shown. -/
theorem printedParts_eq_iff (h : matchesPattern urlParseRegex url = true)
    (h' : matchesPattern urlParseRegex url' = true) :
    (BaseRequest.ofUrl url).printedParts = (BaseRequest.ofUrl url').printedParts ↔
      shownParts url = shownParts url' := by
  have hparams : paramsText (BaseRequest.ofUrl url).params =
      paramsText (BaseRequest.ofUrl url').params ↔
        (BaseRequest.ofUrl url).params = (BaseRequest.ofUrl url').params := by
    refine ⟨fun heq => ?_, congrArg paramsText⟩
    rw [← queryParams_params h, heq, queryParams_params h']
  simp only [BaseRequest.printedParts, shownParts, BaseRequest.shownFields, BaseRequest.urlFields,
    UrlParts.mk.injEq, UrlFields.mk.injEq, hparams]
  constructor
  · rintro ⟨hproto, hhost, hport, hpath, hquery⟩
    -- the flag follows from the protocol
    exact ⟨hproto, hhost, hport, by rw [ssl_ofUrl h, ssl_ofUrl h', hproto], hpath, hquery⟩
  · rintro ⟨hproto, hhost, hport, -, hpath, hquery⟩
    exact ⟨hproto, hhost, hport, hpath, hquery⟩

/-! ## Printing again -/

/-- The port that is printed for a protocol whose URL names none. -/
def printedDefault (proto : Str) : Str :=
  if isDroppedPort (defaultPort proto) then [] else defaultPort proto

/-- Printing again prints the same, but for the port of a protocol that has one to print. -/
theorem printedParts_normalUrl (h : matchesPattern urlParseRegex url = true) :
    (BaseRequest.ofUrl (normalUrl url)).printedParts =
      { (BaseRequest.ofUrl url).printedParts with
        port := if isDroppedPort (portOfUrl url) then printedDefault (urlParts url).proto
          else portOfUrl url } := by
  have hagain := ofUrl_getUrl h
  -- a path that is printed for an empty one is printed again
  have hpath (port : Str) (r : BaseRequest) :
      BaseRequest.getPath { r with path := r.getPath, port := port } = r.getPath := by
    cases hr : r.path <;> simp [BaseRequest.getPath, hr]
  rw [normalUrl, hagain]
  simp only [BaseRequest.printedParts, hpath, UrlParts.mk.injEq, true_and, and_true]
  cases hdropped : isDroppedPort (portOfUrl url) with
  | true => rfl
  | false => simp [hdropped]

omit [BoostRegex] in
theorem isHttps_eq_false_of_isFtp {proto : Str} (h : isFtp proto = true) :
    isHttps proto = false := by
  rw [isFtp, Toolbox.equalsIcase_iff, Toolbox.toLowerCase_eq, Toolbox.toLowerCase_eq] at h
  rw [isHttps, equalsIcase_eq_decide, Toolbox.toLowerCase_eq, Toolbox.toLowerCase_eq, h]
  decide

omit [BoostRegex] in
/-- Of the protocols only `ftp` has a port to print. -/
theorem printedDefault_eq (proto : Str) :
    printedDefault proto = if isFtp proto then "20".toList else [] := by
  rw [printedDefault, defaultPort]
  cases hftp : isFtp proto with
  | true =>
    rw [isHttps_eq_false_of_isFtp hftp]
    rfl
  | false => cases isHttps proto <;> rfl

/-- The port of a URL of `ftp` is only dropped if the URL names it. -/
theorem isDroppedPort_portOfUrl (hftp : isFtp (urlParts url).proto = true) :
    isDroppedPort (portOfUrl url) = isDroppedPort (urlParts url).port := by
  rw [portOfUrl]
  cases hport : (urlParts url).port with
  | nil =>
    rw [if_neg (by simp), defaultPort, isHttps_eq_false_of_isFtp hftp, hftp]
    rfl
  | cons c port => rw [if_pos (by simp)]

/-- Printing is stable unless a port of `ftp` was dropped. -/
theorem normalUrl_normalUrl_iff (h : matchesPattern urlParseRegex url = true) :
    normalUrl (normalUrl url) = normalUrl url ↔
      (isFtp (urlParts url).proto = true → isDroppedPort (urlParts url).port = false) := by
  have hport : (BaseRequest.ofUrl url).printedParts.port =
      if isDroppedPort (portOfUrl url) then [] else portOfUrl url := by
    rw [BaseRequest.printedParts, BaseRequest.ofUrl_of_matches h]
  have hwith (parts : UrlParts) (port : Str) :
      { parts with port := port } = parts ↔ port = parts.port := by
    constructor
    · intro heq
      rw [← heq]
    · rintro rfl
      rfl
  rw [normalUrl_eq_iff (urlParts_normalUrl h).1 h, printedParts_normalUrl h, hwith, hport]
  -- only a port of `ftp` that was dropped comes back as another one
  cases hftp : isFtp (urlParts url).proto with
  | true =>
    rw [← isDroppedPort_portOfUrl hftp, printedDefault_eq, hftp]
    cases isDroppedPort (portOfUrl url) <;> simp
  | false =>
    rw [printedDefault_eq, hftp]
    simp

/-- Once the URL that was printed names no port that is dropped, printing is stable. -/
theorem isDroppedPort_normalUrl (h : matchesPattern urlParseRegex url = true) :
    isDroppedPort (urlParts (normalUrl url)).port = false := by
  rw [(urlParts_normalUrl h).2, BaseRequest.printedParts]
  dsimp only
  split
  · decide
  · rename_i hdropped
    simpa using hdropped

/-- **Printed URLs as normal forms.** What `get_url` prints of an accepted URL is accepted. Two
accepted URLs are printed alike if and only if they show the same protocol, host, flag, path and
parameters and the same port, where 80 and 443 count as none: `http://h:80/` and `http://h:443/`
are printed alike. Printing twice prints what printing once does, if and only if the URL is none of
`ftp` that names a port which is dropped; and printing is stable from the second time on. -/
theorem normalUrl_normal (h : matchesPattern urlParseRegex url = true)
    (h' : matchesPattern urlParseRegex url' = true) :
    matchesPattern urlParseRegex (normalUrl url) = true ∧
      (normalUrl url = normalUrl url' ↔ shownParts url = shownParts url') ∧
      (normalUrl (normalUrl url) = normalUrl url ↔
        (isFtp (urlParts url).proto = true → isDroppedPort (urlParts url).port = false)) ∧
      normalUrl (normalUrl (normalUrl url)) = normalUrl (normalUrl url) :=
  ⟨(urlParts_normalUrl h).1, (normalUrl_eq_iff h h').trans (printedParts_eq_iff h h'),
    normalUrl_normalUrl_iff h,
    (normalUrl_normalUrl_iff (urlParts_normalUrl h).1).mpr fun _ => isDroppedPort_normalUrl h⟩

omit [Toolbox] [BoostRegex] in
/-- The same page twice, and a port of `ftp` that comes back as another one. -/
theorem normalUrl_ftp :
    letI := Toolbox.reference
    letI := BoostRegex.reference
    normalUrl "http://h:80?a".toList = normalUrl "http://h/?a=".toList ∧
      normalUrl "ftp://h:80/".toList = "ftp://h/".toList ∧
      normalUrl (normalUrl "ftp://h:80/".toList) ≠ normalUrl "ftp://h:80/".toList := by
  let := Toolbox.reference
  let := BoostRegex.reference
  have hpage : matchesPattern urlParseRegex "http://h:80?a".toList = true := by decide
  have hsame : matchesPattern urlParseRegex "http://h/?a=".toList = true := by decide
  have hftp : matchesPattern urlParseRegex "ftp://h:80/".toList = true := by decide
  exact ⟨(normalUrl_normal hpage hsame).2.1.mpr (by decide), by decide,
    mt (normalUrl_normal hftp hftp).2.2.1.mp (by decide)⟩

end Httb
