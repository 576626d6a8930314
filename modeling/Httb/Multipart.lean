import Httb.Foundation.HeaderLines
import Httb.RequestBody

/-!
# Multipart Bodies

The format of a `multipart/form-data` body, and what `body_multipart::build`
(`src/body_multipart.cpp`) writes instead. The type of every part is misspelt
`format-data`, the delimiter that closes the body is missing, and the line break between
two parts is counted against all entries, those without a body included.

## Key Results

- `exists_isFormData`: the format has a body for any entries with quotable names
- `build_eq`: the text that `build` writes
- `build_filter_iff`: when entries without a body leave no trace in it
- `build_not_formData`: it is well formed for no list of entries with a body
- `build_not_closed`: nor does it end as a closed body does
-/

namespace Httb

open Httb.Foundation

/-! ## The format -/

/-- The end of a line. -/
def crlf : Str := "\r\n".toList

/-- `--boundary`, on a line of its own. -/
def delimiterLine (boundaryName : Str) : Str := "--".toList ++ boundaryName ++ crlf

/-- `--boundary--`, on a new line. -/
def closeDelimiter (boundaryName : Str) : Str := crlf ++ "--".toList ++ boundaryName ++ "--".toList

/-- The header of a part that carries the form field of this name. The name of a header and
the type are compared up to case, and blanks may stand before the type. -/
def IsFormDisposition (name line : Str) : Prop :=
  ∃ field blanks kind params : Str,
    line = field ++ ':' :: (blanks ++ (kind ++ ';' :: params)) ∧
      field.map tolower = "content-disposition".toList ∧ (∀ c ∈ blanks, c = ' ' ∨ c = '\t') ∧
      kind.map tolower = "form-data".toList ∧
      ("name=\"".toList ++ name ++ "\"".toList) <:+: params

/-- A header line. -/
structure IsHeaderLine (line : Str) : Prop extends IsLine '\r' line where
  no_lf : '\n' ∉ line

/-- The text of the part that carries an entry: headers, an empty line, and the body. -/
def IsPart (entry : MultipartEntry) (text : Str) : Prop :=
  ∃ headers : List Str, (∀ line ∈ headers, IsHeaderLine line) ∧
    (∃ line ∈ headers, IsFormDisposition entry.name line) ∧
    text = block crlf headers (entry.body.getD [])

/-- A body that carries the entries: their parts in order, each behind a delimiter line, and
the closing delimiter. -/
def IsFormData (boundaryName : Str) (entries : List MultipartEntry) (text : Str) : Prop :=
  ∃ parts : List Str, List.Forall₂ IsPart entries parts ∧
    text = crlf.intercalate (parts.map fun part => delimiterLine boundaryName ++ part) ++
      closeDelimiter boundaryName

/-! ## What build writes -/

namespace MultipartEntry

/-- The header lines of an entry. -/
def headerLines (e : MultipartEntry) : List Str :=
  ("Content-Disposition: format-data; name=\"".toList ++ e.name ++ "\"".toList ++
    (if !e.filename.isEmpty then "; filename=\"".toList ++ e.filename ++ "\"".toList else [])) ::
  (if !e.contentType.isEmpty then ["Content-Type: ".toList ++ e.contentType] else [])

theorem mem_headerLines {e : MultipartEntry} {line : Str} (h : line ∈ e.headerLines) :
    line = "Content-Disposition: format-data; name=\"".toList ++ e.name ++ "\"".toList ++
      (if !e.filename.isEmpty then "; filename=\"".toList ++ e.filename ++ "\"".toList else []) ∨
    line = "Content-Type: ".toList ++ e.contentType := by
  unfold headerLines at h
  rcases List.mem_cons.mp h with rfl | h
  · exact .inl rfl
  · split at h
    · exact .inr (List.mem_singleton.mp h)
    · exact absurd h List.not_mem_nil

theorem part_eq (boundaryName : Str) (e : MultipartEntry) :
    e.part boundaryName =
      delimiterLine boundaryName ++ block crlf e.headerLines (e.body.getD []) := by
  unfold part headerLines delimiterLine crlf
  -- all texts are chains of the same pieces, put together in another order
  cases e.filename.isEmpty <;> cases e.contentType.isEmpty <;>
    simp only [Bool.not_true, Bool.not_false, Bool.false_eq_true, if_true, if_false, block_cons,
      block_nil, List.append_assoc, List.append_nil]

end MultipartEntry

namespace BodyMultipart

/-- The parts in order with a line break between them. The loop compares the number of the
part with the number of all entries, so after skipped ones a line break is left over. -/
theorem buildLoop_eq (boundaryName : Str) (size i : ℕ) (entries : List MultipartEntry)
    (h : i + entries.length ≤ size) :
    buildLoop boundaryName size i entries =
      crlf.intercalate ((entries.filter MultipartEntry.hasBody).map fun e => e.part boundaryName) ++
        (if 0 < (entries.filter MultipartEntry.hasBody).length ∧
          i + (entries.filter MultipartEntry.hasBody).length < size then crlf else []) := by
  induction entries generalizing i with
  | nil => simp [buildLoop]
  | cons e entries ih =>
    rw [List.length_cons] at h
    cases he : e.hasBody with
    | false =>
      rw [buildLoop, he, List.filter_cons_of_neg (by simp [he])]
      exact ih i (by omega)
    | true =>
      have hbodied := (List.length_filter_le MultipartEntry.hasBody entries)
      rw [buildLoop, he, List.filter_cons_of_pos he, ih (i + 1) (by omega)]
      simp only [Bool.not_true, Bool.false_eq_true, if_false, List.map_cons, List.length_cons]
      cases hrest : entries.filter MultipartEntry.hasBody with
      | nil =>
        -- the last part
        have hlast : 0 < 0 + 1 ∧ i + (0 + 1) < size ↔ i < size - 1 := by omega
        have hnone : ¬ (0 < 0 ∧ i + 1 + 0 < size) := by omega
        simp only [List.map_nil, List.length_nil, List.intercalate_nil, List.intercalate_singleton,
          hlast, hnone, if_false, List.append_nil]
        rfl
      | cons e' rest =>
        rw [hrest, List.length_cons] at hbodied
        have hlast : 0 < rest.length + 1 ∧ i + 1 + (rest.length + 1) < size ↔
            0 < rest.length + 1 + 1 ∧ i + (rest.length + 1 + 1) < size := by omega
        rw [if_pos (by omega), List.map_cons, List.intercalate_cons_cons]
        simp only [List.length_cons, hlast, List.append_assoc]
        rfl

variable [Toolbox]

/-- **What `build` writes**: the parts of the entries with a body, in order, with line breaks
between them, one more line break when an entry was skipped, and nothing else. -/
theorem build_eq (b : BodyMultipart) (request : IoContainer) :
    (b.build request).1 =
      crlf.intercalate ((b.entries.filter MultipartEntry.hasBody).map fun e =>
        e.part b.boundaryName) ++
        (if 0 < (b.entries.filter MultipartEntry.hasBody).length ∧
          (b.entries.filter MultipartEntry.hasBody).length < b.entries.length then crlf
        else []) := by
  have hloop := buildLoop_eq b.boundaryName b.entries.length 0 b.entries (by omega)
  unfold build
  simpa only [Nat.zero_add] using hloop

end BodyMultipart

/-! ## Entries without a body -/

/-- **Entries without a body leave no trace, exactly** when there are none, or when there are
no others: else the line break is left over that would separate a part from them. -/
theorem BodyMultipart.build_filter_iff [Toolbox] (b : BodyMultipart) (request : IoContainer) :
    (b.build request).1 =
        ({ b with entries := b.entries.filter MultipartEntry.hasBody }.build request).1 ↔
      (∀ e ∈ b.entries, e.hasBody = true) ∨ ∀ e ∈ b.entries, e.hasBody = false := by
  have hkept : (b.entries.filter MultipartEntry.hasBody).filter MultipartEntry.hasBody =
      b.entries.filter MultipartEntry.hasBody := by
    rw [List.filter_filter]
    simp
  have hall : (b.entries.filter MultipartEntry.hasBody).length = b.entries.length ↔
      ∀ e ∈ b.entries, e.hasBody = true := List.length_filter_eq_length_iff
  have hnone : (b.entries.filter MultipartEntry.hasBody).length = 0 ↔
      ∀ e ∈ b.entries, e.hasBody = false := by
    rw [List.length_eq_zero_iff, List.filter_eq_nil_iff]
    simp
  have hle := List.length_filter_le MultipartEntry.hasBody b.entries
  -- what is built of the others alone has no line break at its end
  have hlast : ¬ (0 < (b.entries.filter MultipartEntry.hasBody).length ∧
      (b.entries.filter MultipartEntry.hasBody).length <
        (b.entries.filter MultipartEntry.hasBody).length) := by omega
  rw [build_eq, build_eq, ← hall, ← hnone]
  dsimp only
  rw [hkept, if_neg hlast, List.append_cancel_left_eq]
  split
  · apply iff_of_false
    · decide
    · omega
  · apply iff_of_true
    · rfl
    · omega

/-- An empty field behind another one leaves a line break at the end of the body. -/
theorem BodyMultipart.build_skipped_last :
    let kept : MultipartEntry := .ofBody "a".toList "1".toList
    let skipped : MultipartEntry := .ofBody "b".toList []
    skipped.hasBody = false ∧
      (@build .reference ⟨"B".toList, [kept, skipped]⟩ {}).1 =
        (@build .reference ⟨"B".toList, [kept]⟩ {}).1 ++ crlf ∧
      (@build .reference ⟨"B".toList, [kept, skipped]⟩ {}).1 ≠
        (@build .reference
          ⟨"B".toList, [kept, skipped].filter MultipartEntry.hasBody⟩ {}).1 := by
  decide

/-! ## The input that the format is meant for -/

/-- The text can stand between quotes in a header line. -/
structure IsQuotable (s : Str) : Prop where
  no_cr : '\r' ∉ s
  no_lf : '\n' ∉ s
  no_quote : '"' ∉ s

/-- Entries that a multipart body can carry, at least one of them with a body. -/
structure IsFormInput (b : BodyMultipart) : Prop where
  some_body : ∃ e ∈ b.entries, e.hasBody = true
  quotable : ∀ e ∈ b.entries,
    IsQuotable e.name ∧ IsQuotable e.filename ∧ IsQuotable e.contentType
  no_delimiter : ∀ e ∈ b.entries, ∀ body ∈ e.body,
    ¬ ("--".toList ++ b.boundaryName) <:+: body

/-- A header line with a quotable text in it. -/
theorem IsHeaderLine.append {s t : Str} (hs : IsHeaderLine s) (hcr : '\r' ∉ t) (hlf : '\n' ∉ t) :
    IsHeaderLine (s ++ t) where
  ne_nil := List.append_ne_nil_of_left_ne_nil hs.ne_nil t
  no_end := by simpa using ⟨hs.no_end, hcr⟩
  no_lf := by simpa using ⟨hs.no_lf, hlf⟩

theorem IsHeaderLine.append_quotable {s t : Str} (hs : IsHeaderLine s) (ht : IsQuotable t) :
    IsHeaderLine (s ++ t) := hs.append ht.no_cr ht.no_lf

/-- The format has a body for entries with quotable names. -/
theorem exists_isFormData (boundaryName : Str) {entries : List MultipartEntry}
    (h : ∀ e ∈ entries, IsQuotable e.name) : ∃ text, IsFormData boundaryName entries text := by
  let header (e : MultipartEntry) : Str :=
    "Content-Disposition: form-data; name=\"".toList ++ e.name ++ "\"".toList
  let part (e : MultipartEntry) : Str := block crlf [header e] (e.body.getD [])
  have hpart : ∀ e ∈ entries, IsPart e (part e) := by
    intro e he
    have hstart : IsHeaderLine "Content-Disposition: form-data; name=\"".toList :=
      ⟨⟨by decide, by decide⟩, by decide⟩
    have hline : IsHeaderLine (header e) :=
      (hstart.append_quotable (h e he)).append (by decide) (by decide)
    refine ⟨[header e], by simpa using hline, ⟨header e, by simp, ?_⟩, rfl⟩
    refine ⟨"Content-Disposition".toList, " ".toList, "form-data".toList,
      " name=\"".toList ++ e.name ++ "\"".toList, ?_, by decide, ?_, by decide, ?_⟩
    · simp [header]
    · exact fun c hc => .inl (List.mem_singleton.mp hc)
    · exact ⟨" ".toList, [], by simp⟩
  refine ⟨_, entries.map part, ?_, rfl⟩
  rw [List.forall₂_map_right_iff]
  exact List.forall₂_same.mpr hpart

/-! ## Why it is not well formed -/

/-- The type of the parts is misspelt. -/
theorem not_isFormDisposition_formatData (name rest : Str) :
    ¬ IsFormDisposition name ("Content-Disposition: format-data; name=\"".toList ++ rest) := by
  rintro ⟨field, blanks, kind, params, heq, hfield, hblanks, hkind, -⟩
  have hfieldLength : field.length = 19 := by simpa using congrArg List.length hfield
  have hkindLength : kind.length = 9 := by simpa using congrArg List.length hkind
  -- the name of the header is read up to its colon
  have hsplit : "Content-Disposition: format-data; name=\"".toList ++ rest =
      "Content-Disposition".toList ++
        ':' :: ' ' :: ("format-da".toList ++ ("ta; name=\"".toList ++ rest)) := by simp
  rw [hsplit] at heq
  have hvalue := List.append_inj_right heq (by rw [hfieldLength]; rfl)
  rw [List.cons.injEq] at hvalue
  match blanks, hblanks, hvalue.2 with
  | [], _, hvalue =>
    -- the type does not begin with a blank
    obtain ⟨c, rest', rfl⟩ := List.exists_cons_of_length_eq_add_one hkindLength
    have hc : c = ' ' := (List.cons.inj hvalue).1.symm
    have hfirst : some (tolower c) = some 'f' := congrArg List.head? hkind
    rw [hc] at hfirst
    exact absurd hfirst (by decide)
  | [_], _, hvalue =>
    -- the first nine characters of what is written are not those of the type
    have hrest : "format-da".toList ++ ("ta; name=\"".toList ++ rest) = kind ++ ';' :: params :=
      (List.cons.inj hvalue).2
    have htype := List.append_inj_left hrest (by rw [hkindLength]; rfl)
    rw [← htype] at hkind
    exact absurd hkind (by decide)
  | _ :: c :: _, hblanks, hvalue =>
    have hc : c = 'f' := (List.cons.inj (List.cons.inj hvalue).2).1.symm
    have hblank := hblanks c (by simp)
    rw [hc] at hblank
    exact absurd hblank (by decide)

theorem not_isFormDisposition_contentType (name rest : Str) :
    ¬ IsFormDisposition name ("Content-Type: ".toList ++ rest) := by
  rintro ⟨field, blanks, kind, params, heq, hfield, -, -, -⟩
  have hlength : field.length = 19 := by simpa using congrArg List.length hfield
  have hsplit : "Content-Type: ".toList ++ rest =
      "Content-T".toList ++ ("ype: ".toList ++ rest) := by simp
  rw [hsplit, ← List.take_append_drop 9 field, List.append_assoc] at heq
  -- the names of the two headers differ at their ninth letter
  have hstart := List.append_inj_left heq (by rw [List.length_take, hlength]; rfl)
  have htake := congrArg (List.take 9) hfield
  rw [← List.map_take, ← hstart] at htake
  exact absurd htake (by decide)

namespace MultipartEntry

/-- Quotable texts make header lines. -/
theorem isHeaderLine_headerLines {e : MultipartEntry}
    (h : IsQuotable e.name ∧ IsQuotable e.filename ∧ IsQuotable e.contentType) :
    ∀ line ∈ e.headerLines, IsHeaderLine line := by
  obtain ⟨hname, hfilename, htype⟩ := h
  have hdisposition : IsHeaderLine "Content-Disposition: format-data; name=\"".toList :=
    ⟨⟨by decide, by decide⟩, by decide⟩
  have hcontent : IsHeaderLine "Content-Type: ".toList := ⟨⟨by decide, by decide⟩, by decide⟩
  have hquoted := (hdisposition.append_quotable hname).append (t := "\"".toList)
    (by decide) (by decide)
  intro line hline
  rcases mem_headerLines hline with rfl | rfl
  · split
    · have hparam : IsHeaderLine "; filename=\"".toList := ⟨⟨by decide, by decide⟩, by decide⟩
      have hfile := (hparam.append_quotable hfilename).append (t := "\"".toList)
        (by decide) (by decide)
      exact hquoted.append hfile.no_end hfile.no_lf
    · rw [List.append_nil]
      exact hquoted
  · exact hcontent.append_quotable htype

/-- None of the header lines says that the part carries a form field. -/
theorem not_isFormDisposition_headerLines {e : MultipartEntry} (name : Str) :
    ∀ line ∈ e.headerLines, ¬ IsFormDisposition name line := by
  intro line hline
  rcases mem_headerLines hline with rfl | rfl
  · rw [List.append_assoc, List.append_assoc]
    exact not_isFormDisposition_formatData name _
  · exact not_isFormDisposition_contentType name _

end MultipartEntry

/-- A text that begins with a part of `build` does not carry its entry as a form field: the
header lines of the first part are read as they were written. -/
theorem not_isFormData_of_part {boundaryName : Str} {e : MultipartEntry}
    (h : IsQuotable e.name ∧ IsQuotable e.filename ∧ IsQuotable e.contentType)
    (entries : List MultipartEntry) (tail : Str) :
    ¬ IsFormData boundaryName (e :: entries) (e.part boundaryName ++ tail) := by
  rintro ⟨parts, hparts, htext⟩
  obtain ⟨part, rest, ⟨headers, hlines, ⟨line, hline, hform⟩, rfl⟩, -, rfl⟩ :=
    List.forall₂_cons_left_iff.mp hparts
  -- behind the delimiter line there is one text, read in two ways
  obtain ⟨tail', hfirst⟩ : ∃ tail', crlf.intercalate
      ((block crlf headers (e.body.getD []) :: rest).map fun part =>
        delimiterLine boundaryName ++ part) ++ closeDelimiter boundaryName =
      delimiterLine boundaryName ++ (block crlf headers (e.body.getD []) ++ tail') := by
    cases rest with
    | nil => exact ⟨closeDelimiter boundaryName, by simp⟩
    | cons p rest =>
      refine ⟨crlf ++ (crlf.intercalate ((p :: rest).map fun part =>
        delimiterLine boundaryName ++ part) ++ closeDelimiter boundaryName), ?_⟩
      simp only [List.map_cons, List.intercalate_cons_cons, List.append_assoc]
  rw [hfirst, MultipartEntry.part_eq, List.append_assoc] at htext
  have hblocks := List.append_cancel_left htext
  rw [block_append, block_append] at hblocks
  obtain ⟨rfl, -⟩ := block_injective
    (fun l hl => (MultipartEntry.isHeaderLine_headerLines h l hl).toIsLine)
    (fun l hl => (hlines l hl).toIsLine) hblocks
  exact MultipartEntry.not_isFormDisposition_headerLines e.name line hline hform

/-- **`build` never writes a well-formed body.** -/
theorem BodyMultipart.build_not_formData [Toolbox] (b : BodyMultipart) (request : IoContainer)
    (h : IsFormInput b) :
    ¬ IsFormData b.boundaryName (b.entries.filter MultipartEntry.hasBody)
      (b.build request).1 := by
  obtain ⟨e, he, hbody⟩ := h.some_body
  rw [build_eq]
  cases hbodied : b.entries.filter MultipartEntry.hasBody with
  | nil => exact absurd hbody (by simpa using List.filter_eq_nil_iff.mp hbodied e he)
  | cons first rest =>
    have hmem : first ∈ b.entries.filter MultipartEntry.hasBody := by
      rw [hbodied]
      exact List.mem_cons_self
    have hquotable := h.quotable first (List.mem_of_mem_filter hmem)
    cases rest with
    | nil =>
      rw [List.map_cons, List.map_nil, List.intercalate_singleton]
      exact not_isFormData_of_part hquotable [] _
    | cons second rest =>
      rw [List.map_cons, List.map_cons, List.intercalate_cons_cons, List.append_assoc,
        List.append_assoc]
      exact not_isFormData_of_part hquotable (second :: rest) _

/-- One plain field. -/
def BodyMultipart.oneField : BodyMultipart where
  boundaryName := "B".toList
  entries := [.ofBody "a".toList "1".toList]

theorem BodyMultipart.isFormInput_oneField : IsFormInput oneField where
  some_body := ⟨_, List.mem_singleton_self _, by decide⟩
  quotable := by
    intro e he
    obtain rfl := List.mem_singleton.mp he
    exact ⟨⟨by decide, by decide, by decide⟩, ⟨by decide, by decide, by decide⟩,
      ⟨by decide, by decide, by decide⟩⟩
  no_delimiter := by
    intro e he body hbody
    obtain rfl := List.mem_singleton.mp he
    obtain rfl : "1".toList = body := Option.some.inj hbody
    decide

theorem BodyMultipart.build_oneField_not_formData :
    ¬ IsFormData oneField.boundaryName (oneField.entries.filter MultipartEntry.hasBody)
      (@build .reference oneField {}).1 :=
  @build_not_formData .reference oneField {} isFormInput_oneField

/-- The body of one plain field: its part is of the type `format-data`, and it is not closed. -/
theorem BodyMultipart.build_oneField :
    IsFormInput oneField ∧
    (@build .reference oneField {}).1 = ("--B\r\nContent-Disposition: format-data; " ++
      "name=\"a\"\r\nContent-Type: text/plain\r\n\r\n1").toList ∧
    ¬ IsFormData oneField.boundaryName oneField.entries (@build .reference oneField {}).1 := by
  refine ⟨isFormInput_oneField, by decide, ?_⟩
  have hquotable := isFormInput_oneField.quotable _ (List.mem_singleton_self _)
  have hpart := @not_isFormData_of_part oneField.boundaryName _ hquotable [] []
  rwa [List.append_nil] at hpart

/-- What `build` writes ends in the last body, perhaps with a line break. -/
theorem BodyMultipart.exists_last_body [Toolbox] (b : BodyMultipart) (request : IoContainer)
    (h : ∃ e ∈ b.entries, e.hasBody = true) :
    ∃ e ∈ b.entries, ∃ body ∈ e.body, ∃ written, crlf ++ body <:+ written ∧
      ((b.build request).1 = written ∨ (b.build request).1 = written ++ crlf) := by
  obtain ⟨e, he, hbody⟩ := h
  have hne : b.entries.filter MultipartEntry.hasBody ≠ [] :=
    List.ne_nil_of_mem (List.mem_filter.mpr ⟨he, hbody⟩)
  obtain ⟨init, last, hbodied⟩ := (List.eq_nil_or_concat' _).resolve_left hne
  have hlast : last ∈ b.entries ∧ last.hasBody = true := by
    rw [← List.mem_filter, hbodied]
    exact List.mem_append_right init (List.mem_singleton_self last)
  obtain ⟨body, hsome⟩ :=
    Option.isSome_iff_exists.mp (MultipartEntry.isSome_body_of_hasBody hlast.2)
  have hend : crlf ++ body <:+ last.part b.boundaryName := by
    rw [MultipartEntry.part_eq, hsome]
    exact (List.suffix_append _ _).trans (List.suffix_append _ _)
  refine ⟨last, hlast.1, body, hsome, crlf.intercalate
    ((b.entries.filter MultipartEntry.hasBody).map fun e => e.part b.boundaryName), ?_, ?_⟩
  · rw [hbodied, List.map_append]
    exact hend.trans (suffix_intercalate_concat crlf _ _)
  · rw [build_eq]
    split
    · exact .inr rfl
    · exact .inl (List.append_nil _)

/-- **Nor does it close what it writes**, when the boundary has no line breaks. -/
theorem BodyMultipart.build_not_closed [Toolbox] (b : BodyMultipart) (request : IoContainer)
    (h : IsFormInput b) (hboundary : '\n' ∉ b.boundaryName) :
    ¬ closeDelimiter b.boundaryName <:+ (b.build request).1 := by
  intro hclosed
  obtain ⟨e, he, body, hbody, written, hend, htext⟩ := exists_last_body b request h.some_body
  have hlf : '\n' ∉ "--".toList ++ b.boundaryName ++ "--".toList := by
    simpa using hboundary
  have hdelimiter : "--".toList ++ b.boundaryName ++ "--".toList <:+ (b.build request).1 := by
    apply List.IsSuffix.trans _ hclosed
    unfold closeDelimiter
    rw [List.append_assoc, List.append_assoc, List.append_assoc]
    exact List.suffix_append _ _
  rcases htext with htext | htext
  · -- no line break stands behind the last body, which would hold the delimiter
    rw [htext] at hdelimiter
    have hbreak : '\n' :: body <:+ written := (List.suffix_cons '\r' _).trans hend
    have hinside := suffix_of_last_delimiter hdelimiter hlf hbreak
    apply h.no_delimiter e he body hbody
    exact (List.prefix_append _ "--".toList).isInfix.trans hinside.isInfix
  · -- the text ends in a line break, not in a hyphen
    rw [htext] at hdelimiter
    have hnothing : '\n' :: [] <:+ written ++ crlf := ⟨written ++ ['\r'], by simp [crlf]⟩
    have hempty := suffix_of_last_delimiter hdelimiter hlf hnothing
    simp at hempty

end Httb
