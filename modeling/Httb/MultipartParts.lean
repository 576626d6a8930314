import Httb.Foundation.WordSplit
import Httb.Multipart

/-!
# Reading a Multipart Body

What `body_multipart::build` writes (`src/body_multipart.cpp`) determines its parts, although
a body may be any bytes: whoever cuts the text at the line breaks that are followed by the
delimiter has the parts, and the lines before the first empty one are their headers.

The reader here is one for the texts of `build`, and refuses everything else. They are no
`multipart/form-data` (`build_not_formData`): the type of a part is `format-data`, and nothing
closes the last one.

## Key Result

- `build_determines_parts`: the reader recovers the parts, so equal bodies have equal parts
-/

namespace Httb

open Httb.Foundation

/-! ## The reader -/

/-- What a part carries. -/
structure PartContents where
  name : Str
  filename : Str
  contentType : Str
  body : Str
  deriving DecidableEq

/-- What the part of an entry carries. -/
def MultipartEntry.contents (e : MultipartEntry) : PartContents where
  name := e.name
  filename := e.filename
  contentType := e.contentType
  body := e.body.getD []

/-- The first header line up to the name. -/
def dispositionStart : Str := "Content-Disposition: format-data; name=\"".toList

/-- What stands between the name and the filename. -/
def filenameStart : Str := "; filename=\"".toList

/-- The second header line up to the type. -/
def contentTypeStart : Str := "Content-Type: ".toList

/-- Read a text up to the quote that closes it. -/
def readQuoted (text : Str) : Option (Str × Str) :=
  if '"' ∈ text then some (cutFirst '"' text) else none

/-- Read the name and the filename off the first header line. -/
def readDisposition (line : Str) : Option (Str × Str) := do
  let (name, rest) ← readQuoted (← line.dropPrefix? dispositionStart)
  if rest.isEmpty then some (name, [])
  else
    let (filename, rest) ← readQuoted (← rest.dropPrefix? filenameStart)
    if rest.isEmpty then some (name, filename) else none

/-- Read the header lines of a part. -/
def readHeaderLines : List Str → Option (Str × Str × Str)
  | [disposition] => do
    let (name, filename) ← readDisposition disposition
    some (name, filename, [])
  | [disposition, type] => do
    let (name, filename) ← readDisposition disposition
    some (name, filename, ← type.dropPrefix? contentTypeStart)
  | _ => none

/-- Read a part that stands behind the delimiter, which a line break ends. -/
def readPart (text : Str) : Option PartContents := do
  let text ← text.dropPrefix? crlf
  let block := readBlock '\r' 1 text.length text
  let (name, filename, contentType) ← readHeaderLines block.1
  some { name, filename, contentType, body := block.2 }

/-- A line break and the delimiter behind it. -/
def delimiter (boundaryName : Str) : Str := crlf ++ ("--".toList ++ boundaryName)

/-- Cut a body at the delimiters, and read the parts. A line break is thought before the first
one. -/
def readParts (boundaryName text : Str) : Option (List PartContents) :=
  match splitWord (delimiter boundaryName) (crlf ++ text) with
  | [] :: parts => parts.mapM readPart
  -- without a delimiter there are no parts
  | pieces => if pieces = [crlf] then some [] else none

/-! ## Reading a part -/

namespace MultipartEntry

theorem headerLines_eq (e : MultipartEntry) :
    e.headerLines =
      (dispositionStart ++ e.name ++ "\"".toList ++
        (if !e.filename.isEmpty then filenameStart ++ e.filename ++ "\"".toList else [])) ::
      (if !e.contentType.isEmpty then [contentTypeStart ++ e.contentType] else []) := rfl

/-- The header lines do not begin as a delimiter does. -/
theorem head?_headerLines (e : MultipartEntry) :
    ∀ line ∈ e.headerLines, line.head? ≠ some '-' := by
  have hstart {s : Str} (t : Str) (hs : s.head? = some 'C') : (s ++ t).head? ≠ some '-' := by
    rw [List.head?_append, hs, Option.some_or]
    decide
  intro line hline
  rcases mem_headerLines hline with rfl | rfl
  · rw [List.append_assoc, List.append_assoc]
    exact hstart _ (by decide)
  · exact hstart _ (by decide)

end MultipartEntry

theorem dropPrefix?_append (start text : Str) : (start ++ text).dropPrefix? start = some text :=
  List.dropPrefix?_append_of_beq text (beq_self_eq_true start)

theorem readQuoted_append {text : Str} (h : '"' ∉ text) (rest : Str) :
    readQuoted (text ++ '"' :: rest) = some (text, rest) := by
  rw [readQuoted, if_pos (by simp), cutFirst_append_cons h]

/-- The quotes around the name and the filename are where the line is cut. -/
theorem readDisposition_headerLine {e : MultipartEntry} (hname : IsQuotable e.name)
    (hfilename : IsQuotable e.filename) :
    readDisposition (dispositionStart ++ e.name ++ "\"".toList ++
        (if !e.filename.isEmpty then filenameStart ++ e.filename ++ "\"".toList else [])) =
      some (e.name, e.filename) := by
  have hquote (text rest : Str) : text ++ "\"".toList ++ rest = text ++ '"' :: rest := by simp
  rw [hquote, List.append_assoc, readDisposition, dropPrefix?_append]
  simp only [Option.bind_eq_bind, Option.bind_some, readQuoted_append hname.no_quote]
  cases hempty : e.filename with
  | nil => rfl
  | cons c filename =>
    have hcut : readQuoted (c :: filename ++ "\"".toList) = some (c :: filename, []) := by
      rw [← hempty]
      exact readQuoted_append hfilename.no_quote []
    have hthere : (!(c :: filename).isEmpty) = true := rfl
    rw [if_pos hthere, List.append_assoc, dropPrefix?_append]
    simp only [Option.bind_some, hcut]
    rfl

/-- The header lines of an entry are read back. -/
theorem readPart_block {e : MultipartEntry}
    (h : IsQuotable e.name ∧ IsQuotable e.filename ∧ IsQuotable e.contentType) :
    readPart (crlf ++ block crlf e.headerLines (e.body.getD [])) = some e.contents := by
  have hlines := fun line hline => (MultipartEntry.isHeaderLine_headerLines h line hline).toIsLine
  have hread : readBlock '\r' 1 (block crlf e.headerLines (e.body.getD [])).length
      (block crlf e.headerLines (e.body.getD [])) = (e.headerLines, e.body.getD []) :=
    readBlock_block hlines (length_lt_block '\r' ['\n'] e.headerLines _) _
  have hdisposition := readDisposition_headerLine h.1 h.2.1
  -- one header line more when there is a type
  have hheaders : readHeaderLines e.headerLines = some (e.name, e.filename, e.contentType) := by
    rw [e.headerLines_eq]
    cases hempty : e.contentType with
    | nil =>
      simp only [List.isEmpty_nil, Bool.not_true, Bool.false_eq_true, if_false]
      rw [readHeaderLines, hdisposition]
      rfl
    | cons c type =>
      simp only [List.isEmpty_cons, Bool.not_false, if_true]
      rw [readHeaderLines, hdisposition, dropPrefix?_append]
      rfl
  rw [readPart, dropPrefix?_append]
  simp only [Option.bind_eq_bind, Option.bind_some, hread, hheaders]
  rfl

/-- All parts are read, if each of them is. -/
theorem mapM_readPart {entries : List MultipartEntry} {text : MultipartEntry → Str}
    (h : ∀ e ∈ entries, readPart (text e) = some e.contents) :
    (entries.map text).mapM readPart = some (entries.map MultipartEntry.contents) := by
  induction entries with
  | nil => rfl
  | cons e entries ih =>
    obtain ⟨he, hrest⟩ := List.forall_mem_cons.mp h
    rw [List.map_cons, List.mapM_cons, he, ih hrest]
    rfl

/-! ## Cutting at the delimiters -/

/-- The delimiter is in a part only if its body holds the boundary. -/
theorem not_delimiter_infix_block {boundaryName : Str} {lines : List Str} {body : Str}
    (hlines : ∀ line ∈ lines, IsHeaderLine line ∧ line.head? ≠ some '-')
    (hbody : ¬ ("--".toList ++ boundaryName) <:+: body) :
    ¬ delimiter boundaryName <:+: crlf ++ block crlf lines body := by
  -- where it occurs, its first letter is that of a line break
  have hstep {rest : Str} (hnot : ¬ ("--".toList ++ boundaryName) <+: rest)
      (h : delimiter boundaryName <:+: crlf ++ rest) : delimiter boundaryName <:+: rest := by
    rcases List.infix_cons_iff.mp h with hhere | hlater
    · exact absurd (List.cons_prefix_cons.mp (List.cons_prefix_cons.mp hhere).2).2 hnot
    · have hline : '\r' ∉ ['\n'] := by decide
      exact infix_of_infix_append hline hlater
  have hdash {c : Char} {rest : Str} (hc : c ≠ '-') :
      ¬ ("--".toList ++ boundaryName) <+: c :: rest := by
    intro hbegins
    exact hc (List.cons_prefix_cons.mp hbegins).1.symm
  induction lines with
  | nil =>
    intro h
    have hempty := hstep (hdash (by decide)) h
    have hinside := hstep (fun hbegins => hbody hbegins.isInfix) hempty
    exact hbody ((List.suffix_append crlf _).isInfix.trans hinside)
  | cons line lines ih =>
    obtain ⟨⟨hline, hhead⟩, hrest⟩ := List.forall_mem_cons.mp hlines
    intro h
    obtain ⟨c, rest, rfl⟩ := List.exists_cons_of_ne_nil hline.ne_nil
    have hc : c ≠ '-' := by simpa using hhead
    rw [block_cons] at h
    exact ih hrest (infix_of_infix_append hline.no_end (hstep (hdash hc) h))

/-- What unique reading asks of the entries of a body. -/
structure Readable (boundaryName : Str) (entries : List MultipartEntry) : Prop where
  boundary : '\r' ∉ boundaryName ∧ '\n' ∉ boundaryName
  bodied : ∀ e ∈ entries, e.hasBody = true
  quotable : ∀ e ∈ entries, IsQuotable e.name ∧ IsQuotable e.filename ∧ IsQuotable e.contentType
  no_delimiter : ∀ e ∈ entries, ¬ ("--".toList ++ boundaryName) <:+: e.body.getD []

/-- Behind a line break the parts stand each behind a delimiter. -/
theorem crlf_append_build [Toolbox] {boundaryName : Str} {entries : List MultipartEntry}
    (hbodied : ∀ e ∈ entries, e.hasBody = true) (hne : entries ≠ []) (request : IoContainer) :
    crlf ++ (BodyMultipart.build ⟨boundaryName, entries⟩ request).1 =
      (entries.map fun e => crlf ++ block crlf e.headerLines (e.body.getD [])).flatMap
        fun text => delimiter boundaryName ++ text := by
  have hall : entries.filter MultipartEntry.hasBody = entries := List.filter_eq_self.mpr hbodied
  have hlast : ¬ (0 < entries.length ∧ entries.length < entries.length) := by omega
  rw [BodyMultipart.build_eq, hall, if_neg hlast, List.append_nil,
    append_intercalate crlf (by simpa using hne), List.flatMap_map, List.flatMap_map]
  congr 1
  funext e
  rw [MultipartEntry.part_eq, delimiter, delimiterLine]
  simp only [List.append_assoc]

/-- **The parts are read back.** -/
theorem readParts_build [Toolbox] {boundaryName : Str} {entries : List MultipartEntry}
    (h : Readable boundaryName entries) (request : IoContainer) :
    readParts boundaryName (BodyMultipart.build ⟨boundaryName, entries⟩ request).1 =
      some (entries.map MultipartEntry.contents) := by
  have hfresh : '\r' ∉ '\n' :: ("--".toList ++ boundaryName) := by
    simpa using h.boundary.1
  have hnothing : ¬ delimiter boundaryName <:+: [] := by simp [delimiter, crlf]
  rw [readParts]
  cases hentries : entries with
  | nil => rfl
  | cons e rest =>
    have hpieces : ∀ text ∈ entries.map fun e =>
        crlf ++ block crlf e.headerLines (e.body.getD []), ¬ delimiter boundaryName <:+: text := by
      intro text htext
      obtain ⟨e, he, rfl⟩ := List.mem_map.mp htext
      exact not_delimiter_infix_block
        (fun line hline => ⟨MultipartEntry.isHeaderLine_headerLines (h.quotable e he) line hline,
          e.head?_headerLines line hline⟩) (h.no_delimiter e he)
    have hsplit := splitWord_flatMap hfresh hnothing hpieces
    rw [List.nil_append] at hsplit
    rw [← hentries, crlf_append_build h.bodied (by simp [hentries])]
    have hcut : splitWord (delimiter boundaryName) ((entries.map fun e =>
        crlf ++ block crlf e.headerLines (e.body.getD [])).flatMap
          fun text => delimiter boundaryName ++ text) =
        [] :: entries.map fun e => crlf ++ block crlf e.headerLines (e.body.getD []) := hsplit
    rw [hcut]
    show (entries.map fun e => crlf ++ block crlf e.headerLines (e.body.getD [])).mapM readPart = _
    rw [mapM_readPart fun e he => readPart_block (h.quotable e he)]

/-- **A multipart body determines its parts.** The reader recovers names, filenames, content
types and bodies in order, and so entry lists with equal bodies are equal in all of these. -/
theorem build_determines_parts [Toolbox] {boundaryName : Str}
    {entries entries' : List MultipartEntry} (h : Readable boundaryName entries)
    (h' : Readable boundaryName entries') (request request' : IoContainer) :
    readParts boundaryName (BodyMultipart.build ⟨boundaryName, entries⟩ request).1 =
        some (entries.map MultipartEntry.contents) ∧
      ((BodyMultipart.build ⟨boundaryName, entries⟩ request).1 =
          (BodyMultipart.build ⟨boundaryName, entries'⟩ request').1 →
        entries.map MultipartEntry.contents = entries'.map MultipartEntry.contents) := by
  refine ⟨readParts_build h request, ?_⟩
  intro heq
  apply Option.some.inj
  rw [← readParts_build h request, heq, readParts_build h' request']

/-- A field whose body has a blank line and ends in a line break, and a file. -/
def oddParts : List MultipartEntry :=
  [.ofBody "a".toList "1\r\n\r\n2\r\n".toList,
    .ofFileBody "f".toList "x.txt".toList [] "-".toList]

theorem readable_oddParts : Readable "B".toList oddParts where
  boundary := by decide
  bodied := by decide
  quotable := by
    have hquotable (s : Str) (h : '\r' ∉ s ∧ '\n' ∉ s ∧ '"' ∉ s) : IsQuotable s :=
      ⟨h.1, h.2.1, h.2.2⟩
    refine List.forall_mem_cons.mpr ⟨?_, List.forall_mem_singleton.mpr ?_⟩
    · exact ⟨hquotable _ (by decide), hquotable _ (by decide), hquotable _ (by decide)⟩
    · exact ⟨hquotable _ (by decide), hquotable _ (by decide), hquotable _ (by decide)⟩
  no_delimiter := by decide

theorem build_determines_oddParts :
    readParts "B".toList (@BodyMultipart.build .reference ⟨"B".toList, oddParts⟩ {}).1 =
      some (oddParts.map MultipartEntry.contents) :=
  (@build_determines_parts .reference _ _ _ readable_oddParts readable_oddParts {} {}).1

end Httb
