import Httb.Foundation.OrderedMap
import Httb.Types

/-!
# The Header and Body Container

`httb::io_container` (`src/io_container.cpp`): the vector of headers and the body that
requests and responses share. Every loop over the headers is the loop of the source;
`overwriteAll` and `overwriteFirst` are its two shapes.
-/

namespace Httb

open Httb.Foundation

/-- `httb::io_container`. -/
structure IoContainer where
  headers : KvVector := []
  body : Str := []
  deriving DecidableEq

namespace IoContainer

variable [Toolbox]

/-! ## Writing headers -/

/-- `add_header(kv&&)`: the first header of that name gets the value; a new header keeps
the spelling of its name. -/
def addHeaderMove (c : IoContainer) (kv : Kv) : IoContainer :=
  match overwriteFirst (fun name => equalsIcase name kv.1) kv.2 c.headers with
  | some headers => { c with headers }
  -- `push_back` of the pair as it is
  | none => { c with headers := c.headers ++ [kv] }

/-- `add_header(name, value)`: as `addHeaderMove`, but a new name is stored in lower case. -/
def addHeader (c : IoContainer) (name value : Str) : IoContainer :=
  match overwriteFirst (fun n => equalsIcase n name) value c.headers with
  | some headers => { c with headers }
  -- `emplace_back` with `to_lower_case`
  | none => { c with headers := c.headers ++ [(toLowerCase name, value)] }

/-- `add_header(const kv&)`. -/
def addHeaderCopy (c : IoContainer) (kv : Kv) : IoContainer := c.addHeader kv.1 kv.2

/-- `set_header(kv&&)`: every header of that name gets the value. -/
def setHeader (c : IoContainer) (keyValue : Kv) : IoContainer :=
  let found := c.headers.any fun kv => equalsIcase kv.1 keyValue.1
  -- the loop goes on after a match
  let c' := { c with
    headers := overwriteAll (fun name => equalsIcase name keyValue.1) keyValue.2 c.headers }
  if !found then c'.addHeaderMove keyValue else c'

/-- `add_headers`. -/
def addHeaders (c : IoContainer) (values : KvVector) : IoContainer :=
  values.foldl (fun c pair => c.addHeader pair.1 pair.2) c

/-- `set_headers(const icase_map_t&)`. -/
def setHeadersMap (c : IoContainer) (map : IcaseMap) : IoContainer :=
  map.entries.foldl (fun c h => c.addHeader h.1 h.2) c

/-- `set_headers(const icase_multimap_t&)`. -/
def setHeadersMultimap (c : IoContainer) (mmp : IcaseMultimap) : IoContainer :=
  mmp.entries.foldl (fun c h => c.addHeader h.1 h.2) c

/-- An access to an element of a vector: its index, and the size of the vector then. -/
structure VectorAccess where
  index : ℕ
  size : ℕ
  deriving DecidableEq

/-- The element was there. -/
def VectorAccess.inside (a : VectorAccess) : Bool := decide (a.index < a.size)

/-- What `remove_header` leaves: the headers, its result, and the accesses it made. -/
structure Removal where
  headers : KvVector
  removed : Bool
  accesses : List VectorAccess
  deriving DecidableEq

/-- The range-for of `remove_header`. It goes on for as many positions as the vector had at
the start: `remaining` are left, it stands at `position`, and `i` is the index it erases.
`beyond` is what it finds at a position that the vector does not have any more. -/
def removeHeaderLoop (beyond : ℕ → Kv) (name : Str) (icase : Bool) :
    (remaining position i : ℕ) → KvVector → (removed : Bool) → Removal
  | 0, _, _, headers, removed => ⟨headers, removed, []⟩
  | remaining + 1, position, i, headers, removed =>
      let h := headers.getD position (beyond position)
      let read : VectorAccess := ⟨position, headers.length⟩
      let erase : VectorAccess := ⟨i, headers.length⟩
      if icase && equalsIcase h.1 name then
        let out := removeHeaderLoop beyond name icase remaining (position + 1) (i + 1)
          (headers.eraseIdx i) true
        { out with accesses := read :: erase :: out.accesses }
      else if h.1 == name then
        let out := removeHeaderLoop beyond name icase remaining (position + 1) (i + 1)
          (headers.eraseIdx i) true
        { out with accesses := read :: erase :: out.accesses }
      else
        let out := removeHeaderLoop beyond name icase remaining (position + 1) (i + 1)
          headers removed
        { out with accesses := read :: out.accesses }

/-- `remove_header`. -/
def removeHeader (beyond : ℕ → Kv) (c : IoContainer) (name : Str) (icase : Bool := true) :
    Removal :=
  removeHeaderLoop beyond name icase c.headers.length 0 0 c.headers false

/-- `clear_headers`. -/
def clearHeaders (c : IoContainer) : IoContainer := { c with headers := [] }

/-! ## Reading headers -/

/-- `has_header`. -/
def hasHeader (c : IoContainer) (name : Str) : Bool :=
  c.headers.any fun h => equalsIcase h.1 name

/-- `find_header_pair`. -/
def findHeaderPair (c : IoContainer) (name : Str) : Option Kv :=
  c.headers.find? fun h => equalsIcase h.1 name

/-- `get_header_value`. -/
def getHeaderValue (c : IoContainer) (headerName : Str) : Str :=
  match c.headers.find? fun h => equalsIcase h.1 headerName with
  | some h => h.2
  | none => []

/-- `cmp_header_value`. -/
def cmpHeaderValue (c : IoContainer) (headerName comparable : Str) : Bool :=
  if !c.hasHeader headerName then false else c.getHeaderValue headerName == comparable

/-- `headers_size`. -/
def headersSize (c : IoContainer) : Nat := c.headers.length

/-- `has_headers`. -/
def hasHeaders (c : IoContainer) : Bool := !c.headers.isEmpty

/-- `get_headers`. -/
def getHeaders (c : IoContainer) : KvVector := c.headers

/-- `get_headers_glued`. -/
def getHeadersGlued (c : IoContainer) : List Str :=
  c.headers.map fun h => h.1 ++ ": ".toList ++ h.2

/-! ## The body -/

/-- `io_container::set_body`, both overloads: the Content-Length header follows the body. -/
def setBody (c : IoContainer) (data : Str) : IoContainer :=
  { c with body := data }.setHeader ("Content-Length".toList, decimal data.length)

/-- `io_container::get_body`. -/
def getBody (c : IoContainer) : Str := c.body

/-- `io_container::get_body_size`. -/
def getBodySize (c : IoContainer) : Nat := c.body.length

/-- `io_container::has_body`. -/
def hasBody (c : IoContainer) : Bool := !c.body.isEmpty

/-- `io_container::clear_body`: the body goes, the headers stay as they are. -/
def clearBody (c : IoContainer) : IoContainer := { c with body := [] }

/-! ## What a header write does -/

/-- All header writes but `setHeader` have one shape: overwrite the first header of the
name, or append the pair that the write stores for a new name. -/
theorem headers_addHeaderMove (c : IoContainer) (kv : Kv) :
    (c.addHeaderMove kv).headers =
      (overwriteFirst (fun name => equalsIcase name kv.1) kv.2 c.headers).getD
        (c.headers ++ [kv]) := by
  unfold addHeaderMove
  cases overwriteFirst (fun name => equalsIcase name kv.1) kv.2 c.headers with
  | none => rfl
  | some headers => rfl

theorem headers_addHeader (c : IoContainer) (name value : Str) :
    (c.addHeader name value).headers =
      (overwriteFirst (fun n => equalsIcase n name) value c.headers).getD
        (c.headers ++ [(toLowerCase name, value)]) := by
  unfold addHeader
  cases overwriteFirst (fun n => equalsIcase n name) value c.headers with
  | none => rfl
  | some headers => rfl

@[simp] theorem body_addHeaderMove (c : IoContainer) (kv : Kv) :
    (c.addHeaderMove kv).body = c.body := by
  unfold addHeaderMove
  split <;> rfl

@[simp] theorem body_addHeader (c : IoContainer) (name value : Str) :
    (c.addHeader name value).body = c.body := by
  unfold addHeader
  split <;> rfl

@[simp] theorem body_setHeader (c : IoContainer) (keyValue : Kv) :
    (c.setHeader keyValue).body = c.body := by
  unfold setHeader
  dsimp only
  split <;> simp

theorem body_foldl_addHeader (values : KvVector) (c : IoContainer) :
    (values.foldl (fun c h => c.addHeader h.1 h.2) c).body = c.body := by
  induction values generalizing c with
  | nil => rfl
  | cons h values ih => rw [List.foldl_cons, ih, body_addHeader]

@[simp] theorem body_setBody (c : IoContainer) (data : Str) : (c.setBody data).body = data := by
  rw [setBody, body_setHeader]

/-- When the name is absent, `setHeader` appends the pair. -/
theorem headers_setHeader_of_absent {c : IoContainer} {keyValue : Kv}
    (h : ∀ kv ∈ c.headers, equalsIcase kv.1 keyValue.1 = false) :
    (c.setHeader keyValue).headers = c.headers ++ [keyValue] := by
  have hany : (c.headers.any fun kv => equalsIcase kv.1 keyValue.1) = false := by
    simpa using h
  have hall := overwriteAll_of_none (p := fun name => equalsIcase name keyValue.1)
    keyValue.2 h
  have hnone : overwriteFirst (fun name => equalsIcase name keyValue.1) keyValue.2 c.headers
      = none := overwriteFirst_eq_none_iff.mpr h
  simp [setHeader, hany, hall, headers_addHeaderMove, hnone]

/-- When the name is present, `setHeader` overwrites all of its occurrences. -/
theorem headers_setHeader_of_present {c : IoContainer} {keyValue : Kv} {kv : Kv}
    (hmem : kv ∈ c.headers) (h : equalsIcase kv.1 keyValue.1 = true) :
    (c.setHeader keyValue).headers =
      overwriteAll (fun name => equalsIcase name keyValue.1) keyValue.2 c.headers := by
  have hany : (c.headers.any fun kv => equalsIcase kv.1 keyValue.1) = true :=
    List.any_eq_true.mpr ⟨kv, hmem, h⟩
  simp [setHeader, hany]

/-- **What `setHeader` leaves.** -/
theorem setHeader_cases (c : IoContainer) (keyValue : Kv) :
    ((∃ kv ∈ c.headers, equalsIcase kv.1 keyValue.1 = true) ∧
      (c.setHeader keyValue).headers =
        overwriteAll (fun name => equalsIcase name keyValue.1) keyValue.2 c.headers) ∨
    ((∀ kv ∈ c.headers, equalsIcase kv.1 keyValue.1 = false) ∧
      (c.setHeader keyValue).headers = c.headers ++ [keyValue]) := by
  by_cases hmem : ∃ kv ∈ c.headers, equalsIcase kv.1 keyValue.1 = true
  · obtain ⟨kv, hkv, heq⟩ := hmem
    exact .inl ⟨⟨kv, hkv, heq⟩, headers_setHeader_of_present hkv heq⟩
  · have habsent : ∀ kv ∈ c.headers, equalsIcase kv.1 keyValue.1 = false := fun kv hkv =>
      Bool.eq_false_iff.mpr fun heq => hmem ⟨kv, hkv, heq⟩
    exact .inr ⟨habsent, headers_setHeader_of_absent habsent⟩

end IoContainer

end Httb
