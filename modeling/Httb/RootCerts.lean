import Httb.Foundation.HashTable
import Httb.Response

/-!
# Root Certificates

`load_root_certs` (`src/utils.h`) looks for certificates in a list of places. Each place is
scanned recursively by `scan_dir`, which fills an unordered map from paths to contents and is cut
off where the file system throws; what it found until then stays. Then the files of the map are
given to the ssl context, in the order of the map, and each sets the error code anew.

## Layers

- `scanDir`: the code, which recurses over directories and writes to the map
- `visits`, `untilFailure`: the walk as a list, cut at the first failure; `scanDir_eq` says that
  this is what the code does
- `rootCerts_loaded`: what the context is given, and what is thrown
-/

namespace Httb

open Httb.Foundation

/-! ## The file system -/

mutual

/-- What a path shows. A file that cannot be read has no content. -/
inductive FsNode where
  | missing
  /-- Asking for the status throws. -/
  | failing
  | file (content : Option Str)
  | directory (entries : FsEntries)
  /-- Neither a file nor a directory. -/
  | other

/-- What iterating over a directory gives. -/
inductive FsEntries where
  | done
  /-- Opening the directory or going on in it throws. -/
  | failed
  | entry (name : Str) (node : FsNode) (rest : FsEntries)

end

/-- The path of an entry. -/
def childPath (path name : Str) : Str := path ++ "/".toList ++ name

section Scanning

variable [Toolbox] {hash : Str → ℕ}

/-- The files that `scan_dir` takes; `extension` is the one of Boost.Filesystem. -/
def isCertFile (extension : Str → Str) (path : Str) : Bool :=
  equalsIcase ".crt".toList (extension path) || equalsIcase ".pem".toList (extension path)

variable (grow : ℕ → ℕ → Option ℕ) (extension : Str → Str)

/-! ## scan_dir -/

mutual

/-- `scan_dir`: the map, and whether the call returns; else it throws. -/
def scanDir (path : Str) : FsNode → HashTable (plainHashing hash) Str →
    HashTable (plainHashing hash) Str × Bool
  | .missing, map => (map, true)
  | .failing, map => (map, false)
  | .file content, map =>
    if isCertFile extension path then
      -- the file is read before the map is written to
      match content with
      | some text => ((map.makeRoom grow path).assign path text, true)
      | none => (map, false)
    else (map, true)
  | .directory entries, map => scanEntries path entries map
  | .other, map => (map, true)

/-- The loop of `scan_dir` over a directory. -/
def scanEntries (path : Str) : FsEntries → HashTable (plainHashing hash) Str →
    HashTable (plainHashing hash) Str × Bool
  | .done, map => (map, true)
  | .failed, map => (map, false)
  | .entry name node rest, map =>
    let out := scanDir (childPath path name) node map
    if out.2 then scanEntries path rest out.1 else out

end

/-! ## The walk -/

mutual

/-- The files of a tree that are read, in the order in which they are come to; `none` is a
failure. -/
def visits (path : Str) : FsNode → List (Option Kv)
  | .missing => []
  | .failing => [none]
  | .file content => if isCertFile extension path then [content.map (path, ·)] else []
  | .directory entries => entryVisits path entries
  | .other => []

/-- The same for the entries of a directory. -/
def entryVisits (path : Str) : FsEntries → List (Option Kv)
  | .done => []
  | .failed => [none]
  | .entry name node rest => visits (childPath path name) node ++ entryVisits path rest

end

/-- What comes before the first failure, and whether there is none. -/
def untilFailure {α : Type*} : List (Option α) → List α × Bool
  | [] => ([], true)
  | none :: _ => ([], false)
  | some a :: rest => (a :: (untilFailure rest).1, (untilFailure rest).2)

omit [Toolbox] in
theorem untilFailure_append {α : Type*} (xs ys : List (Option α)) :
    untilFailure (xs ++ ys) =
      if (untilFailure xs).2 then
        ((untilFailure xs).1 ++ (untilFailure ys).1, (untilFailure ys).2)
      else untilFailure xs := by
  induction xs with
  | nil => rfl
  | cons x xs ih =>
    cases x with
    | none => rfl
    | some a =>
      rw [List.cons_append, untilFailure, ih, untilFailure]
      split <;> rfl

mutual

/-- Scanning is writing down what is visited until the first failure. -/
theorem scanDir_eq (path : Str) : ∀ (node : FsNode) (map : HashTable (plainHashing hash) Str),
    scanDir grow extension path node map =
      (map.assignAll grow (untilFailure (visits extension path node)).1,
        (untilFailure (visits extension path node)).2)
  | .missing, map => by rw [scanDir, visits]; rfl
  | .failing, map => by rw [scanDir, visits]; rfl
  | .file none, map => by
    rw [scanDir, visits]
    split <;> rfl
  | .file (some text), map => by
    rw [scanDir, visits]
    split <;> rfl
  | .directory entries, map => by
    rw [scanDir, visits]
    exact scanEntries_eq path entries map
  | .other, map => by rw [scanDir, visits]; rfl

theorem scanEntries_eq (path : Str) :
    ∀ (entries : FsEntries) (map : HashTable (plainHashing hash) Str),
    scanEntries grow extension path entries map =
      (map.assignAll grow (untilFailure (entryVisits extension path entries)).1,
        (untilFailure (entryVisits extension path entries)).2)
  | .done, map => by rw [scanEntries, entryVisits]; rfl
  | .failed, map => by rw [scanEntries, entryVisits]; rfl
  | .entry name node rest, map => by
    have hfirst := scanDir_eq (childPath path name) node map
    rw [scanEntries, entryVisits, untilFailure_append]
    rw [hfirst]
    dsimp only
    split
    · -- the entry was scanned to its end, and the loop goes on
      rw [scanEntries_eq path rest, HashTable.assignAll_append]
    · rfl

end

end Scanning

/-! ## load_root_certs -/

/-- The places of `load_root_certs`. -/
def certPaths : List Str := [
  "/etc/ssl/certs/ca-certificates.crt".toList,
  "/etc/pki/tls/certs".toList,
  "/etc/pki/tls/certs/ca-bundle.crt".toList,
  "/etc/pki/ca-trust/extracted/pem/tls-ca-bundle.pem".toList,
  "/etc/ssl/ca-bundle.pem".toList,
  "/etc/pki/tls/cacert.pem".toList,
  "/etc/ssl/certs".toList,
  "/etc/ssl/cert.pem".toList,
  "/usr/local/etc/openssl/certs".toList,
  "/usr/local/etc/openssl@1.1/certs".toList,
  "/system/etc/security/cacerts".toList,
  "/usr/local/share/certs".toList,
  "/etc/openssl/certs".toList]

section Loading

variable [Toolbox] (hash : Str → ℕ) (grow : ℕ → ℕ → Option ℕ) (buckets : ℕ)
  (extension : Str → Str) (fs : Str → FsNode)

/-- The map that `load_root_certs` fills. What a place throws is caught, and the map stays as it
is then. -/
def certFiles : HashTable (plainHashing hash) Str :=
  certPaths.foldl (fun map path => (scanDir grow extension path (fs path) map).1)
    (HashTable.empty buckets)

variable {σ : Type*} (addCertificateAuthority : σ → Str → σ × ErrorCode)

/-- `load_root_certs(ctx, ec)`; what adding to the context does is a parameter. -/
def loadRootCerts (ctx : σ) (ec : ErrorCode) : σ × ErrorCode :=
  (certFiles hash grow buckets extension fs).toList.foldl
    (fun out iter => addCertificateAuthority out.1 iter.2) (ctx, ec)

/-- What is thrown for a code. -/
def thrown (ec : ErrorCode) : Option ErrorCode := if ec.failed then some ec else none

/-- `load_root_certs(ctx)`: the context, and the code that is thrown. -/
def loadRootCertsThrowing (ctx : σ) : σ × Option ErrorCode :=
  let out := loadRootCerts hash grow buckets extension fs addCertificateAuthority ctx {}
  (out.1, thrown out.2)

/-! ## What is loaded -/

/-- The files that the scans come to before each of them fails, if it does. -/
def reachedFiles : KvVector :=
  certPaths.flatMap fun path => (untilFailure (visits extension path (fs path))).1

/-- The path was come to, with the content at the last time. -/
def LastReached (path content : Str) : Prop :=
  ∃ before after, reachedFiles extension fs = before ++ (path, content) :: after ∧
    ∀ e ∈ after, e.1 ≠ path

theorem certFiles_eq :
    certFiles hash grow buckets extension fs =
      (HashTable.empty buckets).assignAll grow (reachedFiles extension fs) := by
  rw [certFiles, reachedFiles]
  -- the places in turn, whatever the table holds
  generalize (HashTable.empty buckets : HashTable (plainHashing hash) Str) = map
  induction certPaths generalizing map with
  | nil => rfl
  | cons path paths ih =>
    rw [List.foldl_cons, List.flatMap_cons, HashTable.assignAll_append, scanDir_eq]
    exact ih _

omit [Toolbox] in
/-- The last entry of a key. -/
theorem find?_reverse_eq_some_iff (es : KvVector) (path content : Str) :
    (es.reverse.find? fun e => decide (e.1 = path)).map Prod.snd = some content ↔
      ∃ before after, es = before ++ (path, content) :: after ∧ ∀ e ∈ after, e.1 ≠ path := by
  -- what is first from the end is last
  rw [Option.map_eq_some_iff]
  constructor
  · rintro ⟨⟨path', content'⟩, hfound, rfl⟩
    rw [List.find?_eq_some_iff_append] at hfound
    obtain ⟨hpath, before, after, hes, hbefore⟩ := hfound
    obtain rfl : path' = path := of_decide_eq_true hpath
    refine ⟨after.reverse, before.reverse, ?_, fun e he => ?_⟩
    · rw [← List.reverse_reverse es, hes]
      simp
    · simpa using hbefore e (List.mem_reverse.mp he)
  · rintro ⟨before, after, rfl, hafter⟩
    refine ⟨(path, content), ?_, rfl⟩
    rw [List.find?_eq_some_iff_append]
    refine ⟨decide_eq_true rfl, after.reverse, before.reverse, by simp, fun e he => ?_⟩
    simpa using hafter e (List.mem_reverse.mp he)

/-- The map has the files that were come to, with what was read at the last time. -/
theorem mem_certFiles_iff (path content : Str) :
    (path, content) ∈ (certFiles hash grow buckets extension fs).toList ↔
      LastReached extension fs path content := by
  rw [HashTable.mem_toList_iff, certFiles_eq, HashTable.lookup_assignAll,
    HashTable.lookup_empty, Option.or_none]
  exact find?_reverse_eq_some_iff (reachedFiles extension fs) path content

omit [Toolbox] in
/-- Each certificate that is given to the context sets the code, so the last one decides. -/
theorem foldl_add_eq (certs : KvVector) (ctx : σ) (ec : ErrorCode) :
    (certs.foldl (fun out iter => addCertificateAuthority out.1 iter.2) (ctx, ec)).1 =
        certs.foldl (fun ctx iter => (addCertificateAuthority ctx iter.2).1) ctx ∧
      (certs.foldl (fun out iter => addCertificateAuthority out.1 iter.2) (ctx, ec)).2 =
        match certs.getLast? with
        | some last => (addCertificateAuthority
            (certs.dropLast.foldl (fun ctx iter => (addCertificateAuthority ctx iter.2).1) ctx)
            last.2).2
        | none => ec := by
  induction certs using List.reverseRecOn with
  | nil => exact ⟨rfl, rfl⟩
  | append_singleton certs last ih =>
    -- the last certificate sees the context with all others, and alone sets the code
    rw [List.foldl_append, List.foldl_append, List.getLast?_concat, List.dropLast_concat]
    obtain ⟨hctx, -⟩ := ih
    refine ⟨?_, ?_⟩
    · show (addCertificateAuthority _ _).1 = (addCertificateAuthority _ _).1
      rw [hctx]
    · show (addCertificateAuthority _ _).2 = (addCertificateAuthority _ _).2
      rw [hctx]

/-- **What the context is given.** Each path once, and with it what was read there; these are the
files that the scans come to before they fail, whatever the hash is and however the table grows.
Only their order depends on that, and with it what is thrown: the code of the last one counts. -/
theorem rootCerts_loaded (fs : Str → FsNode) (ctx : σ) :
    let given := (certFiles hash grow buckets extension fs).toList
    (given.map Prod.fst).Nodup ∧
      (∀ path content, (path, content) ∈ given ↔ LastReached extension fs path content) ∧
      (∀ hash' grow' buckets',
        given.Perm (certFiles hash' grow' buckets' extension fs).toList) ∧
      loadRootCertsThrowing hash grow buckets extension fs addCertificateAuthority ctx =
        (given.foldl (fun ctx iter => (addCertificateAuthority ctx iter.2).1) ctx,
          given.getLast?.bind fun last => thrown (addCertificateAuthority
            (given.dropLast.foldl (fun ctx iter => (addCertificateAuthority ctx iter.2).1) ctx)
            last.2).2) := by
  intro given
  have hmem := mem_certFiles_iff hash grow buckets extension fs
  have hnodup : given.Nodup := (HashTable.nodup_keys _).of_map
  refine ⟨HashTable.nodup_keys _, hmem, fun hash' grow' buckets' => ?_, ?_⟩
  · -- the same members, none of them twice
    refine (List.perm_ext_iff_of_nodup hnodup (HashTable.nodup_keys _).of_map).mpr ?_
    rintro ⟨path, content⟩
    rw [hmem, mem_certFiles_iff]
  · obtain ⟨hctx, hec⟩ := foldl_add_eq addCertificateAuthority given ctx {}
    rw [loadRootCertsThrowing, loadRootCerts, hctx, hec]
    cases given.getLast? <;> rfl

end Loading

end Httb
