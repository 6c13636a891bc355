-- SUMMARY: The disk cache of sandbox input files: lookups, fetches, stores and evictions on one shared directory, file by file.
import CitraFlows.Lib.Processes
import Mathlib.Logic.Function.Basic

/-!
# The file cache of the sandbox

Every lookup of a key reads the metadata of the cached file, asks the bucket for the ETag, and
takes the file if the ETag and the size agree; otherwise it downloads the object, moves the body
into place and then the metadata. The directory is shared by any number of processes, and the
temporary files have one name for each key. A write to a file and a rename are one step each.
-/

namespace CitraFlows

open Processes

namespace FileCache

abbrev Bytes := List UInt8

/-- What a metadata file says; `ts` and `key` are written and never read. -/
structure Meta where
  etag : Option String
  size : Nat
  deriving DecidableEq

/-- What there is of one key: the ETag of its object in the bucket, and the four files. A
metadata file that cannot be parsed is `some none`. -/
structure Entry where
  object : Option String := none
  bin : Option Bytes := none
  binTmp : Option Bytes := none
  metaFile : Option (Option Meta) := none
  metaTmp : Option (Option Meta) := none
  deriving DecidableEq

/-- The bucket and the cache directory, by key. -/
abbrev Store := String → Entry

/-- How a request or a file operation ends. A write that fails may have written a part. -/
inductive Io where
  | done
  | failed (written : Nat)
  deriving DecidableEq

def Io.ok : Io → Bool
  | .done => true
  | .failed _ => false

/-! ## Lookups -/

inductive Result where
  | hit (etag : String) (bytes : Bytes)
  | fetched
  | fallback (bytes : Bytes)
  | raised
  deriving DecidableEq

/-- The next operation of `get_or_download`, with what it has in hand. -/
inductive Stage where
  | readMeta
  | head (cached : Option Meta)
  | compare (cached : Option Meta) (etag : Option String)
  | get (etag : Option String)
  | writeBin (etag : Option String) (content : Bytes)
  | replaceBin (etag : Option String) (content : Bytes)
  | writeMeta (etag : Option String) (size : Nat)
  | replaceMeta (etag : Option String) (size : Nat)
  | writeFallback (content : Bytes)
  | done (result : Result)
  deriving DecidableEq

structure Lookup where
  key : String
  stage : Stage := .readMeta
  deriving DecidableEq

/-- The cached file is the one that the metadata describes, and its ETag is the object's. -/
def hit (e : Entry) (cached : Option Meta) (etag : Option String) : Option (String × Bytes) :=
  match cached, etag, e.bin with
  | some m, some tag, some content =>
      if tag ≠ "" ∧ m.etag = some tag ∧ content.length = m.size then some (tag, content) else none
  | _, _, _ => none

namespace Lookup

def become (p : Lookup) (stage : Stage) : Lookup := { p with stage }

/-- `get_or_download`, one operation on the entry of its key. The ETag of an object determines
its body. -/
def next (body : String → Bytes) (io : Io) (e : Entry) (p : Lookup) : Option (Entry × Lookup) :=
  match p.stage with
  | .readMeta => some (e, p.become (.head (if io.ok then e.metaFile.join else none)))
  | .head cached => some (e, p.become (.compare cached (if io.ok then e.object else none)))
  | .compare cached etag =>
      match hit e cached etag with
      | some (tag, content) => some (e, p.become (.done (.hit tag content)))
      | none => some (e, p.become (.get etag))
  | .get etag =>
      match e.object with
      | some tag =>
          some (e, p.become (if io.ok then .writeBin etag (body tag) else .done .raised))
      | none => some (e, p.become (.done .raised))
  | .writeBin etag content =>
      match io with
      | .done => some ({ e with binTmp := some content }, p.become (.replaceBin etag content))
      | .failed written =>
          some ({ e with binTmp := some (content.take written) },
            p.become (.writeFallback content))
  | .replaceBin etag content =>
      match io, e.binTmp with
      | .done, some moved =>
          some ({ e with bin := some moved, binTmp := none },
            p.become (.writeMeta etag content.length))
      | _, _ => some (e, p.become (.writeFallback content))
  | .writeMeta etag size =>
      match io with
      | .done =>
          some ({ e with metaTmp := some (some ⟨etag, size⟩) }, p.become (.replaceMeta etag size))
      -- `_write_meta` catches the error
      | .failed _ => some ({ e with metaTmp := some none }, p.become (.done .fetched))
  | .replaceMeta _ _ =>
      match io, e.metaTmp with
      | .done, some moved =>
          some ({ e with metaFile := some moved, metaTmp := none }, p.become (.done .fetched))
      | _, _ => some (e, p.become (.done .fetched))
  | .writeFallback content =>
      some (e, p.become (.done (if io.ok then .fallback content else .raised)))
  | .done _ => none

end Lookup

/-! ## Evictions -/

/-- `_evict_if_oversize`, with the keys that it has left to remove: the choice by access time and
size is open. -/
structure Eviction where
  keys : List String
  metaNext : Bool := false
  deriving DecidableEq

namespace Eviction

/-- One removal. The metadata goes after the file, if the file could be removed. -/
def next (io : Io) (e : Entry) (ks : List String) (k : String) (metaNext : Bool) :
    Entry × Eviction :=
  if metaNext then (if io.ok then { e with metaFile := none } else e, ⟨ks, false⟩)
  else if io.ok ∧ e.bin.isSome then ({ e with bin := none }, ⟨k :: ks, true⟩)
  else (e, ⟨ks, false⟩)

end Eviction

/-! ## Runs -/

inductive Process where
  | lookup (p : Lookup)
  | eviction (p : Eviction)
  deriving DecidableEq

inductive Start where
  | lookup (key : String)
  | eviction (keys : List String)

/-- What happens in the bucket: an object is put, with the ETag of its body, or deleted. -/
structure Upload where
  key : String
  etag : Option String

def step (body : String → String → Bytes) (io : Io) (s : Store) : Process → Option (Store × Process)
  | .lookup p =>
      (p.next (body p.key) io (s p.key)).map fun r =>
        (Function.update s p.key r.1, .lookup r.2)
  | .eviction p =>
      match p.keys with
      | k :: ks =>
          let r := Eviction.next io (s k) ks k p.metaNext
          some (Function.update s k r.1, .eviction r.2)
      | [] => none

/-- `body key etag` are the bytes of the version of `key` with that ETag. -/
def system (body : String → String → Bytes) : System Store Process Start Io Upload where
  spawn _ x s :=
    match x with
    | .lookup key => some (s, .lookup { key })
    | .eviction keys => some (s, .eviction { keys })
  step _ io s p := step body io s p
  env u s := some (Function.update s u.key { s u.key with object := u.etag })

abbrev Run := Configuration Store Process

/-- An empty bucket and an empty directory. -/
def Run.start : Run := ⟨fun _ => {}, []⟩

/-- A lookup that hits has the bytes of the version whose ETag it has observed. -/
def Run.HitsRight (body : String → String → Bytes) (c : Run) : Prop :=
  ∀ i p tag content, c.proc i = some (.lookup p) → p.stage = .done (.hit tag content) →
    content = body p.key tag

end FileCache

end CitraFlows
