import CacheUpkeep.FileSystem.Survey
import CacheUpkeep.Prune.Error
import CacheUpkeep.Store.Entry

/-!
# Layout of a store

A store is a directory of entries: artifacts, and records that may hold
artifacts of their own.  A directory without metadata is scratch if it is named
`tmp` in the store or `source` or `build` in a record.  Directories are visited
by name, so the listing order of the file system does not show.
-/

namespace CacheUpkeep.Store

open CacheUpkeep.Calendar

def metadataName : String := ".entry.json"

def scratchName : String := "tmp"

def recordScratchNames : List String := ["source", "build"]

inductive Part where
  | scratch (name : String)
  | artifact (name : String) (lastUsed : Instant)
  | unknown (name : String)
deriving DecidableEq, Repr

structure Artifact where
  id : String
  path : Path
  lastUsed : Instant
deriving DecidableEq, Repr

structure Record where
  id : String
  path : Path
  lastUsed : Instant
  parts : List Part
deriving DecidableEq, Repr

inductive Finding where
  | scratch (name : String) (path : Path)
  | artifact (a : Artifact)
  | record (r : Record)
  | unknown (name : String)
deriving DecidableEq, Repr

structure Layout where
  findings : List Finding
deriving DecidableEq, Repr

/-- The metadata of an entry; a directory without the file has none. -/
def readMeta (fs : FileSystem) (dir : Path) : Except PruneError (Option EntryMeta) :=
  let path := dir.child metadataName
  match fs.readText path with
  | .error .notFound => .ok none
  | .error e => .error (.io path e)
  | .ok text =>
      match EntryMeta.read text with
      | .ok m => .ok (some m)
      | .error e => .error (.metadata path (.misfit e))

/-- The names of the directories in a directory, sorted. -/
def subdirectories (fs : FileSystem) (dir : Path) : Except PruneError (List String) :=
  match fs.list dir with
  | .error e => .error (.io dir e)
  | .ok names =>
      .ok ((names.filter fun name => fs.isDirectory (dir.child name)).mergeSort
        fun a b => a ≤ b)

def scanPart (fs : FileSystem) (record : Path) (name : String) : Except PruneError Part := do
  let path := record.child name
  match ← readMeta fs path with
  | some m =>
      match m.kind with
      | .artifact => return .artifact name m.lastUsed
      | .record => throw (.metadata (path.child metadataName) .nestedRecord)
  | none =>
      if recordScratchNames.contains name then return .scratch name
      else return .unknown name

def scanEntry (fs : FileSystem) (root : Path) (name : String) :
    Except PruneError Finding := do
  let path := root.child name
  match ← readMeta fs path with
  | none => return if name = scratchName then .scratch name path else .unknown name
  | some m =>
      match m.kind with
      | .artifact => return .artifact ⟨name, path, m.lastUsed⟩
      | .record =>
          let names ← subdirectories fs path
          let parts ← names.mapM (scanPart fs path)
          return .record ⟨name, path, m.lastUsed, parts⟩

/-- A root that is no directory is an empty store. -/
def scan (fs : FileSystem) (root : Path) : Except PruneError Layout := do
  if !fs.isDirectory root then return ⟨[]⟩
  let names ← subdirectories fs root
  let findings ← names.mapM (scanEntry fs root)
  return ⟨findings⟩

/-! ## Views -/

namespace Record

def partId (r : Record) (name : String) : String :=
  r.id ++ "/" ++ name

def artifacts (r : Record) : List Artifact :=
  r.parts.filterMap fun part =>
    match part with
    | .artifact name lastUsed => some ⟨r.partId name, r.path.child name, lastUsed⟩
    | _ => none

def scratch (r : Record) : List (String × Path) :=
  r.parts.filterMap fun part =>
    match part with
    | .scratch name => some (r.partId name, r.path.child name)
    | _ => none

/-- The names of the parts that the first two steps of a prune may remove. -/
def ownedNames (r : Record) : List String :=
  r.parts.filterMap fun part =>
    match part with
    | .artifact name _ | .scratch name => some name
    | .unknown _ => none

def hasUnknown (r : Record) : Bool :=
  r.parts.any fun part =>
    match part with
    | .unknown _ => true
    | _ => false

end Record

namespace Layout

/-- Scratch directories in the order of the visit. -/
def transient (layout : Layout) : List (String × Path) :=
  layout.findings.flatMap fun finding =>
    match finding with
    | .scratch name path => [(name, path)]
    | .record r => r.scratch
    | _ => []

def records (layout : Layout) : List Record :=
  layout.findings.filterMap fun finding =>
    match finding with
    | .record r => some r
    | _ => none

def artifacts (layout : Layout) : List Artifact :=
  layout.findings.flatMap fun finding =>
    match finding with
    | .artifact a => [a]
    | .record r => r.artifacts
    | _ => []

end Layout

end CacheUpkeep.Store
