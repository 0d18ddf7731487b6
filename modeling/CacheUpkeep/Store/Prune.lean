import CacheUpkeep.Prune.Backend
import CacheUpkeep.Store.Layout

/-!
# Pruning a store

Each step scans the store as it then is, selects entries, and removes them one
by one.  A dry run selects the same way and removes nothing.  What removes a
directory is a parameter, since a removal can fail on its way.
-/

namespace CacheUpkeep.Store

open CacheUpkeep.Calendar CacheUpkeep.Prune

/-- A store in a directory, with the instant that ages are counted to. -/
structure LocalStore where
  root : Path
  now : Instant
deriving DecidableEq, Repr

/-- An entry selected for removal, with the octets that it holds. -/
structure Candidate where
  id : String
  path : Path
  bytes : Nat
deriving DecidableEq, Repr

abbrev Remover := Path → Action FileSystem IoError Unit

def removeTree : Remover := fun path =>
  Action.changing fun fs => fs.removeTree path

/-- Removes candidates in order, up to the first failure. -/
def removeEach (remove : Remover) (dryRun : Bool) :
    List Candidate → Action FileSystem PruneError Outcome
  | [] => pure Outcome.none
  | c :: rest => do
      if dryRun then pure () else Action.mapError (PruneError.remove c.path) (remove c.path)
      let o ← removeEach remove dryRun rest
      return ⟨c.id :: o.removed, c.bytes + o.bytes, o.commands⟩

/-- The order of removal: least recently used first, then by identifier. -/
def usedBefore (a b : Artifact) : Bool :=
  a.lastUsed.before b.lastUsed || (!b.lastUsed.before a.lastUsed && a.id ≤ b.id)

def transientCandidates (fs : FileSystem) (layout : Layout) : List Candidate :=
  layout.transient.map fun (id, path) => ⟨id, path, fs.treeSize path []⟩

def staleCandidates (fs : FileSystem) (now : Instant) (window : RetentionWindow)
    (layout : Layout) : List Candidate :=
  let stale := layout.artifacts.filter fun a => window.expired a.lastUsed now
  (stale.mergeSort usedBefore).map fun a => ⟨a.id, a.path, fs.treeSize a.path []⟩

/-- The record and all of its artifacts are out of the window, and nothing in it is unknown. -/
def isOrphaned (now : Instant) (window : RetentionWindow) (r : Record) : Bool :=
  !r.hasUnknown && window.expired r.lastUsed now &&
    r.artifacts.all fun a => window.expired a.lastUsed now

/-- What the earlier steps remove is not counted again. -/
def orphanedCandidates (fs : FileSystem) (now : Instant) (window : RetentionWindow)
    (layout : Layout) : List Candidate :=
  (layout.records.filter (isOrphaned now window)).map fun r =>
    ⟨r.id, r.path, fs.treeSize r.path r.ownedNames⟩

def selectAndRemove (remove : Remover) (root : Path) (dryRun : Bool)
    (select : FileSystem → Layout → List Candidate) :
    Action FileSystem PruneError Outcome := do
  let candidates ← Action.reading fun fs => (scan fs root).map (select fs)
  removeEach remove dryRun candidates

namespace LocalStore

def backendWith (remove : Remover) (store : LocalStore) : Backend FileSystem where
  name := "local"
  cleanTransient dryRun :=
    selectAndRemove remove store.root dryRun transientCandidates
  removeStaleArtifacts window dryRun :=
    selectAndRemove remove store.root dryRun fun fs =>
      staleCandidates fs store.now window
  removeOrphanedRecords window dryRun :=
    selectAndRemove remove store.root dryRun fun fs =>
      orphanedCandidates fs store.now window

def backend (store : LocalStore) : Backend FileSystem :=
  store.backendWith removeTree

/-- Makes or overwrites the entry at a path below the root. -/
def put (root : Path) (key : String) (kind : EntryKind) (lastUsed : Instant) :
    Action FileSystem PruneError Path := do
  let dir := root.join (Path.ofString key)
  let file := dir.child metadataName
  Action.mapError (PruneError.io dir) (FileSystem.makeDirectories dir)
  Action.mapError (PruneError.io file)
    (FileSystem.writeText file (EntryMeta.write ⟨key, kind, lastUsed⟩))
  return dir

end LocalStore

end CacheUpkeep.Store
