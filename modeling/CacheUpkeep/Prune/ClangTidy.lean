import CacheUpkeep.FileSystem.Resolve
import CacheUpkeep.Prune.Backend

/-!
# Pruning a clang-tidy cache

The tool takes the window in whole weeks only, so the window is rounded up.  It
knows nothing transient and no records, and it has no dry run.
-/

namespace CacheUpkeep.Prune

open CacheUpkeep.Text

structure ClangTidyCache where
  program : String
  dir : Path
deriving DecidableEq, Repr

namespace ClangTidyCache

def indexName : String := "entries.json"

def pruneCommand (c : ClangTidyCache) (window : RetentionWindow) : Command where
  program := c.program
  args := ["prune", numeral window.wholeWeeks]
  env := [("CLANG_TIDY_CACHE_DIR", c.dir.text)]

def backend {σ : Type} (c : ClangTidyCache) (runner : CommandRunner σ) : Backend σ where
  name := "clang-tidy-cache"
  cleanTransient _ := pure Outcome.none
  removeStaleArtifacts window dryRun := do
    let cmd := c.pruneCommand window
    if dryRun then return Outcome.ofCommand cmd.line
    let _ ← Action.mapError PruneError.command (runner.runChecked cmd)
    return Outcome.ofCommand cmd.line
  removeOrphanedRecords _ _ := pure Outcome.none

/-- The number of results in the index of a cache; without an index there are none. -/
def entryCount (dir : Path) (fs : FileSystem) : Except PruneError Nat :=
  let path := dir.child indexName
  match fs.readText path with
  | .error .notFound => .ok 0
  | .error e => .error (.io path e)
  | .ok text =>
      match Json.read text with
      | none => .error (.metadata path (.misfit .malformed))
      | some (.object members) => .ok members.length
      | some (.array items) => .ok items.length
      | some _ => .error (.metadata path .noCollection)

end ClangTidyCache

end CacheUpkeep.Prune
