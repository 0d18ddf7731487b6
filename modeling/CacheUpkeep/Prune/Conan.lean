import CacheUpkeep.Prune.Backend
import CacheUpkeep.Text.Utf8

/-!
# Pruning a Conan cache

Conan selects by itself what was not used within a window.  Binaries (`*:*`) go
before recipes (`*`), because a recipe can go only after its binaries.
-/

namespace CacheUpkeep.Prune

/-- A Conan program and the storage directory to aim it at, if not its own. -/
structure ConanCache where
  program : String
  storage : Option Path
deriving DecidableEq, Repr

/-- Aims a command at the storage directory whose path has these octets, UTF-8 or not. -/
def storageOption (path : ByteArray) : String :=
  "--core-conf=core.cache:storage_path=" ++ Text.lossyText path

namespace ConanCache

def command (c : ConanCache) (args : List String) (dryRun : Bool) : Command where
  program := c.program
  args :=
    args ++ (if dryRun then ["--dry-run"] else []) ++
      match c.storage with
      | some path => [storageOption path.text.toUTF8]
      | none => []
  env := []

def cleanCommand (c : ConanCache) : Command :=
  c.command ["cache", "clean", "*"] false

def removeCommand (c : ConanCache) (pattern : String) (window : RetentionWindow)
    (dryRun : Bool) : Command :=
  c.command ["remove", pattern, "-c", "--lru=" ++ window.text] dryRun

def run {σ : Type} (runner : CommandRunner σ) (cmd : Command) :
    Action σ PruneError Outcome := do
  let _ ← Action.mapError PruneError.command (runner.runChecked cmd)
  return Outcome.ofCommand cmd.line

/-- Cleaning has no dry run of its own, so a dry run only names the command. -/
def backend {σ : Type} (c : ConanCache) (runner : CommandRunner σ) : Backend σ where
  name := "conan"
  cleanTransient dryRun :=
    if dryRun then pure (Outcome.ofCommand c.cleanCommand.line)
    else run runner c.cleanCommand
  removeStaleArtifacts window dryRun := run runner (c.removeCommand "*:*" window dryRun)
  removeOrphanedRecords window dryRun := run runner (c.removeCommand "*" window dryRun)

end ConanCache

end CacheUpkeep.Prune
