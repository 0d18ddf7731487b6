import CacheUpkeep.Ci.Error
import CacheUpkeep.Config.Context
import CacheUpkeep.Prune.ClangTidy
import CacheUpkeep.Prune.Conan
import CacheUpkeep.Store.Prune

/-!
# Maintenance around jobs

What runs before and after every job of a machine, and the prunes of its caches.
Each cache is pruned under its own lock.
-/

namespace CacheUpkeep.Ci

open CacheUpkeep.Calendar CacheUpkeep.Config CacheUpkeep.Prune

variable {ρ : Type}

def storageKey : String := "core.cache:storage_path"

def storeLockName : String := ".prune.lock"

def policy (ctx : Context) (dryRun : Bool) : Policy :=
  ⟨ctx.retention, dryRun⟩

/--
Points Conan at the storage directory of this runner and answers that directory.
A macOS machine has one runner and keeps its own directory.
-/
def configureStorage (ctx : Context) : Action FileSystem CiError (Option Path) := do
  if ctx.env.platform = .macOs then return none
  match ctx.env.runnerName with
  | none => throw .missingRunnerName
  | some runner =>
      let storage := ctx.storage.storageFor runner
      Action.mapError CiError.conf
        (ConanConf.update ctx.conanConf [(storageKey, storage.text)])
      return some storage

/-- Prunes the storage directories of all runner groups, in order of their names. -/
def pruneStorages (ctx : Context) (runner : CommandRunner (Machine ρ)) (dryRun : Bool) :
    List Path → Action (Machine ρ) CiError (List Report)
  | [] => pure []
  | dir :: rest => do
      let cache : ConanCache := ⟨ctx.settings.tools.conan, some dir⟩
      let report ← Action.mapError CiError.prune
        (pruneLocked (cache.backend runner) (policy ctx dryRun)
          (ctx.storage.lockFor dir) ctx.lockWait)
      let reports ← pruneStorages ctx runner dryRun rest
      return report :: reports

def pruneConanCaches (ctx : Context) (runner : CommandRunner (Machine ρ))
    (dryRun : Bool) : Action (Machine ρ) CiError (List Report) := do
  let dirs ← Action.reading fun m =>
    match ctx.storage.discover m.files with
    | .ok dirs => .ok dirs
    | .error e => .error (.discover ctx.storage.root e)
  pruneStorages ctx runner dryRun dirs

def ctcacheCount (ctx : Context) (fs : FileSystem) : Except CiError Nat :=
  match ClangTidyCache.entryCount ctx.ctcacheDir fs with
  | .ok n => .ok n
  | .error e => .error (.prune e)

def pruneCtcache (ctx : Context) (runner : CommandRunner (Machine ρ)) (dryRun : Bool) :
    Action (Machine ρ) CiError Report :=
  let cache : ClangTidyCache := ⟨ctx.settings.tools.clangTidyCache, ctx.ctcacheDir⟩
  Action.mapError CiError.prune
    (pruneLocked (cache.backend runner) (policy ctx dryRun) ctx.ctcacheLock ctx.lockWait)

/-- Removes the lock file that a killed job left behind. -/
def unlockCtcache (ctx : Context) : Action FileSystem CiError Bool :=
  Action.mapError CiError.lock (Lock.forceUnlock ctx.ctcacheLock)

/-- Prunes the local store in a directory, which must exist. -/
def pruneDirectory (ctx : Context) (root : Path) (now : Instant) (dryRun : Bool) :
    Action (Machine ρ) CiError Report := do
  let isDirectory ← Action.reading fun m => .ok (m.files.isDirectory root)
  if !isDirectory then throw (.notADirectory root)
  let store : Store.LocalStore := ⟨root, now⟩
  let backend := store.backend.within Machine.files fun files m => { m with files }
  Action.mapError CiError.prune
    (pruneLocked backend (policy ctx dryRun) (root.child storeLockName) ctx.lockWait)

def capacityReport (ctx : Context) : Action (Machine ρ) CiError Capacity.Table :=
  Action.reading fun m => .ok (Capacity.report m.files m.volume ctx.reportPaths)

/-- Before every job.  Only Linux machines run clang-tidy. -/
def beforeJob (ctx : Context) (runner : CommandRunner (Machine ρ)) :
    Action (Machine ρ) CiError Capacity.Table := do
  let _ ← Machine.onFiles (configureStorage ctx)
  if ctx.env.platform = .linux then
    let _ ← pruneCtcache ctx runner false
  capacityReport ctx

/-- After every job, also a cancelled one. -/
def afterJob (ctx : Context) : Action (Machine ρ) CiError Capacity.Table := do
  if ctx.env.platform = .linux then
    let _ ← Machine.onFiles (unlockCtcache ctx)
  capacityReport ctx

end CacheUpkeep.Ci
