import CacheUpkeep.Lock.Acquire
import CacheUpkeep.Prune.Error
import CacheUpkeep.Prune.Report

/-!
# Pruning

A backend is one kind of cache with three steps: what is transient goes
unconditionally, then artifacts out of the window, then records that are out of
the window with all of their artifacts.  The first failing step ends a prune.
-/

namespace CacheUpkeep.Prune

/-- The second argument of a step says whether it only predicts. -/
structure Backend (σ : Type) where
  name : String
  cleanTransient : Bool → Action σ PruneError Outcome
  removeStaleArtifacts : RetentionWindow → Bool → Action σ PruneError Outcome
  removeOrphanedRecords : RetentionWindow → Bool → Action σ PruneError Outcome

def Backend.within {σ τ : Type} (part : σ → τ) (put : τ → σ → σ) (b : Backend τ) :
    Backend σ where
  name := b.name
  cleanTransient dryRun := Action.within part put (b.cleanTransient dryRun)
  removeStaleArtifacts window dryRun :=
    Action.within part put (b.removeStaleArtifacts window dryRun)
  removeOrphanedRecords window dryRun :=
    Action.within part put (b.removeOrphanedRecords window dryRun)

inductive StepKind where
  | transient
  | artifacts
  | records
deriving DecidableEq, Repr

def Backend.step {σ : Type} (b : Backend σ) (kind : StepKind) (policy : Policy) :
    Action σ PruneError Outcome :=
  match kind with
  | .transient => b.cleanTransient policy.dryRun
  | .artifacts => b.removeStaleArtifacts policy.window policy.dryRun
  | .records => b.removeOrphanedRecords policy.window policy.dryRun

def prune {σ : Type} (b : Backend σ) (policy : Policy) : Action σ PruneError Report := do
  let transient ← b.cleanTransient policy.dryRun
  let artifacts ← b.removeStaleArtifacts policy.window policy.dryRun
  let records ← b.removeOrphanedRecords policy.window policy.dryRun
  return ⟨b.name, policy, transient, artifacts, records⟩

def pruneLocked {ρ : Type} (b : Backend (Machine ρ)) (policy : Policy) (lock : Path)
    (wait : LockWait) : Action (Machine ρ) PruneError Report :=
  Lock.withLock PruneError.lock lock wait (prune b policy)

end CacheUpkeep.Prune
