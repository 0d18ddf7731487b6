import CacheUpkeep.Proofs.Pieces
import CacheUpkeep.Store.Prune

/-!
# A prune in pieces

A prune of a store scans and removes single directories by turns.
-/

namespace CacheUpkeep.Store

open CacheUpkeep.Calendar CacheUpkeep.Prune

def removePiece (remove : Remover) (dryRun : Bool) (c : Candidate) :
    Pieces FileSystem (Except PruneError Unit) :=
  if dryRun then .done (.ok ())
  else .single (Action.mapError (PruneError.remove c.path) (remove c.path))

def removePieces (remove : Remover) (dryRun : Bool) :
    List Candidate → Pieces FileSystem (Except PruneError Outcome)
  | [] => .done (.ok Outcome.none)
  | c :: rest =>
      (removePiece remove dryRun c).andThen fun _ =>
        (removePieces remove dryRun rest).andThen fun o =>
          .done (.ok ⟨c.id :: o.removed, c.bytes + o.bytes, o.commands⟩)

/-- A step: one piece scans, and the others remove what that has selected. -/
def stepPieces (remove : Remover) (root : Path) (dryRun : Bool)
    (select : FileSystem → Layout → List Candidate) :
    Pieces FileSystem (Except PruneError Outcome) :=
  (Pieces.single (Action.reading fun fs => (scan fs root).map (select fs))).andThen
    (removePieces remove dryRun)

def prunePieces (remove : Remover) (root : Path) (now : Instant) (policy : Policy) :
    Pieces FileSystem (Except PruneError Report) :=
  (stepPieces remove root policy.dryRun transientCandidates).andThen fun transient =>
    (stepPieces remove root policy.dryRun fun fs =>
      staleCandidates fs now policy.window).andThen fun artifacts =>
        (stepPieces remove root policy.dryRun fun fs =>
          orphanedCandidates fs now policy.window).andThen fun records =>
            .done (.ok ⟨"local", policy, transient, artifacts, records⟩)

theorem performs_removePieces (remove : Remover) (dryRun : Bool) (candidates : List Candidate) :
    (removePieces remove dryRun candidates).Performs (removeEach remove dryRun candidates) := by
  induction candidates with
  | nil => exact .pure _
  | cons c rest ih =>
      unfold removePieces removePiece removeEach
      cases dryRun with
      | true => exact ih.bind fun o => .pure _
      | false => exact (Pieces.Performs.single _).bind fun _ => ih.bind fun o => .pure _

theorem performs_stepPieces (remove : Remover) (root : Path) (dryRun : Bool)
    (select : FileSystem → Layout → List Candidate) :
    (stepPieces remove root dryRun select).Performs (selectAndRemove remove root dryRun select) :=
  (Pieces.Performs.single _).bind (performs_removePieces remove dryRun)

theorem performs_prunePieces (remove : Remover) (root : Path) (now : Instant) (policy : Policy) :
    (prunePieces remove root now policy).Performs
      (prune (LocalStore.backendWith remove ⟨root, now⟩) policy) :=
  (performs_stepPieces remove root _ _).bind fun _ =>
    (performs_stepPieces remove root _ _).bind fun _ =>
      (performs_stepPieces remove root _ _).bind fun _ => .pure _

end CacheUpkeep.Store
