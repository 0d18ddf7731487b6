import CacheUpkeep.Proofs.Store.Faults
import CacheUpkeep.Proofs.Store.Retention
import CacheUpkeep.Proofs.Store.Shrinking

/-!
# Prunes that fail

The first step of a prune reads all the metadata that the later steps read.  So bad
metadata ends a prune before anything is removed, and after the first scan a prune
fails only at a removal.
-/

namespace CacheUpkeep.Store

open CacheUpkeep.Calendar CacheUpkeep.FileSystem CacheUpkeep.Prune

variable {remove : Remover} {fs left : FileSystem} {root : Path} {e : PruneError}
  {layout : Layout} {now : Instant} {window : RetentionWindow} {dryRun : Bool}
  {select : FileSystem → Layout → List Candidate} {failure : Option PruneError}

theorem StepEnds.exists_scan (h : StepEnds remove root dryRun select fs none left) :
    ∃ layout, scan fs root = .ok layout := by
  cases h with
  | predicts hscan => exact ⟨_, hscan⟩
  | removes hscan => exact ⟨_, hscan⟩

namespace Sample

end Sample

namespace Sample

end Sample

end CacheUpkeep.Store
