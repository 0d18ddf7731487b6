import CacheUpkeep.Command.Basic
import CacheUpkeep.Json.Misfit
import CacheUpkeep.Lock.Basic

/-!
# Failures of a prune

Every failure ends a prune at once.
-/

namespace CacheUpkeep

/-- What is wrong with metadata that could be read as text. -/
inductive MetadataFault where
  | misfit (m : Json.Misfit)
  | nestedRecord
  | noCollection
deriving DecidableEq, Repr

def MetadataFault.message : MetadataFault → String
  | .misfit m => m.message
  | .nestedRecord => "records cannot be nested"
  | .noCollection => "expected an object or array"

inductive PruneError where
  | command (e : CommandError)
  | lock (e : LockError)
  | remove (path : Path) (cause : IoError)
  | io (path : Path) (cause : IoError)
  | metadata (path : Path) (fault : MetadataFault)
deriving DecidableEq, Repr

def PruneError.message : PruneError → String
  | .command e => e.message
  | .lock e => e.message
  | .remove path cause => "failed to remove " ++ path.text ++ ": " ++ cause.message
  | .io path cause => "failed to read " ++ path.text ++ ": " ++ cause.message
  | .metadata path fault =>
      "invalid cache metadata in " ++ path.text ++ ": " ++ fault.message

end CacheUpkeep
