import CacheUpkeep.ConanConf.Update
import CacheUpkeep.Prune.Error

/-!
# Failures of job maintenance
-/

namespace CacheUpkeep

inductive CiError where
  | missingRunnerName
  | notADirectory (path : Path)
  | discover (path : Path) (cause : IoError)
  | prune (e : PruneError)
  | lock (e : LockError)
  | conf (e : ConanConfError)
deriving DecidableEq, Repr

def CiError.message : CiError → String
  | .missingRunnerName => "RUNNER_NAME is not set; cannot pick a Conan cache directory"
  | .notADirectory path => "cache store " ++ path.text ++ " is not a directory"
  | .discover path cause =>
      "failed to list Conan caches in " ++ path.text ++ ": " ++ cause.message
  | .prune e => e.message
  | .lock e => e.message
  | .conf e => e.message

end CacheUpkeep
