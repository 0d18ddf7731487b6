import CacheUpkeep.FileSystem.Resolve
import CacheUpkeep.Text.Utf8

/-!
# Storage of runners

Runners of one group share a Conan storage directory: the name of a runner up to
the mark `-i-`, which comes before the identifier of a machine.  The lock of a
storage directory lies beside it.
-/

namespace CacheUpkeep

open CacheUpkeep.Text

def runnerGroup (runner : String) : String :=
  String.ofList (beforeFirst ['-', 'i', '-'] runner.toList)

/-- The directory that holds one storage directory for each group. -/
structure RunnerStorage where
  root : Path
deriving DecidableEq, Repr

namespace RunnerStorage

def ofBase (base : Path) : RunnerStorage :=
  ⟨base.child "conan2"⟩

def storageFor (s : RunnerStorage) (runner : String) : Path :=
  s.root.join (Path.ofString (runnerGroup runner))

/-- The lock of a storage directory whose name has these octets, UTF-8 or not. -/
def lockName (name : ByteArray) : String :=
  lossyText name ++ ".lock"

def lockFor (s : RunnerStorage) (storage : Path) : Path :=
  s.root.child (lockName (storage.fileName?.getD "").toUTF8)

/-- The existing storage directories by name; without a root there are none. -/
def discover (s : RunnerStorage) (fs : FileSystem) : Except IoError (List Path) :=
  match fs.list s.root with
  | .error .notFound => .ok []
  | .error e => .error e
  | .ok names =>
      let dirs := names.filter fun name => fs.isDirectory (s.root.child name)
      .ok ((dirs.mergeSort fun a b => a ≤ b).map s.root.child)

end RunnerStorage

end CacheUpkeep
