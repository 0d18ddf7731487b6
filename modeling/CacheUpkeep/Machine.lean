import CacheUpkeep.Capacity
import CacheUpkeep.FileSystem.Edit
import CacheUpkeep.Lock.Basic

/-!
# Machines

What operations work on: files, the locks held on them, the capacity of the
volume that holds the files, and the state of a command runner.
-/

namespace CacheUpkeep

structure Machine (ρ : Type) where
  files : FileSystem
  locks : LockTable
  volume : DiskUsage
  runner : ρ

namespace Machine

variable {ρ ε α : Type}

def onFiles (x : Action FileSystem ε α) : Action (Machine ρ) ε α :=
  Action.within Machine.files (fun files m => { m with files }) x

end Machine

end CacheUpkeep
