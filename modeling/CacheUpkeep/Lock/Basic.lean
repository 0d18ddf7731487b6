import CacheUpkeep.FileSystem.Error
import CacheUpkeep.Path
import CacheUpkeep.Text.Decimal

/-!
# Locks

A lock belongs to a file, not to the path that the file was opened by.  The
table of held locks names the files that are locked; taking and releasing a lock
are steps on that table.
-/

namespace CacheUpkeep

open CacheUpkeep.Text

/-- How long to wait for a lock that another one holds; the timeout is in milliseconds. -/
inductive LockWait where
  | forever
  | timeout (milliseconds : Nat)
deriving DecidableEq, Repr

/-- Zero seconds mean to wait forever. -/
def LockWait.ofSeconds (seconds : Nat) : LockWait :=
  if seconds = 0 then .forever else .timeout (1000 * seconds)

inductive LockError where
  | timedOut (path : Path) (milliseconds : Nat)
  | io (path : Path) (cause : IoError)
  | neverReleased (path : Path)
deriving DecidableEq, Repr

/-- A time in seconds or in milliseconds, without zeros at the end of a fraction. -/
def durationText (milliseconds : Nat) : String :=
  if milliseconds = 0 then "0ns"
  else if milliseconds < 1000 then numeral milliseconds ++ "ms"
  else
    let fraction := (digits (milliseconds % 1000)).leftpad 3 '0'
    let fraction := (fraction.reverse.dropWhile (· = '0')).reverse
    let fraction := if fraction.isEmpty then [] else '.' :: fraction
    numeral (milliseconds / 1000) ++ String.ofList fraction ++ "s"

def LockError.message : LockError → String
  | .timedOut path ms =>
      "timed out after " ++ durationText ms ++ " waiting for lock " ++ path.text
  | .io path cause => "I/O error on lock " ++ path.text ++ ": " ++ cause.message
  | .neverReleased path => "lock " ++ path.text ++ " is never released"

/-- The numbers of the files that are locked. -/
structure LockTable where
  held : List Nat
deriving DecidableEq, Repr

namespace LockTable

def empty : LockTable :=
  ⟨[]⟩

def isHeld (table : LockTable) (file : Nat) : Bool :=
  table.held.contains file

/-- Takes the lock of a file unless it is held. -/
def take? (table : LockTable) (file : Nat) : Option LockTable :=
  if table.isHeld file then none else some ⟨file :: table.held⟩

def release (table : LockTable) (file : Nat) : LockTable :=
  ⟨table.held.erase file⟩

end LockTable

/-- The right to a lock: the path that it was taken by and the file that is locked. -/
structure CacheLock where
  path : Path
  file : Nat
deriving DecidableEq, Repr

end CacheUpkeep
