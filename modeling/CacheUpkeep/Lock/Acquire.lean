import CacheUpkeep.Lock.Wait
import CacheUpkeep.Machine

/-!
# Taking and releasing locks

A lock is taken in two steps: the lock file is opened, and made if it is not
there, and then the file is locked.  Removing the lock file by force leaves the
locks on the removed file as they are.
-/

namespace CacheUpkeep.Lock

variable {ρ ε α : Type}

/-- Opens the lock file and makes it, with the directories above it, if need be. -/
def openLockFile (path : Path) : Action FileSystem LockError Nat := do
  match path.parent? with
  | some parent =>
      if parent.isEmpty then pure ()
      else Action.mapError (LockError.io parent) (FileSystem.makeDirectories parent)
  | none => pure ()
  Action.ofOutcome fun fs =>
    match fs.openFile path with
    | .ok (id, _, fs) => (.ok id, fs)
    | .error e => (.error (.io path e), fs)

/--
Takes the lock of an opened file while nobody else takes a step: a lock that is
held stays held.
-/
def takeOpened (path : Path) (wait : LockWait) (file : Nat) :
    Action (Machine ρ) LockError CacheLock :=
  Action.ofOutcome fun m =>
    match m.locks.take? file with
    | some locks => (.ok ⟨path, file⟩, { m with locks })
    | none =>
        match wait with
        | .forever => (.error (.neverReleased path), m)
        | .timeout limit =>
            match waitWithTimeout .steady (nanosPerMilli * limit) (fun _ => .contended) with
            | .acquired _ | .timedOut _ => (.error (.timedOut path limit), m)
            | .failed _ cause => (.error (.io path cause), m)

def acquire (path : Path) (wait : LockWait) : Action (Machine ρ) LockError CacheLock := do
  let file ← Machine.onFiles (openLockFile path)
  takeOpened path wait file

def release (lock : CacheLock) (m : Machine ρ) : Machine ρ :=
  { m with locks := m.locks.release lock.file }

/-- Runs an action under a lock, which is free again however the action ends. -/
def withLock (wrap : LockError → ε) (path : Path) (wait : LockWait)
    (body : Action (Machine ρ) ε α) : Action (Machine ρ) ε α := do
  let lock ← Action.mapError wrap (acquire path wait)
  Action.thenAlways body (release lock)

/-- Removes the lock file; the answer is whether there was one. -/
def forceUnlock (path : Path) : Action FileSystem LockError Bool :=
  Action.ofOutcome fun fs =>
    match fs.unlink path with
    | .ok fs => (.ok true, fs)
    | .error .notFound => (.ok false, fs)
    | .error e => (.error (.io path e), fs)

/-! ## Handing a lock over -/

/-- Whether the lock was free at once, and the lock. -/
structure Handover where
  early : Bool
  lock : CacheLock
deriving DecidableEq, Repr

/--
Takes a lock while `holder` is released after `delay` milliseconds, which
happens in any case.
-/
def acquireAfter (path : Path) (wait : LockWait) (holder : Option CacheLock)
    (delay : Nat) : Action (Machine ρ) LockError Handover :=
  Action.ofOutcome fun m =>
    let released (m : Machine ρ) : Machine ρ :=
      match holder with
      | some lock => release lock m
      | none => m
    match (Machine.onFiles (openLockFile path)).outcome m with
    | (.error e, m) => (.error e, released m)
    | (.ok file, m) =>
        match m.locks.take? file with
        | some locks => (.ok ⟨true, ⟨path, file⟩⟩, released { m with locks })
        | none =>
            let m := released m
            match wait, m.locks.take? file with
            | .forever, some locks => (.ok ⟨false, ⟨path, file⟩⟩, { m with locks })
            | .forever, none => (.error (.neverReleased path), m)
            | .timeout limit, freed =>
                let attempt (k : Nat) : Attempt :=
                  if freed.isSome && nanosPerMilli * delay ≤ PollClock.steady.reading k then .free
                  else .contended
                match waitWithTimeout .steady (nanosPerMilli * limit) attempt, freed with
                | .acquired _, some locks => (.ok ⟨false, ⟨path, file⟩⟩, { m with locks })
                | .failed _ cause, _ => (.error (.io path cause), m)
                | _, _ => (.error (.timedOut path limit), m)

end CacheUpkeep.Lock
