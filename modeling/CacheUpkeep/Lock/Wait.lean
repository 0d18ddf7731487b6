import CacheUpkeep.Lock.Basic

/-!
# Waiting with a timeout

A waiter tries to take a lock, reads the clock if the lock is held, gives up
once the timeout has passed, and otherwise sleeps and tries again.  Every sleep
moves the clock by the poll interval or more, so the waiting ends.  All times here
are in nanoseconds.
-/

namespace CacheUpkeep.Lock

def nanosPerMilli : Nat := 1000000

def pollInterval : Nat := 50 * nanosPerMilli

/-- What one try to take a lock finds. -/
inductive Attempt where
  | free
  | contended
  | failed (cause : IoError)
deriving DecidableEq, Repr

/-- The time that has passed when the clock is read after each try. -/
structure PollClock where
  reading : Nat → Nat
  advances : ∀ k, reading k + pollInterval ≤ reading (k + 1)

/-- The clock of a waiter that sleeps no longer than it has to. -/
def PollClock.steady : PollClock where
  reading k := pollInterval * k
  advances k := Nat.le_of_eq (Nat.mul_succ pollInterval k).symm

inductive TimedOutcome where
  | acquired (attempts : Nat)
  | failed (attempts : Nat) (cause : IoError)
  | timedOut (attempts : Nat)
deriving DecidableEq, Repr

/-- The outcome of trying from the try numbered `k` on. -/
def waitFrom (clock : PollClock) (timeout : Nat) (attempt : Nat → Attempt) (k : Nat) :
    TimedOutcome :=
  match attempt k with
  | .free => .acquired (k + 1)
  | .failed cause => .failed (k + 1) cause
  | .contended =>
      if timeout ≤ clock.reading k then .timedOut (k + 1)
      else waitFrom clock timeout attempt (k + 1)
termination_by timeout - clock.reading k
decreasing_by
  have := clock.advances k
  simp only [pollInterval, nanosPerMilli] at this
  omega

def waitWithTimeout (clock : PollClock) (timeout : Nat) (attempt : Nat → Attempt) :
    TimedOutcome :=
  waitFrom clock timeout attempt 0

end CacheUpkeep.Lock
