/-!
# Sets of code points as runs

A set is given by the lengths of its runs: code points outside and inside it in
turn, from zero on.  What lies beyond the last run is outside.
-/

namespace CacheUpkeep.Text

/-- Whether the runs from here on reach `n` inside the set. -/
def inRunsFrom (inside : Bool) : List Nat → Nat → Bool
  | [], _ => false
  | length :: rest, n => if n < length then inside else inRunsFrom (!inside) rest (n - length)

def inRuns (runs : List Nat) (n : Nat) : Bool :=
  inRunsFrom false runs n

end CacheUpkeep.Text
