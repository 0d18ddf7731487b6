import CacheUpkeep.Retention

/-!
# Prune reports

What a prune was asked to do and what each of its three steps removed.
-/

namespace CacheUpkeep.Prune

open CacheUpkeep.Text

structure Policy where
  window : RetentionWindow
  dryRun : Bool
deriving DecidableEq, Repr

/--
The identifiers removed, the octets freed and the commands issued.  The octets are counted
without a bound: a real prune of a store without links frees at most those of all files.
-/
structure Outcome where
  removed : List String
  bytes : Nat
  commands : List String
deriving DecidableEq, Repr

namespace Outcome

def none : Outcome :=
  ⟨[], 0, []⟩

def ofCommand (line : String) : Outcome :=
  ⟨[], 0, [line]⟩

end Outcome

structure Report where
  backend : String
  policy : Policy
  transient : Outcome
  artifacts : Outcome
  records : Outcome
deriving DecidableEq, Repr

namespace Report

def removed (r : Report) : List String :=
  r.transient.removed ++ r.artifacts.removed ++ r.records.removed

def bytes (r : Report) : Nat :=
  r.transient.bytes + r.artifacts.bytes + r.records.bytes

def text (r : Report) : String :=
  let verb := if r.policy.dryRun then "would remove" else "removed"
  let count (o : Outcome) : String := numeral o.removed.length
  r.backend ++ ": " ++ verb ++ " " ++ count r.transient ++ " transient, " ++
    count r.artifacts ++ " artifacts, " ++ count r.records ++ " records (" ++
    numeral r.bytes ++ " bytes, retention " ++ r.policy.window.text ++ ")"

end Report

end CacheUpkeep.Prune
