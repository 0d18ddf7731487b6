import CacheUpkeep.FileSystem.Resolve
import CacheUpkeep.Number.Binary64
import CacheUpkeep.Text.Decimal

/-!
# Capacity of volumes

Sizes in binary gigabytes, shares in whole percent, and the table of the
volumes that hold given paths.
-/

namespace CacheUpkeep

open CacheUpkeep.Text CacheUpkeep.Number

structure DiskUsage where
  total : Nat
  used : Nat
  free : Nat
deriving DecidableEq, Repr

namespace Capacity

def gibibyte : Nat := 1024 * 1024 * 1024

/-- Whole binary gigabytes, rounded down. -/
def gibiText (bytes : Nat) : String :=
  numeral (bytes / gibibyte) ++ "Gi"

/--
The share of `size` in `total` in whole percent: the quotient of the two as
binary numbers, times a hundred, each step rounded, and a half to the even side.
-/
def percent (size total : Nat) : Nat :=
  if total = 0 then 0
  else
    let share? := do
      let a ← Binary64.ofNat size
      let b ← Binary64.ofNat total
      let q ← a.div b
      let hundred ← Binary64.ofNat 100
      q.mul hundred
    match share? with
    | some x => x.roundToNat
    | none => 0

def shareText (size total : Nat) : String :=
  gibiText size ++ " (" ++ numeral (percent size total) ++ "%)"

def padEnd (width : Nat) (text : String) : String :=
  text ++ String.ofList (List.replicate (width - text.length) ' ')

def padStart (width : Nat) (text : String) : String :=
  String.ofList (List.replicate (width - text.length) ' ') ++ text

def rowText (path size used free : String) : String :=
  padEnd 10 path ++ " " ++ padStart 6 size ++ " " ++ padStart 12 used ++ " " ++
    padStart 12 free

def header : String :=
  rowText "Path" "Size" "Used" "Free"

def usageRow (path : Path) (usage : DiskUsage) : String :=
  rowText path.text (gibiText usage.total) (shareText usage.used usage.total)
    (shareText usage.free usage.total)

/-- The measured paths of a report. -/
structure Table where
  rows : List (Path × DiskUsage)
deriving DecidableEq, Repr

def Table.text (t : Table) : String :=
  "\n".intercalate (header :: t.rows.map fun (path, usage) => usageRow path usage)

/-- The usage of the volume at a path, or why the path cannot be inspected. -/
def inspect (fs : FileSystem) (volume : DiskUsage) (path : Path) :
    Except IoError DiskUsage :=
  match fs.stat path with
  | .ok _ => .ok volume
  | .error .nulInPath => .error (.other "path contained a null")
  | .error e => .error e

/-- Paths that cannot be inspected are left out. -/
def report (fs : FileSystem) (volume : DiskUsage) (paths : List Path) : Table :=
  ⟨paths.filterMap fun path =>
    match inspect fs volume path with
    | .ok usage => some (path, usage)
    | .error _ => none⟩

end Capacity

end CacheUpkeep
