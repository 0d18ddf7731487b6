import CacheUpkeep.FileSystem.Resolve

/-!
# Surveys of directories

The entries below a directory and the number of octets in its files.  Links
below the directory are not followed and count for nothing, and neither do files
whose path is too long to be looked up.
-/

namespace CacheUpkeep.FileSystem

def relative? : Location → Location → Option Location
  | [], location => some location
  | d :: dir, x :: location => if d = x then relative? dir location else none
  | _ :: _, [] => none

/-- The entries strictly below a directory, at locations relative to it. -/
def entriesBelow (fs : FileSystem) (dir : Location) : List Entry :=
  fs.entries.filterMap fun (location, node) =>
    match relative? dir location with
    | some (name :: rest) => some (name :: rest, node)
    | _ => none

def nodeSize : Node → Nat
  | .file _ content _ => content.size
  | _ => 0

/--
The octets of the files below a directory that a path names, except below the
`excluded` names in it.
-/
def sizeBelow (fs : FileSystem) (p : Path) (dir : Location) (excluded : List String) : Nat :=
  (fs.entriesBelow dir).foldr (fun e total => counted e + total) 0
where
  counted : Entry → Nat
    | (name :: rest, node) =>
        if excluded.contains name || isTooLong ((name :: rest).foldl Path.child p) then 0
        else nodeSize node
    | ([], _) => 0

/-- The octets of the files below the directory at a path; nothing if there is none. -/
def treeSize (fs : FileSystem) (p : Path) (excluded : List String) : Nat :=
  match fs.directoryAt? p with
  | some dir => fs.sizeBelow p dir excluded
  | none => 0

end CacheUpkeep.FileSystem
