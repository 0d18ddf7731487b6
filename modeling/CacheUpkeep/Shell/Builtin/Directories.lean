import CacheUpkeep.Shell.Builtin.Basic
import CacheUpkeep.Shell.Program

/-!
# Working directory

The shell keeps a name of its directory, as the user has gone there, beside the place
that it stands for.
-/

namespace CacheUpkeep.Shell.Builtin

open CacheUpkeep.Text Sh

/-! ## Directories -/

/--
The directory that a path names from another one, by its text alone.  Two slashes at
the start stay two.
-/
def textualDirectory (here dest : String) : String :=
  let isAbsolute := dest.toList.head? = some '/'
  let start := if isAbsolute then [] else parts here
  let root := if startsDoubled (if isAbsolute then dest else here) then "//" else "/"
  root ++ "/".intercalate ((parts dest).foldl step start.reverse).reverse
where
  startsDoubled (text : String) : Bool :=
    match text.toList with
    | '/' :: '/' :: rest => rest.head? ≠ some '/'
    | _ => false
  parts (text : String) : List String :=
    ((splitAtEach '/' text.toList).map String.ofList).filter fun s => s ≠ "" && s ≠ "."
  step (above : List String) (part : String) : List String :=
    if part = ".." then above.drop 1 else part :: above

def physicalDirectory : Sh String := do
  return Octets.ofText ("/" ++ "/".intercalate (← files).here)

def directoryAt? (text : String) : Sh (Option Location) := do
  return (← files).directoryAt? (Path.ofString (Octets.toText text))

def goTo (physical : Bool) (dest : String) : Sh Bool := do
  let before := (← process).directory
  let target := if physical then dest else textualDirectory before dest
  match ← directoryAt? target with
  | none => return false
  | some here =>
      modifyFiles fun fs => { fs with here }
      let directory ← if physical then physicalDirectory else pure target
      modifyProcess fun p => { p with directory }
      setWith ⟨true, false⟩ "OLDPWD" (some before)
      setWith ⟨true, false⟩ "PWD" (some directory)
      return true

def isAnchored (dest : String) : Bool :=
  match dest.toList with
  | '/' :: _ => true
  | ['.'] | ['.', '.'] | '.' :: '/' :: _ | '.' :: '.' :: '/' :: _ => true
  | _ => false

def searchedDirectory? (dest : String) : List (List Char) → Sh (Option (String × Bool))
  | [] => return none
  | dir :: rest => do
      let path := Program.inDirectory dir dest
      if (← directoryAt? path).isSome then return some (path, !dir.isEmpty)
      else searchedDirectory? dest rest

def changeDirectory (args : List String) : Sh Nat := do
  let (flags, args) ← flags [('L', false), ('P', false)] args
  let physical := flags.getLast?.map Prod.fst = some 'P'
  let p ← process
  let (dest, shows) :=
    match args with
    | [] => ((p.value? "HOME").getD "", false)
    | "-" :: _ => ((p.value? "OLDPWD").getD "", true)
    | dest :: _ => (dest, false)
  let wanted := if dest = "" then "." else dest
  let found ←
    if isAnchored wanted then pure none
    else searchedDirectory? wanted (Program.searchDirectories ((p.value? "CDPATH").getD ""))
  let (target, shows) :=
    match found with
    | some (path, elsewhere) => (path, shows || elsewhere)
    | none => (wanted, shows)
  if ← goTo physical target then
    if shows then put ((← process).directory ++ "\n")
    return 0
  else fail ("can't cd to " ++ dest)

def printDirectory (args : List String) : Sh Nat := do
  let (flags, _) ← flags [('L', false), ('P', false)] args
  if flags.getLast?.map Prod.fst = some 'P' then put ((← physicalDirectory) ++ "\n")
  else put ((← process).directory ++ "\n")
  return 0

end CacheUpkeep.Shell.Builtin
