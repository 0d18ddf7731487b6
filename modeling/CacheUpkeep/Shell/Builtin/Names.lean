import CacheUpkeep.Shell.Builtin.Variables
import CacheUpkeep.Shell.Program
import CacheUpkeep.Shell.Token

/-!
# Names of commands

What a name stands for: an alias, a keyword, a function, a built-in command or a file
in the search path, which the shell keeps track of.
-/

namespace CacheUpkeep.Shell.Builtin

open Sh

/-! ## Aliases -/

def shownAlias (name value : String) : String :=
  name ++ "=" ++ quoted value ++ "\n"

def aliasOne (arg : String) : Sh Nat := do
  match splitAssignment arg with
  | (name, some value) =>
      if name = "" then lookUp arg
      else
        modifyProcess fun p =>
          { p with aliases := (name, value) :: p.aliases.filter fun (n, _) => n ≠ name }
        return 0
  | (name, none) => lookUp name
where
  lookUp (name : String) : Sh Nat := do
    match (← process).aliases.lookup name with
    | some value =>
        put (shownAlias name value)
        return 0
    | none =>
        let _ ← writeTo 2 ("alias: " ++ name ++ " not found\n")
        return 1

def defineAliases (args : List String) : Sh Nat := do
  if args.isEmpty then
    (← process).aliases.reverse.forM fun (name, value) => put (shownAlias name value)
    return 0
  else return (← args.mapM aliasOne).foldr max 0

def unalias (args : List String) : Sh Nat := do
  if startsWithFlag 'a' args then
    modifyProcess fun p => { p with aliases := [] }
    return 0
  else
    let args ← plainArguments args
    let statuses ← args.mapM fun name => do
      if ((← process).aliases.lookup name).isSome then
        modifyProcess fun p => { p with aliases := p.aliases.filter fun (n, _) => n ≠ name }
        return 0
      else
        let _ ← writeTo 2 ("unalias: " ++ name ++ " not found\n")
        return 1
    return statuses.foldr max 0

/-! ## Names of commands -/

/-- What runs for a name, if functions and aliases do not come before it. -/
inductive Kind where
  | special
  | regular
deriving DecidableEq, Repr

def names : List (String × Kind) :=
  [(".", .special), (":", .special), ("[", .regular), ("alias", .regular), ("bg", .regular),
    ("break", .special), ("cd", .regular), ("chdir", .regular), ("command", .regular),
    ("continue", .special), ("echo", .regular), ("eval", .special), ("exec", .special),
    ("exit", .special), ("export", .special), ("false", .regular), ("fg", .regular),
    ("getopts", .regular), ("hash", .regular), ("jobs", .regular), ("kill", .regular),
    ("local", .special), ("printf", .regular), ("pwd", .regular), ("read", .regular),
    ("readonly", .special), ("return", .special), ("set", .special), ("shift", .special),
    ("test", .regular), ("times", .special), ("trap", .special), ("true", .regular),
    ("type", .regular), ("ulimit", .regular), ("umask", .regular), ("unalias", .regular),
    ("unset", .special), ("wait", .regular)]

def isAssigning (name : String) : Bool :=
  name = "alias" || name = "export" || name = "local" || name = "readonly"

def searchPath (p : Process) : String :=
  (p.value? "PATH").getD ""

def findFrom (fs : FileSystem) (name : String) (last : IoError) :
    List (List Char) → Except IoError String
  | [] => .error last
  | dir :: rest =>
      let path := Program.inDirectory dir name
      match fs.stat (Path.ofString (Octets.toText path)) with
      | .ok (_, .file _ _ true) => .ok path
      | .ok _ => findFrom fs name .permissionDenied rest
      | .error .notFound | .error .notDirectory => findFrom fs name last rest
      | .error e => findFrom fs name e rest

def find (fs : FileSystem) (path name : String) : Except IoError String :=
  if Program.hasSlash name then .ok name
  else findFrom fs name .notFound (Program.searchDirectories path)

def startReason : IoError → String
  | .notFound | .notDirectory => "not found"
  | e => e.reason

/-- Finds a command, and notes one of the search path of the shell. -/
def track (path name : String) : Sh (Except IoError String) := do
  let p ← process
  let found := find (← files) path name
  let isNew := !Program.hasSlash name && path = searchPath p && !p.tracked.contains name
  match found with
  | .ok _ =>
      if isNew then modifyProcess fun p => { p with tracked := p.tracked ++ [name] }
  | .error _ => pure ()
  return found

def describe (verbose : Bool) (path name : String) : Sh Nat := do
  let p ← process
  let answer (brief full : String) : Sh Nat := do
    put (if verbose then name ++ full ++ "\n" else brief ++ "\n")
    return 0
  if (Keyword.read? name).isSome then answer name " is a shell keyword"
  else
    match p.aliases.lookup name with
    | some value =>
        if verbose then answer "" (" is an alias for " ++ value)
        else
          put ("alias " ++ shownAlias name value)
          return 0
    | none =>
        if (p.functions.lookup name).isSome then answer name " is a shell function"
        else
          match names.lookup name with
          | some .special => answer name " is a special shell builtin"
          | some .regular => answer name " is a shell builtin"
          | none => describeFile answer
where
  describeFile (answer : String → String → Sh Nat) : Sh Nat := do
    let fs ← files
    let isThere := !Program.hasSlash name || fs.existsAt (Path.ofString (Octets.toText name))
    let p ← process
    let isTracked := p.tracked.contains name && path = searchPath p
    match ← track path name with
    | .ok found =>
        let kind := if isTracked then " is a tracked alias for " else " is "
        if isThere then answer found (kind ++ found)
        else missing
    | .error _ => missing
  missing : Sh Nat := do
    if verbose then put (name ++ ": not found\n")
    return 127

def type (args : List String) : Sh Nat := do
  let path := searchPath (← process)
  let statuses ← args.mapM (describe true path)
  return statuses.foldl (fun status n => status ||| n) 0

/-- The number of parts that a shell keeps its commands in. -/
def commandParts : Nat := 31

def showTracked : Sh Unit := do
  let p ← process
  let fs ← files
  let sorted := p.tracked.mergeSort fun a b =>
    Process.partOf commandParts a ≤ Process.partOf commandParts b
  sorted.forM fun name => do
    match find fs (searchPath p) name with
    | .ok found => put (found ++ "\n")
    | .error _ => pure ()

def hashOne (name : String) : Sh Nat := do
  let p ← process
  if (names.lookup name).isSome || (p.functions.lookup name).isSome then return 0
  else
    match ← track (searchPath p) name with
    | .ok _ => return 0
    | .error e =>
        warn (name ++ ": " ++ startReason e)
        return 1

def hash (args : List String) : Sh Nat := do
  if startsWithFlag 'r' args then
    modifyProcess fun p => { p with tracked := [] }
    return 0
  else
    match ← plainArguments args with
    | [] =>
        showTracked
        return 0
    | args => return (← args.mapM hashOne).foldr max 0

end CacheUpkeep.Shell.Builtin
