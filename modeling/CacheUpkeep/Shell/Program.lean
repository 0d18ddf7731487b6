import CacheUpkeep.FileSystem.Resolve
import CacheUpkeep.Shell.Octets

/-!
# Programs

What the content of a file starts as: a native program, which carries its name, or
another program that the first line of a script names.  A program is looked up in the
directories of a search path, and each of those who look reads the path its own way.
-/

namespace CacheUpkeep.Shell

/-- A native program about to start, under the name that it is called by. -/
structure Launch where
  native : String
  zero : String
  args : List String
deriving DecidableEq, Repr

namespace Program

def nativeMark : List UInt8 := [0x7f, 0x45, 0x4c, 0x46]

def nativeContent (name : String) : ByteArray :=
  (nativeMark ++ name.toUTF8.toList).toByteArray

def natives : List String :=
  ["[", "basename", "cat", "chmod", "dirname", "echo", "env", "false", "mkdir", "printf",
    "pwd", "rm", "rmdir", "sh", "sleep", "test", "touch", "true"]

def headSize : Nat := 256

def nul : Char := Char.ofNat 0

def isGap (c : Char) : Bool :=
  c = ' ' || c = '\t'

def endsName (c : Char) : Bool :=
  isGap c || c = nul

/-- The part of the head that is the line of a script; a cut name is refused. -/
def scriptLine? (head : List Char) : Option (List Char) :=
  let line := head.takeWhile fun c => c ≠ '\n' && c ≠ nul
  if (head.drop line.length).head? = some '\n' then
    some ((line.reverse.dropWhile isGap).reverse)
  else if ((head.drop 2).dropWhile isGap).any endsName then some (head.dropLast)
  else none

def interpreter? (head : List Char) : Option (String × Option String) := do
  let line := ((← scriptLine? head).drop 2).dropWhile isGap
  let name := line.takeWhile fun c => !endsName c
  if name.isEmpty then none
  else
    let rest := line.drop name.length
    let argument :=
      if rest.head?.any isGap then (rest.dropWhile isGap).takeWhile (· ≠ nul) else []
    return (String.ofList name,
      if argument.isEmpty then none else some (String.ofList argument))

inductive Content where
  | native (name : String)
  | script (interpreter : String) (argument : Option String)
deriving DecidableEq, Repr

def ofContent (content : ByteArray) : Except IoError Content :=
  if nativeMark.isPrefixOf (content.extract 0 nativeMark.length).toList then
    let name := Octets.ofBytes (content.extract nativeMark.length content.size)
    if natives.contains name then .ok (.native name) else .error .execFormat
  else
    let head := (Octets.ofBytes (content.extract 0 headSize)).toList
    let padded := head ++ List.replicate (headSize - head.length) nul
    match head with
    | '#' :: '!' :: _ =>
        match interpreter? padded with
        | some (name, argument) => .ok (.script name argument)
        | none => .error .execFormat
    | _ => .error .execFormat

/-- What the file at a path starts as, or why it does not start. -/
def contentAt (fs : FileSystem) (path : String) : Except IoError Content := do
  match ← fs.stat (Path.ofString (Octets.toText path)) with
  | (_, .file _ content executable) =>
      if executable then ofContent content else throw .permissionDenied
  | _ => throw .permissionDenied

def startLimit : Nat := 6

def launchWithin (fs : FileSystem) : Nat → String → String → List String →
    Except IoError Launch
  | 0, _, _, _ => .error .tooManyLinks
  | fuel + 1, path, zero, args => do
      match ← contentAt fs path with
      | .native name => return ⟨name, zero, args⟩
      | .script interpreter argument =>
          launchWithin fs fuel interpreter interpreter (argument.toList ++ path :: args)

def launch (fs : FileSystem) (path zero : String) (args : List String) :
    Except IoError Launch :=
  launchWithin fs startLimit path zero args

/-! ## Search paths -/

def standardSearchPath : String := "/bin:/usr/bin"

def hasSlash (name : String) : Bool :=
  name.toList.contains '/'

/-- The path of a name in a directory of a search path, which may be empty. -/
def inDirectory (dir : List Char) (name : String) : String :=
  if dir.isEmpty then name else String.ofList dir ++ "/" ++ name

def searchDirectories (path : String) : List (List Char) :=
  Text.splitAtEach ':' path.toList

def isAbsence : IoError → Bool
  | .notFound | .notDirectory | .permissionDenied => true
  | _ => false

/-- Tries directories in turn; a refusal is remembered if nothing is found. -/
def searchLaunch (fs : FileSystem) (name : String) (args : List String) (last : IoError) :
    List (List Char) → Except IoError Launch
  | [] => .error last
  | dir :: rest =>
      match launch fs (inDirectory dir name) name args with
      | .ok l => .ok l
      | .error e =>
          if isAbsence e then
            let last := if last = .permissionDenied || e = .permissionDenied then
              IoError.permissionDenied else e
            searchLaunch fs name args last rest
          else .error e

/-- The start of a command: a name without a slash is looked up in the search path. -/
def start (fs : FileSystem) (path : Option String) (name : String) (args : List String) :
    Except IoError Launch :=
  if name = "" then .error .notFound
  else if hasSlash name then launch fs name name args
  else if FileSystem.nameLimit < name.length then .error .nameTooLong
  else
    let dirs := (searchDirectories (path.getD standardSearchPath)).filter fun dir =>
      dir.length < FileSystem.pathLimit
    searchLaunch fs name args .notFound dirs

def isRunnable (fs : FileSystem) (path : Path) : Bool :=
  match fs.stat path with
  | .ok (_, .file _ _ executable) => executable
  | _ => false

/-- A directory of a search path; a tilde in front of it is the home directory. -/
def searchedDirectory (home : Option String) (dir : String) : Path :=
  let p := Path.ofString dir
  match p.segments, home with
  | "~" :: rest, some home =>
      ((rest.filter fun s => s ≠ "" && s ≠ ".").foldl Path.child (Path.ofString home))
  | _, _ => p

def locate (fs : FileSystem) (vars : List (String × String)) (name : String) : Option Path :=
  let here : Path := ⟨"" :: fs.here⟩
  if hasSlash name then
    let path := here.join (Path.ofString name)
    if isRunnable fs path then some path else none
  else
    let dirs := searchDirectories ((vars.lookup "PATH").getD standardSearchPath)
    let paths := dirs.map fun dir =>
      (searchedDirectory (vars.lookup "HOME") (String.ofList dir)).join (Path.ofString name)
    paths.find? (isRunnable fs)

end Program

end CacheUpkeep.Shell
