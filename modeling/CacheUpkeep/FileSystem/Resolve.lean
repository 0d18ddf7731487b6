import CacheUpkeep.FileSystem.Basic

/-!
# Path look-up

Walks a path step by step, following links, to the place that it names: a node,
or a name that is free in an existing directory.  At most forty links are
followed on one walk.
-/

namespace CacheUpkeep.FileSystem

open CacheUpkeep.Path

inductive Place where
  | present (location : Location) (node : Node)
  | absent (directory : Location) (name : String)
deriving DecidableEq

def linkLimit : Nat := 40

def nameLimit : Nat := 255

/-- The least number of octets that a path can not have. -/
def pathLimit : Nat := 4096

def isTooLong (p : Path) : Bool :=
  pathLimit ≤ p.text.utf8ByteSize

/-- The steps of a path, with one more for a slash at its end. -/
def lookupSteps (p : Path) : List Step :=
  if p.endsWithSlash then p.steps ++ [.here] else p.steps

def startOf (dir : Location) (p : Path) : Location :=
  if p.isAbsolute then [] else dir

/--
Walks from a directory.  A link at the last step is followed only if `follow`
says so, and `jump` goes on from the directory of a link with the steps after it.
-/
def walkWith (fs : FileSystem) (follow : Bool)
    (jump : Path → Location → List Step → Except IoError Place) (dir : Location) :
    List Step → Except IoError Place
  | [] => .ok (.present dir .directory)
  | .here :: rest => walkWith fs follow jump dir rest
  | .up :: rest => walkWith fs follow jump dir.dropLast rest
  | .down name :: rest =>
      match fs.node? (dir ++ [name]) with
      | none =>
          if nameLimit < name.utf8ByteSize then .error .nameTooLong
          else if rest.isEmpty then .ok (.absent dir name)
          else .error .notFound
      | some .directory => walkWith fs follow jump (dir ++ [name]) rest
      | some (.file id content executable) =>
          if rest.isEmpty then
            .ok (.present (dir ++ [name]) (.file id content executable))
          else .error .notDirectory
      | some (.sink id) =>
          if rest.isEmpty then .ok (.present (dir ++ [name]) (.sink id))
          else .error .notDirectory
      | some (.link target) =>
          if rest.isEmpty && !follow then
            .ok (.present (dir ++ [name]) (.link target))
          else jump target dir rest

/-- Walks from a directory and follows at most `links` links. -/
def walk (fs : FileSystem) (follow : Bool) :
    Nat → Location → List Step → Except IoError Place
  | 0 => walkWith fs follow fun _ _ _ => .error .tooManyLinks
  | links + 1 => walkWith fs follow fun target dir rest =>
      if target.isEmpty then .error .notFound
      else walk fs follow links (startOf dir target) (lookupSteps target ++ rest)

def place (fs : FileSystem) (follow : Bool) (p : Path) (steps : List Step) :
    Except IoError Place :=
  if p.hasNul then .error .nulInPath
  else if p.isEmpty then .error .notFound
  else if isTooLong p then .error .nameTooLong
  else walk fs follow linkLimit (startOf fs.here p) steps

def find (fs : FileSystem) (follow : Bool) (p : Path) :
    Except IoError (Location × Node) := do
  match ← fs.place follow p (lookupSteps p) with
  | .present location node => return (location, node)
  | .absent _ _ => throw .notFound

/-- The node that a path names after all links. -/
def stat (fs : FileSystem) (p : Path) : Except IoError (Location × Node) :=
  fs.find true p

/-- The node that a path names, which may be a link. -/
def linkStat (fs : FileSystem) (p : Path) : Except IoError (Location × Node) :=
  fs.find false p

def directoryAt? (fs : FileSystem) (p : Path) : Option Location :=
  match fs.stat p with
  | .ok (location, .directory) => some location
  | _ => none

def isDirectory (fs : FileSystem) (p : Path) : Bool :=
  (fs.directoryAt? p).isSome

def isFile (fs : FileSystem) (p : Path) : Bool :=
  match fs.stat p with
  | .ok (_, .file _ _ _) => true
  | _ => false

def existsAt (fs : FileSystem) (p : Path) : Bool :=
  match fs.stat p with
  | .ok _ => true
  | .error _ => false

def list (fs : FileSystem) (p : Path) : Except IoError (List String) := do
  match ← fs.stat p with
  | (location, .directory) => return fs.namesIn location
  | _ => throw .notDirectory

def readBytes (fs : FileSystem) (p : Path) : Except IoError ByteArray := do
  match ← fs.stat p with
  | (_, .file _ content _) => return content
  | (_, .sink _) => return ByteArray.empty
  | _ => throw .isDirectory

def readText (fs : FileSystem) (p : Path) : Except IoError String := do
  match String.fromUTF8? (← fs.readBytes p) with
  | some text => return text
  | none => throw .notUtf8

end CacheUpkeep.FileSystem
