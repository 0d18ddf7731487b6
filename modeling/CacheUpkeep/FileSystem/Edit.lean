import CacheUpkeep.Action
import CacheUpkeep.FileSystem.Resolve

/-!
# Changes of a file system

Making, writing and removing files, directories and links.  Each change, the
removal of a tree as well, happens as a whole or not at all, except that
directories made on the way to another one stay.
-/

namespace CacheUpkeep.FileSystem

open CacheUpkeep.Path

/-- The directory of the last step of a path, or why there is none. -/
def parentOf (fs : FileSystem) (p : Path) : Except IoError Location := do
  match ← fs.place true p (p.steps.dropLast ++ [.here]) with
  | .present location _ => return location
  | .absent _ _ => throw .notFound

def makeDirectory (fs : FileSystem) (p : Path) : Except IoError FileSystem := do
  match ← fs.place false p p.steps with
  | .present _ _ => throw .exists
  | .absent dir name => return fs.addEntry (dir ++ [name]) .directory

/-- Makes the first of the paths, and before it those of the others that are missing. -/
def makeChain : List Path → Action FileSystem IoError Unit
  | [] => throw .notFound
  | p :: above =>
      if p.isEmpty then pure ()
      else Action.ofOutcome fun fs =>
        match fs.makeDirectory p with
        | .ok fs => (.ok (), fs)
        | .error .notFound =>
            match (makeChain above).outcome fs with
            | (.error e, fs) => (.error e, fs)
            | (.ok _, fs) => again p fs
        | .error e => (if fs.isDirectory p then .ok () else .error e, fs)
where
  again (p : Path) (fs : FileSystem) : Except IoError Unit × FileSystem :=
    match fs.makeDirectory p with
    | .ok fs => (.ok (), fs)
    | .error e => (if fs.isDirectory p then .ok () else .error e, fs)

/-- Makes a directory and the missing ones above it; an existing one is fine. -/
def makeDirectories (p : Path) : Action FileSystem IoError Unit :=
  makeChain p.ancestors

/-- Opens the file at a path for writing, and makes an empty one if there is none. -/
def openFile (fs : FileSystem) (p : Path) :
    Except IoError (Nat × Location × FileSystem) := do
  if p.endsWithSlash then
    let _ ← fs.parentOf p
    throw .isDirectory
  else
    match ← fs.place true p p.steps with
    | .present location node =>
        match node.number? with
        | some id => return (id, location, fs)
        | none => throw .isDirectory
    | .absent dir name =>
        return (fs.nextFile, dir ++ [name], fs.addFile (dir ++ [name]) ByteArray.empty false)

/-- Replaces the content of the file at a path, or makes it. -/
def writeBytes (fs : FileSystem) (p : Path) (content : ByteArray) :
    Except IoError FileSystem := do
  let (_, location, fs) ← fs.openFile p
  return fs.setContent location content

def writeText (p : Path) (text : String) : Action FileSystem IoError Unit :=
  Action.changing fun fs => fs.writeBytes p text.toUTF8

def makeLink (fs : FileSystem) (p target : Path) : Except IoError FileSystem := do
  if target.isEmpty then throw .notFound
  if isTooLong target then throw .nameTooLong
  match ← fs.place false p p.steps with
  | .present _ _ => throw .exists
  | .absent dir name =>
      if p.endsWithSlash then throw .notFound
      else return fs.addEntry (dir ++ [name]) (.link target)

/-- Removes a file or a link, never a directory. -/
def unlink (fs : FileSystem) (p : Path) : Except IoError FileSystem := do
  match ← fs.place false p p.steps with
  | .present location node =>
      match node with
      | .directory => throw .isDirectory
      | _ => if p.endsWithSlash then throw .notDirectory else return fs.without location
  | .absent _ _ => throw .notFound

/-- Removes a directory with all below it; of a link only the link itself. -/
def removeTree (fs : FileSystem) (p : Path) : Except IoError FileSystem := do
  match ← fs.linkStat p with
  | (location, .directory) => return fs.without location
  | (location, .link _) => return fs.without location
  | (_, .file _ _ _) | (_, .sink _) => throw .notDirectory

end CacheUpkeep.FileSystem
