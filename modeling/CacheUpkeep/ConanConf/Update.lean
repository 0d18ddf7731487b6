import CacheUpkeep.ConanConf.Basic
import CacheUpkeep.FileSystem.Edit

/-!
# Updating a Conan configuration file

Reads the file, sets values and writes the file again.  A missing file counts
as empty and is made with the directories above it.
-/

namespace CacheUpkeep

inductive ConanConfError where
  | read (path : Path) (cause : IoError)
  | write (path : Path) (cause : IoError)
deriving DecidableEq, Repr

def ConanConfError.message : ConanConfError → String
  | .read path cause => "failed to read " ++ path.text ++ ": " ++ cause.message
  | .write path cause => "failed to write " ++ path.text ++ ": " ++ cause.message

namespace ConanConf

def readFile (path : Path) (fs : FileSystem) : Except ConanConfError ConanConf :=
  match fs.readText path with
  | .ok text => .ok (read text)
  | .error .notFound => .ok empty
  | .error e => .error (.read path e)

def writeFile (path : Path) (conf : ConanConf) : Action FileSystem ConanConfError Unit :=
  Action.mapError (ConanConfError.write path) do
    match path.parent? with
    | some parent => FileSystem.makeDirectories parent
    | none => pure ()
    FileSystem.writeText path conf.write

def update (path : Path) (values : List (String × String)) :
    Action FileSystem ConanConfError Unit := do
  let conf ← Action.reading (readFile path)
  writeFile path (conf.setAll values)

end ConanConf

end CacheUpkeep
