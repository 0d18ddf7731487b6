import CacheUpkeep.FileSystem.Edit

/-!
# Images of file systems

What a file system is to hold, as a list of paths with what stands at them.
-/

namespace CacheUpkeep

inductive ImageContent where
  | directory
  | file (content : ByteArray) (executable : Bool)
  | link (target : Path)

structure ImageItem where
  path : Path
  content : ImageContent

namespace ImageItem

def makeExecutable (p : Path) : Action FileSystem IoError Unit :=
  Action.changing fun fs => do
    let (location, _) ← fs.stat p
    return fs.setExecutable location true

def make (item : ImageItem) : Action FileSystem IoError Unit := do
  match item.path.parent? with
  | some parent => FileSystem.makeDirectories parent
  | none => pure ()
  match item.content with
  | .directory => FileSystem.makeDirectories item.path
  | .link target => Action.changing fun fs => fs.makeLink item.path target
  | .file content executable => do
      Action.changing fun fs => fs.writeBytes item.path content
      if executable then makeExecutable item.path

end ImageItem

namespace FileSystem

/-- Makes items in order; one that cannot be made is left out. -/
def makeImage (fs : FileSystem) (items : List ImageItem) : FileSystem :=
  items.foldl (fun fs item => ((item.make).outcome fs).2) fs

end FileSystem

end CacheUpkeep
