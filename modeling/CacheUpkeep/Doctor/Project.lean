import CacheUpkeep.Doctor.Issue
import CacheUpkeep.FileSystem.Resolve
import CacheUpkeep.Toml.Reader

/-!
# Projects

The file that marks a project lies in a directory or in one above it.  It may
pin the version of the tool.
-/

namespace CacheUpkeep.Doctor

def findProjectFile (fs : FileSystem) (start : Path) : Option Path :=
  (start.ancestors.map fun dir => dir.child projectFileName).find? fs.isFile

/-- The version that a project file pins; a version that is no text is a fault. -/
def pinnedVersion (fs : FileSystem) (path : Path) : Except ProjectFault (Option String) :=
  match fs.readText path with
  | .error e => .error (.io e)
  | .ok text =>
      match Toml.read text with
      | none => .error .toml
      | some entries =>
          match entries.lookup "version" with
          | none => .ok none
          | some (.string version) => .ok (some version)
          | some _ => .error .toml

/-- The version without one `v` before it. -/
def dropMark (version : String) : String :=
  match version.toList with
  | 'v' :: rest => String.ofList rest
  | _ => version

def selfCheck (fs : FileSystem) (start : Path) (running : String) : List Issue :=
  match findProjectFile fs start with
  | none => [.noProject]
  | some path =>
      match pinnedVersion fs path with
      | .error fault => [.projectUnreadable path fault]
      | .ok none => []
      | .ok (some version) =>
          let pinned := dropMark version
          if pinned = running then [] else [.versionMismatch pinned running]

end CacheUpkeep.Doctor
