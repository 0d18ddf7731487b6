import CacheUpkeep.Path

/-!
# Platforms

The operating system families and where each keeps the caches of a machine.
-/

namespace CacheUpkeep

inductive Platform where
  | windows
  | linux
  | macOs
  | other
deriving DecidableEq, Repr

namespace Platform

def name : Platform → String
  | .windows => "windows"
  | .linux => "linux"
  | .macOs => "macos"
  | .other => "other"

def ofName? (name : String) : Option Platform :=
  [windows, linux, macOs, other].find? fun p => p.name = name

def cacheBase (p : Platform) (home : Path) : Path :=
  match p with
  | .windows => Path.ofString "C:\\cache"
  | .linux => Path.ofString "/cache"
  | .macOs | .other => home.child ".cache"

end Platform

end CacheUpkeep
