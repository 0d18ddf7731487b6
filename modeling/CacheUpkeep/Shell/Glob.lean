import CacheUpkeep.FileSystem.Resolve
import CacheUpkeep.Shell.Octets
import CacheUpkeep.Shell.Pattern

/-!
# Names of files that match a pattern

Each component of a path is matched on its own.  A name that starts with a dot is
found only by a component that does so too.
-/

namespace CacheUpkeep.Shell.Glob

def closesBracket : Pattern → Bool
  | [] => false
  | p :: rest => if p.char = '/' then false else p.isActive ']' || closesBracket rest

def isActive : Pattern → Bool
  | [] => false
  | p :: rest =>
      p.isActive '*' || p.isActive '?' ||
        (p.isActive '[' && closesBracket (inside rest)) || isActive rest
where
  /-- What follows the first octet of a bracket list. -/
  inside (p : Pattern) : Pattern :=
    match p with
    | q :: rest => if q.isActive '!' then rest.drop 1 else rest
    | [] => []

/-- The components of a path, each but the last with the slash after it. -/
def components : Pattern → List Pattern
  | [] => [[]]
  | p :: rest =>
      match components rest with
      | [] => [[p]]
      | first :: others =>
          if p.char = '/' then [p] :: first :: others else (p :: first) :: others

def withoutSlash (component : Pattern) : Pattern :=
  component.filter fun p => p.char ≠ '/'

def directory (text : List Char) : Path :=
  if text.isEmpty then Path.ofString "."
  else Path.ofString (Octets.toText (String.ofList text))

def namesIn (fs : FileSystem) (before : List Char) (component : Pattern) :
    List (List Char) :=
  match fs.list (directory before) with
  | .error _ => []
  | .ok names =>
      let names := "." :: ".." :: names.map Octets.ofText
      let showsHidden := component.head?.any fun p => p.char = '.'
      (names.map String.toList).filter fun name =>
        (showsHidden || name.head? ≠ some '.') && component.accepts name

def pathsFrom (fs : FileSystem) : List Char → List Pattern → List (List Char)
  | before, [] =>
      match fs.linkStat (directory before) with
      | .ok _ => [before]
      | .error _ => []
  | before, component :: rest =>
      if isActive component then
        let names := namesIn fs before (withoutSlash component)
        if rest.isEmpty then names.map (before ++ ·)
        else names.flatMap fun name => pathsFrom fs (before ++ name ++ ['/']) rest
      else pathsFrom fs (before ++ component.text) rest

/-- The paths that a pattern matches, in order; none if it matches no more than itself. -/
def paths (fs : FileSystem) (p : Pattern) : List String :=
  let p := p.unescaped
  if !isActive p then []
  else
    ((pathsFrom fs [] (components p)).map String.ofList).mergeSort fun a b => a ≤ b

end CacheUpkeep.Shell.Glob
