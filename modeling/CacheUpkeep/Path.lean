import CacheUpkeep.Text.Lines

/-!
# Paths

A path is the list of the texts between its slashes, so that every text is one
path and every path one text.  An empty first segment before another one makes
a path absolute.  Empty segments elsewhere and `.` name no step of their own.
-/

namespace CacheUpkeep

open CacheUpkeep.Text

structure Path where
  segments : List String
deriving DecidableEq, Repr

namespace Path

def ofString (text : String) : Path :=
  ⟨(splitAtEach '/' text.toList).map String.ofList⟩

def text (p : Path) : String :=
  "/".intercalate p.segments

def empty : Path :=
  ⟨[""]⟩

def root : Path :=
  ⟨["", ""]⟩

def isAbsolute (p : Path) : Bool :=
  match p.segments with
  | "" :: _ :: _ => true
  | _ => false

def isEmpty (p : Path) : Bool :=
  p.segments = [""] || p.segments = []

/-- `p` seen from the directory `base`; an absolute path stays as it is. -/
def join (base p : Path) : Path :=
  if p.isAbsolute || base.isEmpty then p
  else if base.segments.getLast? = some "" then ⟨base.segments.dropLast ++ p.segments⟩
  else ⟨base.segments ++ p.segments⟩

/-- The entry of a directory; `name` holds no slash. -/
def child (base : Path) (name : String) : Path :=
  base.join ⟨[name]⟩

/-- The segments without empty ones and `.` at the end; the first segment stays. -/
def trimmed (segments : List String) : List String :=
  match segments with
  | [] => []
  | first :: rest =>
      first :: (rest.reverse.dropWhile fun s => s = "" || s = ".").reverse

/-- The path of the directory that holds the last component. -/
def parent? (p : Path) : Option Path :=
  match trimmed p.segments with
  | [] => none
  | [first] => if first = "" then none else some empty
  | segments =>
      match trimmed segments.dropLast with
      | [""] => some root
      | above => some ⟨above⟩

/-- The last component, unless it leads up or there is none. -/
def fileName? (p : Path) : Option String :=
  match (trimmed p.segments).getLast? with
  | some last => if last = "" || last = "." || last = ".." then none else some last
  | none => none

/-- The path and the directories above it, at most `fuel` of them. -/
def ancestorsWithin : Nat → Path → List Path
  | 0, p => [p]
  | fuel + 1, p =>
      p ::
        match p.parent? with
        | some above => ancestorsWithin fuel above
        | none => []

def ancestors (p : Path) : List Path :=
  ancestorsWithin (p.segments.length + 1) p

/-! ## Steps -/

inductive Step where
  | here
  | up
  | down (name : String)
deriving DecidableEq, Repr

def stepOf (segment : String) : Option Step :=
  if segment = "" then none
  else if segment = "." then some .here
  else if segment = ".." then some .up
  else some (.down segment)

def steps (p : Path) : List Step :=
  p.segments.filterMap stepOf

/-- A slash at the end asks for a directory. -/
def endsWithSlash (p : Path) : Bool :=
  p.segments.getLast? = some "" && !p.isEmpty

/-- A NUL character belongs to no path of a file system. -/
def hasNul (p : Path) : Bool :=
  p.segments.any fun s => s.toList.any fun c => c.toNat = 0

end Path

instance : ToString Path :=
  ⟨Path.text⟩

end CacheUpkeep
