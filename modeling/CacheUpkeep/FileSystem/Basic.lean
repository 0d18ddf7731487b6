import CacheUpkeep.FileSystem.Error
import CacheUpkeep.Path

/-!
# File systems

A file system is a list of entries, each at a location below the root.  The
order of the list is the order in which directories list their entries.  Every
file has a number of its own for as long as it exists, so that a file made anew
at the same location is another file.

Names are texts, so no name is anything but UTF-8.  Of permissions there is the one to
execute a file; nothing is mounted, and space and open files do not run out.
-/

namespace CacheUpkeep

abbrev Location := List String

/-- Contents are equal if their octets are. -/
local instance contentEq : DecidableEq ByteArray :=
  ByteArray.instDecidableEq

/-- What stands at a location; a sink is always empty and takes all that is written. -/
inductive Node where
  | directory
  | file (id : Nat) (content : ByteArray) (executable : Bool)
  | link (target : Path)
  | sink (id : Nat)
deriving DecidableEq

def Node.number? : Node → Option Nat
  | .file id _ _ | .sink id => some id
  | .directory | .link _ => none

abbrev Entry := Location × Node

structure FileSystem where
  entries : List Entry
  nextFile : Nat
  here : Location

namespace FileSystem

def empty : FileSystem :=
  ⟨[], 0, []⟩

/-- The node at a location, no link followed. -/
def node? (fs : FileSystem) : Location → Option Node
  | [] => some .directory
  | name :: rest => fs.entries.lookup (name :: rest)

def nameIn? : Location → Location → Option String
  | [], [name] => some name
  | d :: dir, x :: location => if d = x then nameIn? dir location else none
  | _, _ => none

/-- The names in a directory, in listing order. -/
def namesIn (fs : FileSystem) (dir : Location) : List String :=
  fs.entries.filterMap fun (location, _) => nameIn? dir location

def isWithin (dir location : Location) : Bool :=
  dir.isPrefixOf location

/-- Everything but the node at a location and what lies below it. -/
def without (fs : FileSystem) (location : Location) : FileSystem :=
  { fs with entries := fs.entries.filter fun e => !isWithin location e.1 }

def addEntry (fs : FileSystem) (location : Location) (node : Node) : FileSystem :=
  { fs with entries := fs.entries ++ [(location, node)] }

def addFile (fs : FileSystem) (location : Location) (content : ByteArray)
    (executable : Bool) : FileSystem :=
  { fs with
    entries := fs.entries ++ [(location, .file fs.nextFile content executable)]
    nextFile := fs.nextFile + 1 }

def addSink (fs : FileSystem) (location : Location) : FileSystem :=
  { fs with
    entries := fs.entries ++ [(location, .sink fs.nextFile)]
    nextFile := fs.nextFile + 1 }

def setContent (fs : FileSystem) (location : Location) (content : ByteArray) :
    FileSystem :=
  { fs with
    entries := fs.entries.map fun e =>
      if e.1 = location then
        match e.2 with
        | .file id _ executable => (e.1, .file id content executable)
        | node => (e.1, node)
      else e }

def setExecutable (fs : FileSystem) (location : Location) (executable : Bool) : FileSystem :=
  { fs with
    entries := fs.entries.map fun e =>
      if e.1 = location then
        match e.2 with
        | .file id content _ => (e.1, .file id content executable)
        | node => (e.1, node)
      else e }

def IsName (name : String) : Prop :=
  name ≠ "" ∧ name ≠ "." ∧ name ≠ ".." ∧ ∀ c ∈ name.toList, c ≠ '/' ∧ c.toNat ≠ 0

instance (name : String) : Decidable (IsName name) :=
  decidable_of_iff (name ≠ "" ∧ name ≠ "." ∧ name ≠ ".." ∧
    (name.toList.all fun c => c ≠ '/' && c.toNat ≠ 0) = true) (by simp [IsName])

/--
Every location once, inside a directory and made of names, and every file number once
and below the next.
-/
structure WellFormed (fs : FileSystem) : Prop where
  locations_nodup : (fs.entries.map Prod.fst).Nodup
  inside : ∀ e ∈ fs.entries, e.1 ≠ [] ∧ fs.node? e.1.dropLast = some .directory
  named : ∀ e ∈ fs.entries, ∀ name ∈ e.1, IsName name
  files_nodup : (fs.entries.filterMap fun e => e.2.number?).Nodup
  files_lt : ∀ e ∈ fs.entries, ∀ id, e.2.number? = some id → id < fs.nextFile

end FileSystem

end CacheUpkeep
