import CacheUpkeep.Calendar.Timestamp
import CacheUpkeep.Json.Misfit
import CacheUpkeep.Json.Writer

/-!
# Entry metadata

Every entry of a store carries its key, its kind and the time of its last use,
as a JSON object.  Reading also accepts the three values as an array; members
that it does not know are skipped whatever they hold.
-/

namespace CacheUpkeep.Store

open CacheUpkeep.Calendar

inductive EntryKind where
  | record
  | artifact
deriving DecidableEq, Repr

def EntryKind.name : EntryKind → String
  | .record => "record"
  | .artifact => "artifact"

def EntryKind.ofName? (name : String) : Option EntryKind :=
  if name = "record" then some .record
  else if name = "artifact" then some .artifact
  else none

structure EntryMeta where
  key : String
  kind : EntryKind
  lastUsed : Instant
deriving DecidableEq, Repr

namespace EntryMeta

open CacheUpkeep.Json

def toJson (m : EntryMeta) : Json :=
  .object [("key", .string m.key), ("kind", .string m.kind.name),
    ("last_used", .string (Timestamp.write m.lastUsed))]

def write (m : EntryMeta) : String :=
  m.toJson.pretty

/-! ## Reading -/

/-- The misfit of a tree that is not of the wanted type. -/
def misfit (tree : Tree) (wanted : String) : Misfit :=
  match tree.describe with
  | some found => .wrongType found wanted
  | none => .malformed

def keyOf : Tree → Except Misfit String
  | .string (some text) => .ok text
  | tree => .error (misfit tree "a string")

def kindOfName (name : String) : Except Misfit EntryKind :=
  match EntryKind.ofName? name with
  | some kind => .ok kind
  | none => .error (.unknownVariant name "`record` or `artifact`")

/-- A kind is a name, or an object with that name as its one key and null. -/
def kindOf : Tree → Except Misfit EntryKind
  | .string (some name) => kindOfName name
  | .string none => .error .malformed
  | .object ((some name, value) :: rest) => do
      let kind ← kindOfName name
      match value with
      | .null => if rest.isEmpty then return kind else throw .valueWanted
      | value => throw (misfit value "unit")
  | .object ((none, _) :: _) => .error .malformed
  | _ => .error .valueWanted

def lastUsedOf : Tree → Except Misfit Instant
  | .string (some text) =>
      match Timestamp.read text with
      | some t => .ok t
      | none => .error (.refused "invalid timestamp")
  | tree => .error (misfit tree "an RFC 3339 formatted date and time string")

structure Draft where
  key : Option String
  kind : Option EntryKind
  lastUsed : Option Instant

def Draft.member (d : Draft) (name : String) (value : Tree) : Except Misfit Draft :=
  if name = "key" then
    if d.key.isSome then .error (.duplicateField name)
    else (keyOf value).map fun key => { d with key := some key }
  else if name = "kind" then
    if d.kind.isSome then .error (.duplicateField name)
    else (kindOf value).map fun kind => { d with kind := some kind }
  else if name = "last_used" then
    if d.lastUsed.isSome then .error (.duplicateField name)
    else (lastUsedOf value).map fun t => { d with lastUsed := some t }
  else .ok d

def Draft.members (d : Draft) : List (Option String × Tree) → Except Misfit Draft
  | [] => .ok d
  | (none, _) :: _ => .error .malformed
  | (some name, value) :: rest => do
      let d ← d.member name value
      d.members rest

def Draft.finish (d : Draft) : Except Misfit EntryMeta :=
  match d.key, d.kind, d.lastUsed with
  | none, _, _ => .error (.missingField "key")
  | _, none, _ => .error (.missingField "kind")
  | _, _, none => .error (.missingField "last_used")
  | some key, some kind, some lastUsed => .ok ⟨key, kind, lastUsed⟩

def ofItems (items : List Tree) : Except Misfit EntryMeta :=
  let short (n : Nat) : Misfit := .wrongLength n "struct EntryMeta with 3 elements"
  match items with
  | [] => .error (short 0)
  | [key] => do
      let _ ← keyOf key
      throw (short 1)
  | [key, kind] => do
      let _ ← keyOf key
      let _ ← kindOf kind
      throw (short 2)
  | key :: kind :: lastUsed :: rest => do
      let key ← keyOf key
      let kind ← kindOf kind
      let lastUsed ← lastUsedOf lastUsed
      if rest.isEmpty then return ⟨key, kind, lastUsed⟩ else throw .trailing

def ofTree : Tree → Except Misfit EntryMeta
  | .object members => do
      let d ← Draft.members ⟨none, none, none⟩ members
      d.finish
  | .array items => ofItems items
  | tree => .error (misfit tree "struct EntryMeta")

/-- A text that is no JSON value at all is malformed, whatever else is wrong with it. -/
def read (text : String) : Except Misfit EntryMeta :=
  match Tree.read text with
  | none => .error .malformed
  | some tree =>
      match ofTree tree with
      | .ok m => .ok m
      | .error e => .error (if tree.toJson?.isSome then e else .malformed)

end EntryMeta

end CacheUpkeep.Store
