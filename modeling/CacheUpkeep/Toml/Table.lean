import CacheUpkeep.Toml.Value

/-!
# Tables under construction

A table can be defined by its own header, implied by the header of a table below
it, or implied by a dotted key.  Each definition may extend only what the rules
of the format leave open; a refused definition is `none`.
-/

namespace CacheUpkeep.Toml

/--
What a key names: a finished value, a table, or a list of tables whose last one
is open.  A table that no header defines is `implied`, and `dotted` if a dotted
key made it.
-/
inductive Slot where
  | value (v : Value)
  | table (implied dotted : Bool) (slots : List (String × Slot))
  | tables (closed : List (List (String × Slot))) (last : List (String × Slot))
deriving Inhabited

abbrev Slots := List (String × Slot)

namespace Slots

def find? (key : String) (slots : Slots) : Option Slot :=
  List.lookup key slots

def put (key : String) (slot : Slot) : Slots → Slots
  | [] => [(key, slot)]
  | (k, s) :: rest => if k = key then (key, slot) :: rest else (k, s) :: put key slot rest

def remove (key : String) (slots : Slots) : Slots :=
  slots.filter fun (k, _) => k ≠ key

/--
Edits the table at a path.  Missing tables on the way are made; a dotted key may
not enter a table that a header or a value defined.
-/
def editAt (dotted : Bool) (edit : Bool → Slots → Option Slots) :
    List String → Bool → Slots → Option Slots
  | [], isDotted, slots => edit isDotted slots
  | key :: path, _, slots =>
      match find? key slots with
      | none => do
          let inner ← editAt dotted edit path dotted []
          return put key (.table true dotted inner) slots
      | some (.value _) => none
      | some (.tables closed last) => do
          let last ← editAt dotted edit path false last
          return put key (.tables closed last) slots
      | some (.table implied isDotted inner) =>
          if dotted && !implied then none
          else do
            let inner ← editAt dotted edit path isDotted inner
            return put key (.table implied isDotted inner) slots

/-- Adds `path.key = value` to a table; the last table of a dotted key is a dotted one. -/
def addPair (path : List String) (key : String) (value : Value) (slots : Slots) :
    Option Slots :=
  editAt true
    (fun isDotted slots =>
      if isDotted = path.isEmpty then none
      else if (find? key slots).isSome then none
      else some (put key (.value value) slots))
    path false slots

end Slots

mutual

def Slot.toValue : Slot → Value
  | .value v => v
  | .table _ _ slots => .table (slotsToEntries slots)
  | .tables closed last =>
      .array (closedToValues closed ++ [.table (slotsToEntries last)])

def slotsToEntries : List (String × Slot) → Entries
  | [] => []
  | (key, slot) :: rest => (key, slot.toValue) :: slotsToEntries rest

def closedToValues : List (List (String × Slot)) → List Value
  | [] => []
  | slots :: rest => .table (slotsToEntries slots) :: closedToValues rest

end

inductive Statement where
  | pair (path : List String) (key : String) (value : Value)
  | header (path : List String) (key : String)
  | element (path : List String) (key : String)
deriving Repr

inductive Target where
  | root
  | table (path : List String) (key : String)
  | element (path : List String) (key : String)
deriving DecidableEq, Repr

/-- The tables so far, with those of the current header kept apart. -/
structure Draft where
  slots : Slots
  target : Target
  current : Slots

namespace Draft

def empty : Draft :=
  ⟨[], .root, []⟩

def close (d : Draft) : Option Slots :=
  match d.target with
  | .root => some d.current
  | .table path key =>
      Slots.editAt false
        (fun _ slots => some (slots.put key (.table false false d.current)))
        path false d.slots
  | .element path key =>
      Slots.editAt false
        (fun _ slots =>
          match slots.find? key with
          | none => some (slots.put key (.tables [] d.current))
          | some (.tables closed last) =>
              some (slots.put key (.tables (closed ++ [last]) d.current))
          | some _ => none)
        path false d.slots

def tableAt? : List String → Slots → Option Slots
  | [], slots => some slots
  | key :: path, slots =>
      match slots.find? key with
      | none => some []
      | some (.value _) => none
      | some (.tables _ last) => tableAt? path last
      | some (.table _ _ inner) => tableAt? path inner

/-- A header may define a table that only headers below it have implied. -/
def openTable (path : List String) (key : String) (slots : Slots) : Option Draft := do
  let parent ← tableAt? path slots
  match parent.find? key with
  | none => return ⟨slots, .table path key, []⟩
  | some (.table true false inner) =>
      let slots ← Slots.editAt false (fun _ slots => some (slots.remove key)) path false slots
      return ⟨slots, .table path key, inner⟩
  | some _ => none

def openElement (path : List String) (key : String) (slots : Slots) : Option Draft := do
  let parent ← tableAt? path slots
  match parent.find? key with
  | none | some (.tables _ _) => return ⟨slots, .element path key, []⟩
  | some _ => none

def step (d : Draft) : Statement → Option Draft
  | .pair path key value =>
      (d.current.addPair path key value).map fun current => { d with current }
  | .header path key => d.close.bind (openTable path key)
  | .element path key => d.close.bind (openElement path key)

def run (d : Draft) : List Statement → Option Draft
  | [] => some d
  | s :: rest => (d.step s).bind fun d => d.run rest

end Draft

def entriesOf (statements : List Statement) : Option Entries := do
  let d ← Draft.empty.run statements
  let slots ← d.close
  return slotsToEntries slots

end CacheUpkeep.Toml
