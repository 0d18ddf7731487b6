import CacheUpkeep.Calendar.Timestamp
import CacheUpkeep.FileSystem.Image
import CacheUpkeep.Json.Syntax
import CacheUpkeep.Machine
import CacheUpkeep.Shell.Program

/-!
# Descriptions of machines

A machine in JSON: an object with the members `files` (a list of objects with a
`path` and one of `text`, `link` and `tool`, and perhaps `executable`),
`variables` (an object of texts), `directory` and `now`.  A `tool` names a
native program; an item with a path alone is a directory.
-/

namespace CacheUpkeep.CommandLine

open CacheUpkeep.Calendar

structure Description where
  items : List ImageItem
  vars : List (String × String)
  directory : Path
  now : Instant

namespace Description

def text? (j : Json) (name : String) : Option String :=
  (j.field? name).bind Json.string?

def textPairs (members : Json.Members) : List (String × String) :=
  members.filterMap fun (name, value) => value.string?.map fun text => (name, text)

def content (j : Json) : ImageContent :=
  let executable :=
    match j.field? "executable" with
    | some (.bool b) => b
    | _ => false
  match text? j "text", text? j "link", text? j "tool" with
  | some text, _, _ => .file text.toUTF8 executable
  | none, some target, _ => .link (Path.ofString target)
  | none, none, some name => .file (Shell.Program.nativeContent name) true
  | none, none, none => .directory

def item? (j : Json) : Option ImageItem :=
  (text? j "path").map fun path => ⟨Path.ofString path, content j⟩

def ofJson? (j : Json) : Option Description := do
  let now ← Timestamp.read (← text? j "now")
  let items :=
    match j.field? "files" with
    | some (.array items) => items.filterMap item?
    | _ => []
  let vars :=
    match j.field? "variables" with
    | some (.object members) => textPairs members
    | _ => []
  return ⟨items, vars, Path.ofString ((text? j "directory").getD "/"), now⟩

def read (text : String) : Option Description := do
  ofJson? (← Json.read text)

/-- An empty volume of a hundred binary gigabytes. -/
def volume : DiskUsage :=
  ⟨100 * Capacity.gibibyte, 0, 100 * Capacity.gibibyte⟩

def machine (d : Description) : Machine Unit :=
  let files := FileSystem.empty.makeImage d.items
  ⟨{ files with here := (files.directoryAt? d.directory).getD [] }, .empty, volume, ()⟩

end Description

end CacheUpkeep.CommandLine
