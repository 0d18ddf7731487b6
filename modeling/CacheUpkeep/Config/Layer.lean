import CacheUpkeep.Json.Value

/-!
# Configuration layers

Layers are JSON values.  A later layer wins: objects are merged key by key, and
any other value replaces what lies below it.
-/

namespace CacheUpkeep.Config

open CacheUpkeep.Json

mutual

/-- `overlay` over `base`. -/
def merge (base : Json) : Json → Json
  | .object overlay =>
      match base with
      | .object members => .object (mergeMembers members overlay)
      | _ => .object overlay
  | overlay => overlay

def mergeMembers (members : Members) : Members → Members
  | [] => members
  | (key, value) :: rest =>
      let merged :=
        match member? key members with
        | some below => merge below value
        | none => value
      mergeMembers (Json.insert key merged members) rest

end

/-- The layers merged in order, the first one lowest. -/
def mergeLayers (layers : List Json) : Json :=
  layers.foldl merge .null

end CacheUpkeep.Config
