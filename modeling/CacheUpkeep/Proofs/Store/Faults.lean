import CacheUpkeep.Proofs.Store.Selection

/-!
# Metadata that can not be read

A scan reads the metadata of the directories in a store and in its records, those
above first and then by name, and fails at the first that is bad.
-/

namespace CacheUpkeep.Store

open CacheUpkeep.Calendar CacheUpkeep.FileSystem

/--
Why the metadata file at a location can not be read by its path.  A path that is too
long can not be looked up, whether the file is there or not.
-/
inductive HasFault (fs : FileSystem) (path : Path) (file : Location) : PruneError → Prop where
  | tooLong (hlong : isTooLong path = true) : HasFault fs path file (.io path .nameTooLong)
  | isDirectory (hshort : isTooLong path = false) (hnode : fs.node? file = some .directory) :
      HasFault fs path file (.io path .isDirectory)
  | notUtf8 {id : Nat} {content : ByteArray} {executable : Bool}
      (hshort : isTooLong path = false)
      (hnode : fs.node? file = some (.file id content executable))
      (htext : String.fromUTF8? content = none) : HasFault fs path file (.io path .notUtf8)
  | misfit {id : Nat} {content : ByteArray} {executable : Bool} {text : String}
      {m : Json.Misfit} (hshort : isTooLong path = false)
      (hnode : fs.node? file = some (.file id content executable))
      (htext : String.fromUTF8? content = some text) (hread : EntryMeta.read text = .error m) :
      HasFault fs path file (.metadata path (.misfit m))
  | sink {id : Nat} (hshort : isTooLong path = false) (hnode : fs.node? file = some (.sink id)) :
      HasFault fs path file (.metadata path (.misfit .malformed))

inductive IsScanned (fs : FileSystem) (root : Path) (store : Location) : Location → Prop where
  | inStore {name : String} (visible : IsVisible fs root store [name]) :
      IsScanned fs root store [name]
  | inRecord {record name : String} {lastUsed : Instant}
      (entry : IsEntry fs .record (store ++ [record]) lastUsed)
      (visible : IsVisible fs root store [record, name]) : IsScanned fs root store [record, name]

/-- A place with bad metadata, or with a record in a record, and the error for it. -/
inductive IsFaulty (fs : FileSystem) (root : Path) (store : Location) :
    Location → PruneError → Prop where
  | metadata {place : Location} {e : PruneError} (scanned : IsScanned fs root store place)
      (fault : HasFault fs ((pathAt root place).child metadataName)
        (store ++ place ++ [metadataName]) e) : IsFaulty fs root store place e
  | nested {record name : String} {outerUsed lastUsed : Instant}
      (outer : IsEntry fs .record (store ++ [record]) outerUsed)
      (visible : IsVisible fs root store [record, name])
      (hshort : isTooLong ((pathAt root [record, name]).child metadataName) = false)
      (inner : IsEntry fs .record (store ++ [record, name]) lastUsed) :
      IsFaulty fs root store [record, name]
        (.metadata ((pathAt root [record, name]).child metadataName) .nestedRecord)

variable {fs : FileSystem} {p root : Path} {dir store place rest : Location}
  {record name : String} {e : PruneError} {layout : Layout}

/-! ## Single faults -/

theorem IsFaulty.eq_single_or_pair (h : IsFaulty fs root store place e) :
    (∃ name, place = [name]) ∨ ∃ record name, place = [record, name] := by
  cases h with
  | metadata scanned fault =>
      cases scanned with
      | inStore visible => exact .inl ⟨_, rfl⟩
      | inRecord entry visible => exact .inr ⟨_, _, rfl⟩
  | nested outer visible hshort inner => exact .inr ⟨_, _, rfl⟩

end CacheUpkeep.Store
