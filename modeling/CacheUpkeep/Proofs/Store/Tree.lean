import CacheUpkeep.Proofs.FileSystem.Lookup
import CacheUpkeep.Store.Prune

/-!
# What stands in a store

The kinds of directories in a store, read off the file system itself: places are
locations relative to the directory of the store, one name for what lies directly
in it and two for what lies in a record.
-/

namespace CacheUpkeep.Store

open CacheUpkeep.Calendar CacheUpkeep.FileSystem

def HasNoLinks (fs : FileSystem) (dir : Location) : Prop :=
  ∀ place target, fs.node? (dir ++ place) ≠ some (.link target)

/-- The metadata that a directory holds in a file that can be read. -/
def metadataAt? (fs : FileSystem) (dir : Location) : Option EntryMeta :=
  match fs.node? (dir ++ [metadataName]) with
  | some (.file _ content _) =>
      (String.fromUTF8? content).bind fun text => (EntryMeta.read text).toOption
  | _ => none

def IsEntry (fs : FileSystem) (kind : EntryKind) (dir : Location) (lastUsed : Instant) : Prop :=
  fs.node? dir = some .directory ∧ ∃ key, metadataAt? fs dir = some ⟨key, kind, lastUsed⟩

def IsBare (fs : FileSystem) (dir : Location) : Prop :=
  fs.node? dir = some .directory ∧ fs.node? (dir ++ [metadataName]) = none

/-- The directories of a store that count as scratch. -/
inductive IsScratch (fs : FileSystem) (store : Location) : Location → Prop where
  | inStore (bare : IsBare fs (store ++ [scratchName])) : IsScratch fs store [scratchName]
  | inRecord {record name : String} {lastUsed : Instant}
      (entry : IsEntry fs .record (store ++ [record]) lastUsed)
      (scratch : name ∈ recordScratchNames) (bare : IsBare fs (store ++ [record, name])) :
      IsScratch fs store [record, name]

/-- The artifacts of a store, flat ones and those in records. -/
inductive IsArtifact (fs : FileSystem) (store : Location) : Location → Instant → Prop where
  | inStore {name : String} {lastUsed : Instant}
      (entry : IsEntry fs .artifact (store ++ [name]) lastUsed) :
      IsArtifact fs store [name] lastUsed
  | inRecord {record name : String} {recordUsed lastUsed : Instant}
      (entry : IsEntry fs .record (store ++ [record]) recordUsed)
      (part : IsEntry fs .artifact (store ++ [record, name]) lastUsed) :
      IsArtifact fs store [record, name] lastUsed

/-- An artifact at or beyond the window. -/
def IsStale (fs : FileSystem) (store : Location) (now : Instant) (window : RetentionWindow)
    (place : Location) : Prop :=
  ∃ lastUsed, IsArtifact fs store place lastUsed ∧ window.expired lastUsed now = true

/--
A record at or beyond the window, with all of its artifacts, in which no directory
without metadata is anything but scratch.
-/
inductive IsOrphaned (fs : FileSystem) (store : Location) (now : Instant)
    (window : RetentionWindow) : Location → Prop where
  | intro {record : String} {lastUsed : Instant}
      (entry : IsEntry fs .record (store ++ [record]) lastUsed)
      (expired : window.expired lastUsed now = true)
      (artifacts : ∀ name lastUsed, IsEntry fs .artifact (store ++ [record, name]) lastUsed →
        window.expired lastUsed now = true)
      (bare : ∀ name, IsBare fs (store ++ [record, name]) → name ∈ recordScratchNames) :
      IsOrphaned fs store now window [record]

def IsSelected (fs : FileSystem) (store : Location) (now : Instant) (window : RetentionWindow)
    (place : Location) : Prop :=
  IsScratch fs store place ∨ IsStale fs store now window place ∨
    IsOrphaned fs store now window place

def idAt (place : Location) : String :=
  "/".intercalate place

def pathAt (root : Path) (place : Location) : Path :=
  place.foldl Path.child root

/-- Everything but what stands at some places of the store and below them. -/
def withoutPlaces (fs : FileSystem) (store : Location) (places : List Location) : FileSystem :=
  fs.withoutAll (places.map (store ++ ·))

/--
The path names the directory of the store even without any of the places below it
that meet a condition.
-/
def NamesWithout (fs : FileSystem) (root : Path) (store : Location)
    (gone : Location → Prop) : Prop :=
  ∀ places : List Location, (∀ place ∈ places, gone place) →
    (withoutPlaces fs store places).directoryAt? root = some store

/-! ## Paths and identifiers -/

@[simp] theorem idAt_single (name : String) : idAt [name] = name := by
  simp [idAt]

@[simp] theorem idAt_pair (record name : String) :
    idAt [record, name] = record ++ "/" ++ name := by
  simp [idAt]

@[simp] theorem pathAt_nil (root : Path) : pathAt root [] = root := rfl

@[simp] theorem pathAt_single (root : Path) (name : String) :
    pathAt root [name] = root.child name := rfl

@[simp] theorem pathAt_pair (root : Path) (record name : String) :
    pathAt root [record, name] = (root.child record).child name := rfl

theorem pathAt_append_single (root : Path) (place : Location) (name : String) :
    pathAt root (place ++ [name]) = (pathAt root place).child name := by
  simp [pathAt]

variable {fs small : FileSystem} {root : Path} {store place dir : Location}

theorem HasNoLinks.below (h : HasNoLinks fs store) (place : Location) :
    HasNoLinks fs (store ++ place) := by
  intro rest target
  rw [List.append_assoc]
  exact h (place ++ rest) target

theorem HasNoLinks.of_extends (h : HasNoLinks fs store) (hext : fs.Extends small) :
    HasNoLinks small store := by
  intro place target hnode
  exact h place target (hext.node? hnode)

theorem hasNoLinks_of_entries (hfs : fs.WellFormed)
    (h : ∀ e ∈ fs.entries, ∀ target, e.2 ≠ .link target) (dir : Location) :
    HasNoLinks fs dir := by
  intro place target hnode
  by_cases hnil : dir ++ place = []
  · rw [hnil, node?_root] at hnode
    cases hnode
  · exact h _ ((hfs.mem_entries_iff hnil).mpr hnode) target rfl

theorem isEmpty_pathAt (hroot : root.isEmpty = false) (place : Location) :
    (pathAt root place).isEmpty = false := by
  induction place using List.reverseRecOn with
  | nil => exact hroot
  | append_singleton place name ih =>
      rw [pathAt_append_single]
      exact Path.isEmpty_join ih (Path.isAbsolute_single name) (by simp)

theorem pathAt_eq (hroot : root.isEmpty = false) (hplace : ∀ name ∈ place, name ≠ "")
    (hnil : place ≠ []) :
    pathAt root place = ⟨root.stem ++ place⟩ := by
  induction place using List.reverseRecOn with
  | nil => contradiction
  | append_singleton place name ih =>
      rw [pathAt_append_single, Path.child_eq (isEmpty_pathAt hroot place), ← List.append_assoc]
      by_cases hplace' : place = []
      · simp [hplace']
      · rw [ih (fun x hx => hplace x (List.mem_append_left _ hx)) hplace']
        obtain ⟨front, last, rfl⟩ := (List.eq_nil_or_concat' place).resolve_left hplace'
        have hlast : last ≠ "" := hplace last (by simp)
        simp [Path.stem, ← List.append_assoc, hlast]

/-! ## Removed places -/

section Removed

variable {places more : List Location} {node : Node}

theorem isCovered_map_iff :
    IsCovered (places.map (store ++ ·)) (store ++ place) ↔ IsCovered places place := by
  simp [IsCovered]

@[simp] theorem withoutPlaces_nil (fs : FileSystem) (store : Location) :
    withoutPlaces fs store [] = fs := by
  simp [withoutPlaces]

theorem withoutPlaces_withoutPlaces (fs : FileSystem) (store : Location)
    (places more : List Location) :
    withoutPlaces (withoutPlaces fs store places) store more =
      withoutPlaces fs store (places ++ more) := by
  simp [withoutPlaces, withoutAll_withoutAll]

theorem extends_withoutPlaces (fs : FileSystem) (store : Location) (places : List Location) :
    fs.Extends (withoutPlaces fs store places) :=
  extends_withoutAll fs _

theorem node?_withoutPlaces (h : ¬ IsCovered places place) :
    (withoutPlaces fs store places).node? (store ++ place) = fs.node? (store ++ place) :=
  node?_withoutAll_of_not_covered (by rwa [isCovered_map_iff])

theorem NamesWithout.mono {gone gone' : Location → Prop} (h : NamesWithout fs root store gone)
    (hgone : ∀ place, gone' place → gone place) : NamesWithout fs root store gone' :=
  fun places hplaces => h places fun place hplace => hgone place (hplaces place hplace)

theorem NamesWithout.withoutPlaces {gone gone' : Location → Prop}
    (h : NamesWithout fs root store gone) (hplaces : ∀ place ∈ places, gone place)
    (hgone : ∀ place, gone' place → gone place) :
    NamesWithout (withoutPlaces fs store places) root store gone' := by
  intro more hmore
  rw [withoutPlaces_withoutPlaces]
  refine h _ fun place hplace => ?_
  rcases List.mem_append.mp hplace with hmem | hmem
  · exact hplaces place hmem
  · exact hgone place (hmore place hmem)

/-- A path without steps up names the store whatever is removed below it. -/
theorem namesWithout_of_descend {gone : Location → Prop} (hlinks : HasNoLinks fs [])
    (hroot : fs.directoryAt? root = some store) (hup : .up ∉ root.steps)
    (hgone : ∀ place, gone place → place ≠ []) : NamesWithout fs root store gone := by
  intro places hplaces
  have hhere : (Store.withoutPlaces fs store places).here = fs.here := rfl
  refine directoryAt?_of_descend hhere hlinks hup (fun l hl hnode => ?_) hroot
  by_cases hnil : l = []
  · subst hnil
    rfl
  · rw [Store.withoutPlaces, node?_withoutAll_of_not_covered, hnode]
    rintro ⟨dir, hdir, hpre⟩
    obtain ⟨place, hplace, rfl⟩ := List.mem_map.mp hdir
    have hlength := (hpre.trans hl).length_le
    rw [List.length_append] at hlength
    exact hgone place (hplaces place hplace) (List.length_eq_zero_iff.mp (by omega))

end Removed

/-! ## Kinds exclude each other -/

section Kinds

variable {kind kind' : EntryKind} {lastUsed lastUsed' : Instant} {other : Location}

theorem IsBare.not_isEntry (hbare : IsBare fs dir) : ¬ IsEntry fs kind dir lastUsed := by
  rintro ⟨-, key, hmeta⟩
  simp [metadataAt?, hbare.2] at hmeta

theorem IsEntry.unique (h : IsEntry fs kind dir lastUsed) (h' : IsEntry fs kind' dir lastUsed') :
    kind = kind' ∧ lastUsed = lastUsed' := by
  obtain ⟨-, key, hmeta⟩ := h
  obtain ⟨-, key', hmeta'⟩ := h'
  rw [hmeta] at hmeta'
  cases hmeta'
  exact ⟨rfl, rfl⟩

theorem IsScratch.node? (h : IsScratch fs store place) :
    fs.node? (store ++ place) = some .directory := by
  cases h with
  | inStore bare => exact bare.1
  | inRecord entry scratch bare => exact bare.1

theorem IsScratch.ne_nil (h : IsScratch fs store place) : place ≠ [] := by
  cases h <;> simp

theorem isScratch_pair_iff {record name : String} :
    IsScratch fs store [record, name] ↔
      (∃ lastUsed, IsEntry fs .record (store ++ [record]) lastUsed) ∧
        name ∈ recordScratchNames ∧ IsBare fs (store ++ [record, name]) := by
  constructor
  · intro h
    generalize hplace : [record, name] = place at h
    cases h with
    | inStore bare => simp at hplace
    | inRecord entry scratch bare =>
        cases hplace
        exact ⟨⟨_, entry⟩, scratch, bare⟩
  · rintro ⟨⟨lastUsed, entry⟩, scratch, bare⟩
    exact .inRecord entry scratch bare

theorem IsArtifact.node? (h : IsArtifact fs store place lastUsed) :
    fs.node? (store ++ place) = some .directory := by
  cases h with
  | inStore entry => exact entry.1
  | inRecord entry part => exact part.1

theorem IsArtifact.ne_nil (h : IsArtifact fs store place lastUsed) : place ≠ [] := by
  cases h <;> simp

theorem IsArtifact.unique (h : IsArtifact fs store place lastUsed)
    (h' : IsArtifact fs store place lastUsed') : lastUsed = lastUsed' := by
  cases h with
  | inStore entry =>
      cases h' with
      | inStore entry' => exact (entry.unique entry').2
  | inRecord entry part =>
      cases h' with
      | inRecord entry' part' => exact (part.unique part').2

def IsOwned (fs : FileSystem) (store place : Location) : Prop :=
  IsScratch fs store place ∨ ∃ lastUsed, IsArtifact fs store place lastUsed

theorem IsScratch.not_isArtifact (h : IsScratch fs store place) :
    ¬ IsArtifact fs store place lastUsed := by
  intro h'
  cases h with
  | inStore bare =>
      cases h' with
      | inStore entry => exact bare.not_isEntry entry
  | inRecord entry scratch bare =>
      cases h' with
      | inRecord entry' part => exact bare.not_isEntry part

theorem IsOwned.node? (h : IsOwned fs store place) :
    fs.node? (store ++ place) = some .directory := by
  rcases h with hscratch | ⟨used, hartifact⟩
  · exact hscratch.node?
  · exact hartifact.node?

theorem IsOwned.not_isRecord {name : String} (h : IsOwned fs store [name]) :
    ¬ IsEntry fs .record (store ++ [name]) lastUsed := by
  intro hrecord
  rcases h with hscratch | ⟨used, hartifact⟩
  · cases hscratch with
    | inStore bare => exact bare.not_isEntry hrecord
  · cases hartifact with
    | inStore entry => cases (entry.unique hrecord).1

theorem IsOwned.eq_single_or_pair (h : IsOwned fs store place) :
    (∃ name, place = [name]) ∨
      ∃ record name lastUsed, place = [record, name] ∧
        IsEntry fs .record (store ++ [record]) lastUsed := by
  rcases h with hscratch | ⟨used, hartifact⟩
  · cases hscratch with
    | inStore bare => exact .inl ⟨_, rfl⟩
    | inRecord entry scratch bare => exact .inr ⟨_, _, _, rfl, entry⟩
  · cases hartifact with
    | inStore entry => exact .inl ⟨_, rfl⟩
    | inRecord entry part => exact .inr ⟨_, _, _, rfl, entry⟩

theorem IsOwned.eq_of_below (h : IsOwned fs store place) (h' : IsOwned fs store other)
    (hpre : place <+: other) : place = other := by
  rcases h.eq_single_or_pair with ⟨name, rfl⟩ | ⟨record, name, used, rfl, -⟩
  · rcases h'.eq_single_or_pair with ⟨name', rfl⟩ | ⟨record', name', used', rfl, hrecord⟩
    · simpa using hpre
    · obtain ⟨rfl, -⟩ := List.cons_prefix_cons.mp hpre
      exact absurd hrecord h.not_isRecord
  · rcases h'.eq_single_or_pair with ⟨name', rfl⟩ | ⟨record', name', used', rfl, -⟩
    · have := hpre.length_le
      simp at this
    · exact hpre.eq_of_length rfl

theorem IsStale.ne_nil {now : Instant} {window : RetentionWindow}
    (h : IsStale fs store now window place) : place ≠ [] := by
  obtain ⟨used, hartifact, -⟩ := h
  exact hartifact.ne_nil

theorem IsSelected.ne_nil {now : Instant} {window : RetentionWindow}
    (h : IsSelected fs store now window place) : place ≠ [] := by
  rcases h with h | h | h
  · exact h.ne_nil
  · exact h.ne_nil
  · cases h
    simp

end Kinds

theorem directoryAt?_pathAt (hfs : fs.WellFormed) (hlinks : HasNoLinks fs store)
    (hroot : fs.directoryAt? root = some store) (hplace : place ≠ [])
    (hnode : fs.node? (store ++ place) = some .directory)
    (hlong : isTooLong (pathAt root place) = false) :
    fs.directoryAt? (pathAt root place) = some (store ++ place) := by
  induction place using List.reverseRecOn with
  | nil => contradiction
  | append_singleton place name ih =>
      obtain ⟨⟨-, hempty, -⟩, -⟩ := directoryAt?_walk hroot
      rw [pathAt_append_single] at hlong ⊢
      rw [← List.append_assoc] at hnode ⊢
      have hname : IsName name := hfs.isName hnode (by simp)
      have hlink : ∀ target, fs.node? (store ++ place ++ [name]) ≠ some (.link target) := by
        simpa only [List.append_assoc] using hlinks (place ++ [name])
      have habove : fs.directoryAt? (pathAt root place) = some (store ++ place) := by
        by_cases hnil : place = []
        · simpa [hnil] using hroot
        · refine ih hnil (hfs.node?_of_append (by simp) hnode) ?_
          rw [Bool.eq_false_iff]
          intro hlong'
          rw [Path.isTooLong_child (isEmpty_pathAt hempty place) hlong'] at hlong
          contradiction
      exact (directoryAt?_child habove hname hlink).mpr ⟨hlong, hnode, rfl⟩

end CacheUpkeep.Store
