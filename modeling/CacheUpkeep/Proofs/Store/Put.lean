import CacheUpkeep.Proofs.FileSystem.Growth
import CacheUpkeep.Proofs.Store.Metadata
import CacheUpkeep.Proofs.Store.Scan

/-!
# Filling a store

Entries that are put one after the other into an empty store stand there with
the metadata that was written last, whatever is put above, below or beside them.
-/

namespace CacheUpkeep.Store

open CacheUpkeep.Calendar CacheUpkeep.FileSystem CacheUpkeep.Path CacheUpkeep.Prune

variable {fs mid left : FileSystem} {root path : Path} {store : Location} {m other : EntryMeta}
  {puts before after : List EntryMeta}

/-! ## Lengths of paths -/

theorem isTooLong_pathAt_names {q : Path} (hroot : root.isEmpty = false) (hq : q.LeadsDown)
    (hlong : isTooLong (root.join q) = false) : isTooLong (pathAt root q.names) = false := by
  rw [Bool.eq_false_iff, isTooLong, Ne, decide_eq_true_eq, Nat.not_le] at hlong ⊢
  refine Nat.lt_of_le_of_lt ?_ hlong
  by_cases hnil : q.names = []
  · rw [hnil, pathAt_nil]
    exact size_text_le_join hroot hq.isAbsolute_eq_false hq.segments_ne_nil
  · rw [pathAt_eq hroot (fun _ hname => (mem_segments_of_mem_names hname).2.1) hnil,
      join_eq hroot hq.isAbsolute_eq_false]
    exact size_intercalate_le_of_sublist ((names_sublist q).append_left root.stem)

/-! ## One entry -/

namespace EntryMeta

def place (m : EntryMeta) : Location :=
  (Path.ofString m.key).names

end EntryMeta

structure Holds (fs : FileSystem) (root : Path) (store : Location) (m : EntryMeta) : Prop where
  directory : fs.node? (store ++ m.place) = some .directory
  metadata : ∃ id executable,
    fs.node? (store ++ m.place ++ [metadataName]) = some (.file id m.write.toUTF8 executable)
  isTooLong_eq_false : isTooLong (pathAt root m.place) = false

theorem Holds.isEntry (h : Holds fs root store m) :
    IsEntry fs m.kind (store ++ m.place) m.lastUsed.carried := by
  obtain ⟨id, executable, hnode⟩ := h.metadata
  exact ⟨h.directory, m.key, metadataAt?_of_written hnode⟩

theorem put_eq_ok (h : IsPlain fs root store) (hkey : (Path.ofString m.key).LeadsDown)
    (hput : (LocalStore.put root m.key m.kind m.lastUsed).outcome fs = (.ok path, left)) :
    ∃ mid, Grows fs mid ∧ mid.node? (store ++ m.place) = some .directory ∧
      Writes mid left (store ++ m.place ++ [metadataName]) m.write.toUTF8 ∧
      isTooLong (root.join (Path.ofString m.key)) = false := by
  unfold LocalStore.put at hput
  obtain ⟨made, mid, hmake, hput⟩ := Action.outcome_bind_eq_ok hput
  obtain ⟨written, final, hwrite, hput⟩ := Action.outcome_bind_eq_ok hput
  cases hput
  have hgrows := makeDirectories_grows h hkey
  rw [Action.outcome_mapError_eq_ok hmake] at hgrows
  obtain ⟨hlong, hdir, hwrites⟩ := writeBytes_child (h.of_grows hgrows) hkey isName_metadataName
    (Action.outcome_changing_eq_ok (Action.outcome_mapError_eq_ok hwrite))
  refine ⟨mid, hgrows, hdir, hwrites, ?_⟩
  rw [Bool.eq_false_iff]
  intro habove
  have hempty := isEmpty_join h.isEmpty_eq_false hkey.isAbsolute_eq_false hkey.segments_ne_nil
  rw [isTooLong_child hempty habove] at hlong
  contradiction

theorem put_isPlain (h : IsPlain fs root store) (hkey : (Path.ofString m.key).LeadsDown)
    (hput : (LocalStore.put root m.key m.kind m.lastUsed).outcome fs = (.ok path, left)) :
    IsPlain left root store := by
  obtain ⟨mid, hgrows, -, hwrites, -⟩ := put_eq_ok h hkey hput
  rw [List.append_assoc] at hwrites
  exact (h.of_grows hgrows).of_writes hwrites

theorem put_holds (h : IsPlain fs root store) (hkey : (Path.ofString m.key).LeadsDown)
    (hput : (LocalStore.put root m.key m.kind m.lastUsed).outcome fs = (.ok path, left)) :
    Holds left root store m := by
  obtain ⟨mid, -, hdir, hwrites, hlong⟩ := put_eq_ok h hkey hput
  refine ⟨?_, hwrites.file, isTooLong_pathAt_names h.isEmpty_eq_false hkey hlong⟩
  rw [hwrites.others (by simp), hdir]

theorem put_keeps (h : IsPlain fs root store) (hm : Holds fs root store m)
    (hkey : (Path.ofString other.key).LeadsDown) (hne : other.place ≠ m.place)
    (hput : (LocalStore.put root other.key other.kind other.lastUsed).outcome fs =
      (.ok path, left)) : Holds left root store m := by
  obtain ⟨mid, hgrows, hdir, hwrites, -⟩ := put_eq_ok h hkey hput
  refine ⟨?_, ?_, hm.isTooLong_eq_false⟩
  · have hmid := hgrows.keeps.node? hm.directory
    rw [hwrites.others, hmid]
    intro hlocation
    rw [hlocation] at hmid
    obtain ⟨id, old, executable, hfile⟩ := hwrites.before _ hmid
    cases hfile
  · obtain ⟨id, executable, hfile⟩ := hm.metadata
    refine ⟨id, executable, ?_⟩
    rw [hwrites.others, hgrows.keeps.node? hfile]
    intro hlocation
    obtain ⟨hplace, -⟩ := List.append_inj' hlocation rfl
    exact hne (List.append_cancel_left hplace).symm

/-! ## Many entries -/

inductive PutAll (root : Path) : List EntryMeta → FileSystem → FileSystem → Prop where
  | nil (fs : FileSystem) : PutAll root [] fs fs
  | cons {m : EntryMeta} {rest : List EntryMeta} {fs mid left : FileSystem} {path : Path}
      (put : (LocalStore.put root m.key m.kind m.lastUsed).outcome fs = (.ok path, mid))
      (others : PutAll root rest mid left) : PutAll root (m :: rest) fs left

theorem PutAll.isPlain (h : PutAll root puts fs left) (hfs : IsPlain fs root store)
    (hkeys : ∀ other ∈ puts, (Path.ofString other.key).LeadsDown) : IsPlain left root store := by
  induction h with
  | nil => exact hfs
  | cons put others ih =>
      exact ih (put_isPlain hfs (hkeys _ List.mem_cons_self) put) fun m hm =>
        hkeys m (List.mem_cons_of_mem _ hm)

theorem PutAll.keeps (h : PutAll root puts fs left) (hfs : IsPlain fs root store)
    (hkeys : ∀ other ∈ puts, (Path.ofString other.key).LeadsDown) (hm : Holds fs root store m)
    (hne : ∀ other ∈ puts, other.place ≠ m.place) : Holds left root store m := by
  induction h with
  | nil => exact hm
  | cons put others ih =>
      have hkey := hkeys _ List.mem_cons_self
      exact ih (put_isPlain hfs hkey put)
        (fun m hm => hkeys m (List.mem_cons_of_mem _ hm))
        (put_keeps hfs hm hkey (hne _ List.mem_cons_self) put)
        fun other hother => hne other (List.mem_cons_of_mem _ hother)

theorem PutAll.holds (h : PutAll root (before ++ m :: after) fs left)
    (hfs : IsPlain fs root store)
    (hkeys : ∀ other ∈ before ++ m :: after, (Path.ofString other.key).LeadsDown)
    (hlast : ∀ other ∈ after, other.place ≠ m.place) : Holds left root store m := by
  induction before generalizing fs with
  | nil =>
      cases h with
      | cons put others =>
          have hkey := hkeys m (by simp)
          exact others.keeps (put_isPlain hfs hkey put)
            (fun m hm => hkeys m (by simp [hm])) (put_holds hfs hkey put) hlast
  | cons first before ih =>
      cases h with
      | cons put others =>
          exact ih others (put_isPlain hfs (hkeys first (by simp)) put)
            fun m hm => hkeys m (List.mem_cons_of_mem _ hm)

end CacheUpkeep.Store
