import CacheUpkeep.Proofs.FileSystem.Ways
import CacheUpkeep.Proofs.RunnerStorage

/-!
# Finding a storage directory

A storage directory is found exactly if its path leads the same way as an entry of the
root.  Below the root that is a path of one turn, down to a name.
-/

namespace CacheUpkeep.RunnerStorage

open CacheUpkeep.FileSystem CacheUpkeep.Path

variable {s : RunnerStorage} {fs : FileSystem} {storage dir : Path} {name group : String}
  {above : Location}

/-- The path leads the same way as the entry of the root with this name. -/
structure IsEntry (s : RunnerStorage) (storage : Path) (name : String) : Prop where
  isName : IsName name
  not_isTooLong : isTooLong (s.root.child name) = false
  sameWay : storage.SameWay (s.root.child name)

def Discovers (s : RunnerStorage) (fs : FileSystem) (storage : Path) : Prop :=
  ∃ dirs, s.discover fs = .ok dirs ∧ ∃ dir ∈ dirs, dir.SameWay storage

theorem mem_discover (hroot : fs.directoryAt? s.root = some above)
    (hlisted : name ∈ fs.namesIn above) (hdir : fs.isDirectory (s.root.child name) = true) :
    ∃ dirs, s.discover fs = .ok dirs ∧ s.root.child name ∈ dirs := by
  unfold discover
  rw [list_of_directory hroot]
  refine ⟨_, rfl, List.mem_map_of_mem (List.mem_mergeSort.mpr (List.mem_filter.mpr ⟨hlisted, ?_⟩))⟩
  exact hdir

theorem IsListed.mem_iff_isDirectory {names : List String} (h : IsListed s fs names)
    (hfs : fs.WellFormed) (hroot : s.root.isEmpty = false) (hname : IsName name) :
    name ∈ names ↔ fs.isDirectory (s.root.child name) = true := by
  rw [h.mem_iff]
  constructor
  · rintro ⟨_, -, -, hdir⟩
    exact hdir
  · intro hdir
    obtain ⟨location, hlocation⟩ := isDirectory_iff.mp hdir
    obtain ⟨above, node, habove, hnode⟩ := directoryAt?_of_child hroot hname hlocation
    exact ⟨_, list_of_directory habove, hfs.mem_namesIn_iff.mpr ⟨node, hnode⟩, hdir⟩

theorem discovers_iff (hroot : s.root.isEmpty = false) (hfs : fs.WellFormed)
    (hstorage : fs.isDirectory storage = true) :
    s.Discovers fs storage ↔ ∃ name, s.IsEntry storage name := by
  constructor
  · rintro ⟨dirs, hdirs, dir, hdir, hsame⟩
    obtain ⟨names, rfl, hlisted⟩ := discover_eq_ok hfs hdirs
    obtain ⟨name, hname, rfl⟩ := List.mem_map.mp hdir
    obtain ⟨_, -, -, hchild⟩ := (hlisted.mem_iff name).mp hname
    obtain ⟨location, hlocation⟩ := isDirectory_iff.mp hchild
    exact ⟨name, hlisted.named name hname, (directoryAt?_walk hlocation).1.2.2, hsame.symm⟩
  · rintro ⟨name, hentry⟩
    obtain ⟨location, hlocation⟩ := isDirectory_iff.mp hstorage
    have hempty : (s.root.child name).isEmpty = false :=
      isEmpty_join hroot (isAbsolute_single name) (by simp)
    have hchild := directoryAt?_of_sameWay hentry.sameWay hempty hentry.not_isTooLong hlocation
    obtain ⟨above, node, habove, hnode⟩ := directoryAt?_of_child hroot hentry.isName hchild
    obtain ⟨dirs, hdirs, hmem⟩ := mem_discover habove (hfs.mem_namesIn_iff.mpr ⟨node, hnode⟩)
      (isDirectory_iff.mpr ⟨location, hchild⟩)
    exact ⟨dirs, hdirs, _, hmem, hentry.sameWay.symm⟩

theorem exists_isEntry_iff (hroot : s.root.isEmpty = false)
    (hgroup : (ofString group).isAbsolute = false)
    (hstorage : fs.isDirectory (s.root.join (ofString group)) = true) :
    (∃ name, s.IsEntry (s.root.join (ofString group)) name) ↔
      ∃ name, (ofString group).turns = [.down name] := by
  have hsegments : (ofString group).segments ≠ [] := by
    simp [ofString, Text.splitAtEach_ne_nil]
  have hsame : ∀ name, (s.root.join (ofString group)).SameWay (s.root.child name) ↔
      (ofString group).turns = (⟨[name]⟩ : Path).turns := fun name =>
    sameWay_join_iff hroot hgroup (isAbsolute_single name) hsegments (by simp)
  constructor
  · rintro ⟨name, hentry⟩
    exact ⟨name, ((hsame name).mp hentry.sameWay).trans (turns_name hentry.isName)⟩
  · rintro ⟨name, hturns⟩
    obtain ⟨location, hlocation⟩ := isDirectory_iff.mp hstorage
    obtain ⟨⟨hnul, -, hlong⟩, -⟩ := directoryAt?_walk hlocation
    rw [hasNul_join hroot hgroup] at hnul
    have hup : .up ∉ (ofString group).steps := fun hmem => by
      have hturn := (mem_turns_of_ne (by simp)).mpr hmem
      rw [hturns] at hturn
      simp at hturn
    have hname : IsName name := by
      refine (leadsDown_ofString hgroup hup).isName (Bool.or_eq_false_iff.mp hnul).2 ?_
      rw [names_eq_turns, hturns]
      exact List.mem_singleton_self name
    exact ⟨name, hname, isTooLong_child_of_turns hroot hgroup hturns hlong,
      (hsame name).mpr (hturns.trans (turns_name hname).symm)⟩

end CacheUpkeep.RunnerStorage
