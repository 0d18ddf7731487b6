import CacheUpkeep.FileSystem.Edit
import CacheUpkeep.Proofs.FileSystem.Size
import CacheUpkeep.Proofs.Outcome
import Mathlib.Data.List.Perm.Basic

/-!
# The order of listings

Two file systems with the same nodes differ only in the order in which their directories
list the entries.  Paths lead to the same places in both, files hold the same, and the
octets below a directory are as many; a removal leaves two that have the same nodes again.
-/

namespace CacheUpkeep.FileSystem

open CacheUpkeep.Path

variable {fs fs' : FileSystem} {follow : Bool} {dir location : Location} {node : Node}
  {steps : List Step}

/-- The same nodes in both, while each directory lists its entries in an order of its own. -/
structure SameTree (fs fs' : FileSystem) : Prop where
  wellFormed : fs.WellFormed
  wellFormed' : fs'.WellFormed
  here_eq : fs.here = fs'.here
  nextFile_eq : fs.nextFile = fs'.nextFile
  node?_eq : ∀ location, fs.node? location = fs'.node? location

theorem sameTree_of_perm (hfs : fs.WellFormed) (hfs' : fs'.WellFormed)
    (hentries : fs.entries.Perm fs'.entries) (hhere : fs.here = fs'.here)
    (hnext : fs.nextFile = fs'.nextFile) : SameTree fs fs' where
  wellFormed := hfs
  wellFormed' := hfs'
  here_eq := hhere
  nextFile_eq := hnext
  node?_eq := by
    intro location
    by_cases hnil : location = []
    · rw [hnil, node?_root, node?_root]
    · refine Option.ext fun node => ?_
      rw [← hfs.mem_entries_iff hnil, ← hfs'.mem_entries_iff hnil]
      exact hentries.mem_iff

private theorem walkWith_congr {jump jump' : Path → Location → List Step → Except IoError Place}
    (hnode : ∀ location, fs.node? location = fs'.node? location)
    (hjump : ∀ target dir rest, jump target dir rest = jump' target dir rest) :
    fs.walkWith follow jump dir steps = fs'.walkWith follow jump' dir steps := by
  induction steps generalizing dir with
  | nil => rfl
  | cons step rest ih =>
      cases step with
      | here => exact ih
      | up => exact ih
      | down name => simp only [walkWith, hnode, hjump, ih]

theorem walk_congr (hnode : ∀ location, fs.node? location = fs'.node? location) (links : Nat) :
    fs.walk follow links dir steps = fs'.walk follow links dir steps := by
  induction links generalizing dir steps with
  | zero => exact walkWith_congr hnode fun _ _ _ => rfl
  | succ links ih =>
      refine walkWith_congr hnode fun target dir rest => ?_
      rw [ih]

namespace SameTree

variable (h : SameTree fs fs')

include h

theorem entries_perm : fs.entries.Perm fs'.entries := by
  have hentries : ∀ {fs : FileSystem}, fs.WellFormed → fs.entries.Nodup := fun hfs =>
    (List.pairwise_map.mp hfs.locations_nodup).imp fun hne heq => hne (congrArg Prod.fst heq)
  refine (List.perm_ext_iff_of_nodup (hentries h.wellFormed) (hentries h.wellFormed')).mpr ?_
  rintro ⟨location, node⟩
  by_cases hnil : location = []
  · exact iff_of_false (fun hmem => (h.wellFormed.inside _ hmem).1 hnil)
      fun hmem => (h.wellFormed'.inside _ hmem).1 hnil
  · rw [h.wellFormed.mem_entries_iff hnil, h.wellFormed'.mem_entries_iff hnil, h.node?_eq]

/-! ## What paths lead to -/

theorem find_eq (follow : Bool) (p : Path) : fs.find follow p = fs'.find follow p := by
  have hplace : fs.place follow p (lookupSteps p) = fs'.place follow p (lookupSteps p) := by
    simp only [place, h.here_eq, walk_congr h.node?_eq]
  rw [find, find, hplace]

theorem directoryAt?_eq (p : Path) : fs.directoryAt? p = fs'.directoryAt? p := by
  simp only [directoryAt?, stat, h.find_eq]

theorem isDirectory_eq (p : Path) : fs.isDirectory p = fs'.isDirectory p := by
  rw [isDirectory, isDirectory, h.directoryAt?_eq]

theorem readText_eq (p : Path) : fs.readText p = fs'.readText p := by
  simp only [readText, readBytes, stat, h.find_eq]

/-! ## Listings and sizes -/

theorem namesIn_perm (dir : Location) : (fs.namesIn dir).Perm (fs'.namesIn dir) :=
  h.entries_perm.filterMap _

theorem list_cases (p : Path) :
    (∃ names names', fs.list p = .ok names ∧ fs'.list p = .ok names' ∧ names.Perm names') ∨
      ∃ e, fs.list p = .error e ∧ fs'.list p = .error e := by
  unfold list stat
  rw [← h.find_eq]
  cases fs.find true p with
  | error e => exact .inr ⟨e, rfl, rfl⟩
  | ok found =>
      obtain ⟨location, node⟩ := found
      cases node with
      | directory => exact .inl ⟨_, _, rfl, rfl, h.namesIn_perm location⟩
      | _ => exact .inr ⟨.notDirectory, rfl, rfl⟩

theorem sizeBelow_eq (p : Path) (dir : Location) (excluded : List String) :
    fs.sizeBelow p dir excluded = fs'.sizeBelow p dir excluded := by
  have hadd : LeftCommutative fun (e : Entry) total => sizeBelow.counted p excluded e + total :=
    ⟨fun e e' total => Nat.add_left_comm _ _ _⟩
  exact (h.entries_perm.filterMap _).foldr_eq 0

theorem treeSize_eq (p : Path) (excluded : List String) :
    fs.treeSize p excluded = fs'.treeSize p excluded := by
  simp only [treeSize, h.directoryAt?_eq, h.sizeBelow_eq]

/-! ## Removal -/

theorem without (location : Location) : SameTree (fs.without location) (fs'.without location) := by
  rw [without_eq_withoutAll, without_eq_withoutAll]
  exact sameTree_of_perm (h.wellFormed.withoutAll _) (h.wellFormed'.withoutAll _)
    (h.entries_perm.filter _) h.here_eq h.nextFile_eq

theorem removeTree_cases (p : Path) :
    (∃ location, fs.removeTree p = .ok (fs.without location) ∧
        fs'.removeTree p = .ok (fs'.without location)) ∨
      ∃ e, fs.removeTree p = .error e ∧ fs'.removeTree p = .error e := by
  unfold removeTree linkStat
  rw [← h.find_eq]
  cases fs.find false p with
  | error e => exact .inr ⟨e, rfl, rfl⟩
  | ok found =>
      obtain ⟨location, node⟩ := found
      cases node with
      | directory => exact .inl ⟨location, rfl, rfl⟩
      | link target => exact .inl ⟨location, rfl, rfl⟩
      | file id content executable => exact .inr ⟨.notDirectory, rfl, rfl⟩
      | sink id => exact .inr ⟨.notDirectory, rfl, rfl⟩

end SameTree

theorem alike_removeTree (p : Path) :
    Action.Alike SameTree (Action.changing fun fs => fs.removeTree p)
      (Action.changing fun fs => fs.removeTree p) := by
  intro fs fs' h
  rcases h.removeTree_cases p with ⟨location, hfs, hfs'⟩ | ⟨e, hfs, hfs'⟩
  · rw [Action.outcome_changing_ok hfs, Action.outcome_changing_ok hfs']
    exact ⟨rfl, h.without location⟩
  · rw [Action.outcome_changing_error hfs, Action.outcome_changing_error hfs']
    exact ⟨rfl, h⟩

end CacheUpkeep.FileSystem
