import CacheUpkeep.Proofs.Path.Ways
import CacheUpkeep.Proofs.Store.Scan
import CacheUpkeep.RunnerStorage

/-!
# Storage directories

The storage directories are found in the order of their names, each once, and no two
of them have the same lock.
-/

namespace CacheUpkeep

open CacheUpkeep.FileSystem

variable {fs : FileSystem} {p : Path} {name : String} {names : List String}

theorem FileSystem.directoryAt?_of_list (h : fs.list p = .ok names) :
    ∃ dir, fs.directoryAt? p = some dir := by
  unfold list at h
  cases hstat : fs.stat p with
  | error e =>
      rw [hstat] at h
      cases h
  | ok found =>
      obtain ⟨location, node⟩ := found
      rw [hstat] at h
      cases node with
      | directory => exact ⟨location, directoryAt?_eq_some_iff.mpr hstat⟩
      | file | sink | link => cases h

theorem Path.fileName?_child (hp : p.isEmpty = false) (hname : IsName name) :
    (p.child name).fileName? = some name := by
  obtain ⟨hempty, hhere, hup, -⟩ := hname
  obtain ⟨first, rest, hstem⟩ := List.exists_cons_of_ne_nil (stem_ne_nil hp)
  have hkept : Path.trimmed (first :: (rest ++ [name])) = first :: (rest ++ [name]) := by
    simp [trimmed, hempty, hhere]
  rw [fileName?, child_eq hp, hstem, List.cons_append, hkept]
  simp [hempty, hhere, hup, List.getLast?_cons]

namespace RunnerStorage

variable {s : RunnerStorage} {dirs : List Path}

structure IsListed (s : RunnerStorage) (fs : FileSystem) (names : List String) : Prop where
  sorted : names.Pairwise (· < ·)
  named : ∀ name ∈ names, IsName name
  mem_iff : ∀ name, name ∈ names ↔ ∃ listed, fs.list s.root = .ok listed ∧ name ∈ listed ∧
    fs.isDirectory (s.root.child name) = true

theorem discover_eq_ok (hfs : fs.WellFormed) (h : s.discover fs = .ok dirs) :
    ∃ names, dirs = names.map s.root.child ∧ IsListed s fs names := by
  unfold discover at h
  cases hlist : fs.list s.root with
  | error e =>
      rw [hlist] at h
      cases e with
      | notFound =>
          cases h
          exact ⟨[], rfl, .nil, by simp, by simp [hlist]⟩
      | _ => cases h
  | ok listed =>
      rw [hlist] at h
      cases h
      obtain ⟨dir, hdir⟩ := directoryAt?_of_list hlist
      have hnames := list_of_directory hdir
      rw [hlist] at hnames
      cases hnames
      refine ⟨_, rfl, Store.subdirectories_sorted hfs hdir (Store.subdirectories_eq hdir), ?_, ?_⟩
      · intro name hname
        obtain ⟨hlisted, -⟩ := List.mem_filter.mp (List.mem_mergeSort.mp hname)
        obtain ⟨node, hnode⟩ := hfs.mem_namesIn_iff.mp hlisted
        exact hfs.isName hnode (by simp)
      · intro name
        simp [hlist]

theorem discover_of_sorted (hlist : fs.list s.root = .ok names)
    (hdirs : (names.filter fun name => fs.isDirectory (s.root.child name)) = names)
    (hsorted : names.Pairwise fun a b => decide (a ≤ b) = true) :
    s.discover fs = .ok (names.map s.root.child) := by
  rw [discover, hlist]
  simp only [hdirs, List.mergeSort_of_pairwise hsorted]

theorem lockName_toUTF8 (name : String) : lockName name.toUTF8 = name ++ ".lock" := by
  rw [lockName, Text.lossyText_toUTF8]

theorem lockFor_child (hroot : s.root.isEmpty = false) (hname : IsName name) :
    s.lockFor (s.root.child name) = s.root.child (name ++ ".lock") := by
  rw [lockFor, Path.fileName?_child hroot hname, Option.getD_some, lockName_toUTF8]

theorem lockFor_injOn (hroot : s.root.isEmpty = false) {other : String} (hname : IsName name)
    (hother : IsName other)
    (h : s.lockFor (s.root.child name) = s.lockFor (s.root.child other)) : name = other := by
  rw [lockFor_child hroot hname, lockFor_child hroot hother] at h
  exact String.append_left_inj ".lock" |>.mp (Path.child_injective hroot h)

theorem isName_lock (hname : IsName name) : IsName (name ++ ".lock") := by
  obtain ⟨-, -, -, hchars⟩ := hname
  have hlong : ∀ short, name ++ ".lock" = short → 5 ≤ short.toList.length := by
    rintro short rfl
    simp
  refine ⟨fun h => absurd (hlong _ h) (by decide), fun h => absurd (hlong _ h) (by decide),
    fun h => absurd (hlong _ h) (by decide), fun c hc => ?_⟩
  rw [String.toList_append, List.mem_append] at hc
  rcases hc with hc | hc
  · exact hchars c hc
  · have hlock : IsName ".lock" := by decide
    exact hlock.2.2.2 c hc

theorem lockFor_sameWay_lockFor_iff (hroot : s.root.isEmpty = false) {other : String}
    (hname : IsName name) (hother : IsName other) :
    (s.lockFor (s.root.child name)).SameWay (s.lockFor (s.root.child other)) ↔ name = other := by
  have hlock := isName_lock hname
  rw [lockFor_child hroot hname, lockFor_child hroot hother, Path.sameWay_child_iff hroot,
    or_iff_left fun h => not_or.mpr ⟨hlock.1, hlock.2.1⟩ h.1]
  exact String.append_left_inj ".lock"

theorem lockFor_sameWay_child_iff (hroot : s.root.isEmpty = false) {other : String}
    (hname : IsName name) :
    (s.lockFor (s.root.child name)).SameWay (s.root.child other) ↔ other = name ++ ".lock" := by
  have hlock := isName_lock hname
  rw [lockFor_child hroot hname, Path.sameWay_child_iff hroot,
    or_iff_left fun h => not_or.mpr ⟨hlock.1, hlock.2.1⟩ h.1, eq_comm]

theorem isEmpty_root_ofBase (base : Path) : (ofBase base).root.isEmpty = false := by
  cases hbase : base.isEmpty with
  | true =>
      have hchild : base.child "conan2" = ⟨["conan2"]⟩ := by simp [Path.child, Path.join, hbase]
      rw [ofBase, hchild]
      decide
  | false => simp [ofBase, Path.child_eq hbase, Path.isEmpty, List.append_eq_singleton_iff]

end RunnerStorage

end CacheUpkeep
