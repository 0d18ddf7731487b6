import CacheUpkeep.Proofs.Lock.Bracket

/-!
# Locks that can be taken

A lock can be taken if its path leads to a file that nobody has locked, or to a free name.
Taking one of several such locks and giving it back leaves all of them so, also where two
paths lead to one file.
-/

namespace CacheUpkeep.FileSystem

open CacheUpkeep.Path

variable {fs big : FileSystem} {held : List Nat} {p q : Path} {location : Location} {node : Node}
  {place : Place} {id : Nat} {root : Path} {name : String} {names : List String}

/-- A file or a sink that is not locked, or a free name. -/
def Place.IsFree (held : List Nat) : Place → Prop
  | .present _ node => ∃ id, node.number? = some id ∧ id ∉ held
  | .absent _ _ => True

def LeadsToFree (fs : FileSystem) (held : List Nat) (p : Path) : Prop :=
  ∃ place, fs.place true p p.steps = .ok place ∧ place.IsFree held

theorem Place.IsFree.filled (h : place.IsFree held) (hnumber : node.number? = some id)
    (hid : id ∉ held) : (place.filled location node).IsFree held := by
  cases place with
  | present l found => exact h
  | absent dir name =>
      rw [Place.filled]
      split
      · exact ⟨id, hnumber, hid⟩
      · trivial

theorem LeadsToFree.of_adds (h : LeadsToFree fs held p) (hadds : Adds fs big location node)
    (hnumber : node.number? = some id) (hid : id ∉ held) : LeadsToFree big held p := by
  obtain ⟨place, hplace, hfree⟩ := h
  exact ⟨_, place_adds hadds hnumber hplace, hfree.filled hnumber hid⟩

theorem LeadsToFree.openFile (h : LeadsToFree fs held p) (hslash : p.endsWithSlash = false)
    (hheld : ∀ id ∈ held, id < fs.nextFile) :
    ∃ id location big, fs.openFile p = .ok (id, location, big) ∧ id ∉ held := by
  obtain ⟨place, hplace, hfree⟩ := h
  cases place with
  | present location node =>
      obtain ⟨id, hnumber, hid⟩ := hfree
      exact ⟨id, location, fs, by rw [openFile_of_present hslash hplace, hnumber], hid⟩
  | absent dir name =>
      exact ⟨_, _, _, openFile_of_absent hslash hplace, fun hmem => Nat.lt_irrefl _ (hheld _ hmem)⟩

theorem LeadsToFree.of_openFile (h : LeadsToFree fs held q)
    (hopen : fs.openFile p = .ok (id, location, big)) (hid : id ∉ held) :
    LeadsToFree big held q := by
  obtain ⟨-, ⟨node, -, -, rfl⟩ | ⟨dir, name, hplace, rfl, rfl, rfl⟩⟩ := openFile_eq_ok hopen
  · exact h
  · exact h.of_adds (adds_addFile fs ByteArray.empty false (place_agrees hplace)) rfl hid

/-- By this path something can be found, or made. -/
def IsReachable (fs : FileSystem) (p : Path) : Prop :=
  ∃ place, fs.place true p p.steps = .ok place

theorem isReachable_child_iff {dir : Location} (hdir : fs.directoryAt? root = some dir)
    (hname : IsName name) (hlink : ∀ target, fs.node? (dir ++ [name]) ≠ some (.link target)) :
    IsReachable fs (root.child name) ↔
      isTooLong (root.child name) = false ∧
        (fs.node? (dir ++ [name]) = none → name.utf8ByteSize ≤ nameLimit) := by
  unfold IsReachable
  rw [place_child hdir hname hlink]
  cases isTooLong (root.child name) with
  | true => simp
  | false =>
      cases hnode : fs.node? (dir ++ [name]) with
      | some node => simp [entryIn, hnode]
      | none =>
          by_cases hlong : nameLimit < name.utf8ByteSize
          · simp [entryIn, hnode, hlong]
          · simp [entryIn, hnode, hlong, Nat.le_of_not_lt hlong]

theorem leadsToFree_iff (hslash : p.endsWithSlash = false) :
    LeadsToFree fs held p ↔ IsReachable fs p ∧ fs.isDirectory p = false ∧
      ∀ id, Opens fs p id → id ∉ held := by
  constructor
  · rintro ⟨place, hplace, hfree⟩
    refine ⟨⟨place, hplace⟩, Bool.eq_false_iff.mpr fun hdir => ?_, ?_⟩
    · obtain ⟨location, hdir⟩ := (isDirectory_iff_place hslash).mp hdir
      rw [hdir] at hplace
      cases hplace
      obtain ⟨id, hnumber, -⟩ := hfree
      cases hnumber
    · rintro id ⟨location, hopen⟩
      obtain ⟨node, hnode, hnumber, -⟩ := place_of_openFile hopen
      rw [hnode] at hplace
      cases hplace
      obtain ⟨id', hnumber', hid⟩ := hfree
      rw [hnumber] at hnumber'
      cases hnumber'
      exact hid
  · rintro ⟨⟨place, hplace⟩, hdir, hunlocked⟩
    refine ⟨place, hplace, ?_⟩
    cases place with
    | absent dir name => trivial
    | present location node =>
        cases hnumber : node.number? with
        | some id =>
            refine ⟨id, hnumber, hunlocked id ⟨location, ?_⟩⟩
            rw [openFile_of_present hslash hplace, hnumber]
        | none =>
            cases node with
            | directory =>
                have hno := (isDirectory_iff_place hslash).mpr ⟨location, hplace⟩
                rw [hno] at hdir
                cases hdir
            | link target => exact absurd rfl (walk_follows (place_eq_ok_iff.mp hplace).2 target)
            | file id content executable => cases hnumber
            | sink id => cases hnumber

/-! ## Lock files in a directory -/

structure AreFree (fs : FileSystem) (held : List Nat) (root : Path) (names : List String) :
    Prop where
  isThere : ∃ dir, fs.directoryAt? root = some dir
  named : ∀ name ∈ names, IsName name
  held_lt : ∀ id ∈ held, id < fs.nextFile
  free : ∀ name ∈ names, LeadsToFree fs held (root.child name)

theorem AreFree.of_openFile (h : AreFree fs held root names)
    (hopen : fs.openFile p = .ok (id, location, big)) (hid : id ∉ held) :
    AreFree big held root names where
  isThere := by
    obtain ⟨dir, hdir⟩ := h.isThere
    exact ⟨dir, directoryAt?_mono (openFile_accrues hopen).keeps hdir⟩
  named := h.named
  held_lt id hmem := Nat.lt_of_lt_of_le (h.held_lt id hmem) (openFile_accrues hopen).le
  free name hname := (h.free name hname).of_openFile hopen hid

structure SameEntries (root : Path) (fs big : FileSystem) : Prop where
  directoryAt? : big.directoryAt? root = fs.directoryAt? root
  place : ∀ name, IsName name → big.place true (root.child name) (root.child name).steps =
    fs.place true (root.child name) (root.child name).steps
  le : fs.nextFile ≤ big.nextFile

theorem AreFree.of_sameEntries (h : AreFree fs held root names) (hsame : SameEntries root fs big) :
    AreFree big held root names where
  isThere := by
    rw [hsame.directoryAt?]
    exact h.isThere
  named := h.named
  held_lt id hmem := Nat.lt_of_lt_of_le (h.held_lt id hmem) hsame.le
  free name hname := by
    obtain ⟨place, hplace, hfree⟩ := h.free name hname
    exact ⟨place, (hsame.place name (h.named name hname)).trans hplace, hfree⟩

end CacheUpkeep.FileSystem

namespace CacheUpkeep.CommandRunner

open CacheUpkeep.FileSystem

variable {ρ : Type}

/-- No command changes what the entries of a directory lead to; what is below them may change. -/
def KeepsEntries (runner : CommandRunner (Machine ρ)) (root : Path) : Prop :=
  ∀ c m, SameEntries root m.files ((runner.run c).outcome m).2.files

theorem keepsEntries_within (runner : CommandRunner ρ) (root : Path) :
    (runner.within Machine.runner fun r (m : Machine ρ) => { m with runner := r }).KeepsEntries
      root :=
  fun _ _ => ⟨rfl, fun _ _ => rfl, Nat.le_refl _⟩

end CacheUpkeep.CommandRunner

namespace CacheUpkeep.Lock

open CacheUpkeep.FileSystem

variable {ρ : Type} {m : Machine ρ} {root : Path} {name : String} {names : List String}

theorem acquire_of_areFree (h : AreFree m.files m.locks.held root names) (hname : name ∈ names)
    (wait : LockWait) :
    ∃ lock opened, (acquire (root.child name) wait).outcome m = (.ok lock, opened) ∧
      opened.locks.held = lock.file :: m.locks.held ∧
      AreFree opened.files m.locks.held root names := by
  obtain ⟨dir, hdir⟩ := h.isThere
  have hslash := Path.endsWithSlash_child (directoryAt?_walk hdir).1.2.1 (h.named name hname)
  obtain ⟨id, location, big, hopen, hid⟩ := (h.free name hname).openFile hslash h.held_lt
  have hlockFile : (openLockFile (root.child name)).outcome m.files = (.ok id, big) := by
    rw [openLockFile_child hdir (h.named name hname), hopen]
  have hopened : ({ m with files := big } : Machine ρ).locks.held = m.locks.held := rfl
  refine ⟨⟨root.child name, id⟩, _, (((traced_onFiles hlockFile).bind_ok
    (traced_takeOpened_of_notMem (root.child name) wait (hopened ▸ hid))).plain), rfl, ?_⟩
  exact h.of_openFile hopen hid

theorem exists_acquire_iff {dir : Location} (hdir : m.files.directoryAt? root = some dir)
    (hname : IsName name) (hheld : ∀ id ∈ m.locks.held, id < m.files.nextFile) (wait : LockWait) :
    (∃ lock opened, (acquire (root.child name) wait).outcome m = (.ok lock, opened)) ↔
      LeadsToFree m.files m.locks.held (root.child name) := by
  constructor
  · rintro ⟨lock, opened, hacquire⟩
    obtain ⟨file, m', hopened, htaken⟩ := Action.outcome_bind_eq_ok hacquire
    rw [onFiles_outcome, openLockFile_child hdir hname] at hopened
    cases hopen : m.files.openFile (root.child name) with
    | error e =>
        rw [hopen] at hopened
        cases hopened
    | ok result =>
        obtain ⟨id, location, big⟩ := result
        rw [hopen] at hopened
        cases hopened
        have hid : file ∉ m.locks.held := by
          intro hmem
          obtain ⟨locks, hlocks, -⟩ := takeOpened_eq_ok htaken
          rw [take?_of_mem hmem] at hlocks
          cases hlocks
        obtain ⟨-, ⟨node, hplace, hnumber, -⟩ | ⟨_, _, hplace, -⟩⟩ := openFile_eq_ok hopen
        · exact ⟨_, hplace, file, hnumber, hid⟩
        · exact ⟨_, hplace, trivial⟩
  · intro hfree
    have hareFree : AreFree m.files m.locks.held root [name] :=
      ⟨⟨dir, hdir⟩, by simpa using hname, hheld, by simpa using hfree⟩
    obtain ⟨lock, opened, hacquire, -⟩ :=
      acquire_of_areFree hareFree (List.mem_singleton_self name) wait
    exact ⟨lock, opened, hacquire⟩

theorem acquire_of_isDirectory {dir : Location} (hdir : m.files.directoryAt? root = some dir)
    (hname : IsName name) (hlock : m.files.isDirectory (root.child name) = true) (wait : LockWait) :
    (acquire (root.child name) wait).outcome m =
      (.error (.io (root.child name) .isDirectory), m) := by
  have hslash := Path.endsWithSlash_child (directoryAt?_walk hdir).1.2.1 hname
  obtain ⟨location, hplace⟩ := (isDirectory_iff_place hslash).mp hlock
  have hopen : (openLockFile (root.child name)).outcome m.files =
      (.error (.io (root.child name) .isDirectory), m.files) := by
    rw [openLockFile_child hdir hname, openFile_of_present hslash hplace]
    rfl
  exact Action.outcome_bind_error (by rw [onFiles_outcome, hopen])

theorem acquire_accrues (path : Path) (wait : LockWait) (m : Machine ρ) :
    Accrues m.files ((acquire path wait).outcome m).2.files := by
  cases hopen : (openLockFile path).outcome m.files with
  | mk result files =>
      have haccrues := openLockFile_accrues hopen
      cases result with
      | error e =>
          have hfailed : (acquire path wait).outcome m = (.error e, { m with files }) :=
            Action.outcome_bind_error (by rw [onFiles_outcome, hopen])
          rw [hfailed]
          exact haccrues
      | ok file =>
          have hopened : (acquire path wait).outcome m =
              (takeOpened path wait file).outcome { m with files } :=
            Action.outcome_bind_ok (by rw [onFiles_outcome, hopen])
          rw [hopened]
          cases htaken : (takeOpened path wait file).outcome ({ m with files } : Machine ρ) with
          | mk result after =>
              cases result with
              | ok lock =>
                  obtain ⟨locks, -, -, rfl⟩ := takeOpened_eq_ok htaken
                  exact haccrues
              | error e =>
                  obtain ⟨-, rfl⟩ := takeOpened_eq_error htaken
                  exact haccrues

end CacheUpkeep.Lock
