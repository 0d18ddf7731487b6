import CacheUpkeep.Lock.Acquire
import CacheUpkeep.Proofs.FileSystem.Unlinking

/-!
# Lock files

A lock file that has been opened is opened again by its path, until its lock is
removed by force.  Opening the path then makes another lock file, on which no
lock is held.
-/

namespace CacheUpkeep.Lock

open CacheUpkeep.FileSystem

variable {fs big left : FileSystem} {path : Path} {file : Nat}
  {result : Except LockError Nat}

theorem openLockFile_outcome (path : Path) (fs : FileSystem) :
    ∃ above, Accrues fs above ∧
      ((∃ e, (openLockFile path).outcome fs = (.error e, above)) ∨
        (openLockFile path).outcome fs =
          match above.openFile path with
          | .ok (file, _, big) => (.ok file, big)
          | .error e => (.error (.io path e), above)) := by
  unfold openLockFile
  cases hparent : path.parent? with
  | none => exact ⟨fs, Accrues.refl fs, .inr rfl⟩
  | some parent =>
      dsimp only
      split
      · exact ⟨fs, Accrues.refl fs, .inr rfl⟩
      · have haccrues := makeChain_accrues fs parent.ancestors
        refine ⟨((makeDirectories parent).outcome fs).2, haccrues, ?_⟩
        cases hmade : (makeDirectories parent).outcome fs with
        | mk result above =>
            cases result with
            | error e =>
                have hfailed := Action.outcome_mapError_error (f := LockError.io parent) hmade
                exact .inl ⟨_, Action.outcome_bind_error hfailed⟩
            | ok value => exact .inr (Action.outcome_bind_ok (Action.outcome_mapError_ok hmade))

theorem openLockFile_accrues (h : (openLockFile path).outcome fs = (result, big)) :
    Accrues fs big := by
  obtain ⟨above, habove, ⟨e, herror⟩ | hopen⟩ := openLockFile_outcome path fs
  · rw [herror] at h
    cases h
    exact habove
  · rw [hopen] at h
    cases hfile : above.openFile path with
    | error e =>
        rw [hfile] at h
        cases h
        exact habove
    | ok opened =>
        obtain ⟨file, location, huge⟩ := opened
        rw [hfile] at h
        cases h
        exact habove.trans (openFile_accrues hfile)

theorem openLockFile_eq_ok (h : (openLockFile path).outcome fs = (.ok file, big)) :
    ∃ above location, Accrues fs above ∧ above.openFile path = .ok (file, location, big) := by
  obtain ⟨above, habove, ⟨e, herror⟩ | hopen⟩ := openLockFile_outcome path fs
  · rw [herror] at h
    cases h
  · rw [hopen] at h
    cases hfile : above.openFile path with
    | error e =>
        rw [hfile] at h
        cases h
    | ok opened =>
        obtain ⟨number, location, huge⟩ := opened
        rw [hfile] at h
        cases h
        exact ⟨above, location, habove, hfile⟩

theorem openLockFile_opens (h : (openLockFile path).outcome fs = (.ok file, big)) :
    Opens big path file := by
  obtain ⟨above, location, -, hopen⟩ := openLockFile_eq_ok h
  exact opens_of_openFile hopen

theorem openLockFile_lt (hfs : HasNumbersBelow fs)
    (h : (openLockFile path).outcome fs = (.ok file, big)) : file < big.nextFile := by
  obtain ⟨above, location, habove, hopen⟩ := openLockFile_eq_ok h
  exact lt_of_openFile (hfs.of_accrues habove) hopen

/-! ## In a directory that is there -/

theorem openLockFile_child {root : Path} {dir : Location} {name : String}
    (hdir : fs.directoryAt? root = some dir) (hname : IsName name) :
    (openLockFile (root.child name)).outcome fs =
      match fs.openFile (root.child name) with
      | .ok (file, _, big) => (.ok file, big)
      | .error e => (.error (.io (root.child name) e), fs) := by
  obtain ⟨parent, hparent, hnamed⟩ := directoryAt?_parent hdir hname
  obtain ⟨⟨-, hempty, -⟩, -⟩ := directoryAt?_walk hnamed
  unfold openLockFile
  rw [hparent]
  simp only [hempty, Bool.false_eq_true, if_false]
  refine (Action.outcome_bind_ok
    (Action.outcome_mapError_ok (makeDirectories_existing hnamed))).trans ?_
  cases hopen : fs.openFile (root.child name) <;> simp only [Action.outcome_ofOutcome, hopen]

theorem openLockFile_present {root : Path} {dir : Location} {name : String} {node : Node}
    (hdir : fs.directoryAt? root = some dir) (hname : IsName name)
    (hlong : isTooLong (root.child name) = false) (hnode : fs.node? (dir ++ [name]) = some node)
    (hnumber : node.number? = some file) :
    (openLockFile (root.child name)).outcome fs = (.ok file, fs) := by
  have hlink : ∀ target, fs.node? (dir ++ [name]) ≠ some (.link target) := by
    intro target htarget
    rw [hnode] at htarget
    cases htarget
    cases hnumber
  have hplace : fs.place true (root.child name) (root.child name).steps =
      .ok (.present (dir ++ [name]) node) := by
    rw [place_child hdir hname hlink, hlong, if_neg (by simp), entryIn, hnode]
  have hslash := Path.endsWithSlash_child (directoryAt?_walk hdir).1.2.1 hname
  rw [openLockFile_child hdir hname, openFile_of_present hslash hplace, hnumber]

theorem openLockFile_child_eq_ok {root : Path} {dir : Location} {name : String}
    (hdir : fs.directoryAt? root = some dir) (hname : IsName name)
    (hlink : ∀ target, fs.node? (dir ++ [name]) ≠ some (.link target))
    (h : (openLockFile (root.child name)).outcome fs = (.ok file, big)) :
    isTooLong (root.child name) = false ∧
      ((∃ node, fs.node? (dir ++ [name]) = some node ∧ node.number? = some file ∧ big = fs) ∨
        Adds fs big (dir ++ [name]) (.file file ByteArray.empty false) ∧ file = fs.nextFile ∧
          big.nextFile = file + 1) := by
  rw [openLockFile_child hdir hname] at h
  cases hopen : fs.openFile (root.child name) with
  | error e =>
      rw [hopen] at h
      cases h
  | ok opened =>
      obtain ⟨number, location, huge⟩ := opened
      rw [hopen] at h
      cases h
      obtain ⟨-, ⟨node, hplace, hnumber, rfl⟩ | ⟨above, free, hplace, rfl, rfl, rfl⟩⟩ :=
        openFile_eq_ok hopen
      · obtain ⟨hshort, ⟨found, hnode, heq⟩ | ⟨-, heq⟩⟩ :=
          place_child_eq_ok hdir hname hlink hplace
        · cases heq
          exact ⟨hshort, .inl ⟨node, hnode, hnumber, rfl⟩⟩
        · cases heq
      · obtain ⟨hshort, ⟨found, -, heq⟩ | ⟨hfree, heq⟩⟩ :=
          place_child_eq_ok hdir hname hlink hplace
        · cases heq
        · cases heq
          exact ⟨hshort, .inr ⟨adds_addFile fs _ _ hfree, rfl, rfl⟩⟩

/-! ## Removed by force -/

theorem forceUnlock_of_unlink (hunlink : fs.unlink path = .ok left) :
    (forceUnlock path).outcome fs = (.ok true, left) := by
  unfold forceUnlock
  rw [Action.outcome_ofOutcome, hunlink]

theorem forceUnlock_cases (path : Path) (fs : FileSystem) :
    (∃ left, fs.unlink path = .ok left) ∨ ((forceUnlock path).outcome fs).2 = fs := by
  cases hunlink : fs.unlink path with
  | ok left => exact .inl ⟨left, rfl⟩
  | error e =>
      unfold forceUnlock
      rw [Action.outcome_ofOutcome, hunlink]
      cases e <;> exact .inr rfl

/-- After a lock was removed by force its path opens a file that nobody has opened before. -/
theorem openLockFile_of_unlink (h : IsOrdinary fs)
    (hnames : ∀ name ∈ path.names, name.utf8ByteSize ≤ nameLimit)
    (hunlink : fs.unlink path = .ok left) :
    ∃ big, (openLockFile path).outcome left = (.ok left.nextFile, big) := by
  obtain ⟨location, big, hopen⟩ := openFile_of_unlink h hnames hunlink
  refine ⟨big, ?_⟩
  unfold openLockFile
  cases hparent : path.parent? with
  | none =>
      dsimp only
      rw [Action.outcome_ofOutcome, hopen]
  | some parent =>
      dsimp only
      split
      · rw [Action.outcome_ofOutcome, hopen]
      · next hempty =>
          obtain ⟨above, habove⟩ := parent?_of_unlink h hunlink hparent (by simpa using hempty)
          rw [Action.outcome_bind_ok
            (Action.outcome_mapError_ok (makeDirectories_existing habove)),
            Action.outcome_ofOutcome, hopen]

end CacheUpkeep.Lock
