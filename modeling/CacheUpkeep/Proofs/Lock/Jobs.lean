import CacheUpkeep.Proofs.Lock.LockFile
import Mathlib.Logic.Function.Basic

/-!
# Jobs that share a lock

Jobs of one machine take and release the lock of a path, one step at a time and
in any order: a job opens the lock file, locks the file that it has opened once
that is free, or gives up, and releases its lock.  In between the lock file is
removed by force.
-/

namespace CacheUpkeep.Lock

open CacheUpkeep.FileSystem

inductive Phase where
  | idle
  | waiting (file : Nat)
  | holding (lock : CacheLock)
deriving DecidableEq, Repr

def Phase.file? : Phase → Option Nat
  | .idle => none
  | .waiting file => some file
  | .holding lock => some lock.file

structure Site (ρ ι : Type) where
  machine : Machine ρ
  phase : ι → Phase

/-- What happens next; a forced removal is the turn of no job. -/
inductive Turn (ι : Type) where
  | openFile (job : ι)
  | lockFile (job : ι)
  | giveUp (job : ι)
  | release (job : ι)
  | forceUnlock
deriving DecidableEq, Repr

variable {ρ ι : Type} {path : Path} {s : Site ρ ι} {job other : ι} {file : Nat} {lock : CacheLock}
  {wait : LockWait} {machine : Machine ρ} {error : LockError} {turn : Turn ι}
  {schedule : List (Turn ι)}

/-- The held locks are those of the jobs, and each file is locked by one of them. -/
structure IsConsistent (s : Site ρ ι) : Prop where
  numbers : HasNumbersBelow s.machine.files
  below : ∀ job file, (s.phase job).file? = some file → file < s.machine.files.nextFile
  nodup : s.machine.locks.held.Nodup
  held_iff : ∀ file, file ∈ s.machine.locks.held ↔
    ∃ job lock, s.phase job = .holding lock ∧ lock.file = file
  once : ∀ job other lock lock', s.phase job = .holding lock → s.phase other = .holding lock' →
    lock.file = lock'.file → job = other

theorem IsConsistent.lt_of_held (h : IsConsistent s) (hheld : file ∈ s.machine.locks.held) :
    file < s.machine.files.nextFile := by
  obtain ⟨job, lock, hphase, rfl⟩ := (h.held_iff file).mp hheld
  exact h.below job _ (by rw [hphase, Phase.file?])

theorem IsConsistent.of_files (h : IsConsistent s) {files : FileSystem}
    (hnumbers : HasNumbersBelow files) (hnext : s.machine.files.nextFile ≤ files.nextFile) :
    IsConsistent (⟨{ s.machine with files }, s.phase⟩ : Site ρ ι) where
  numbers := hnumbers
  below job file hfile := Nat.lt_of_lt_of_le (h.below job file hfile) hnext
  nodup := h.nodup
  held_iff := h.held_iff
  once := h.once

/-! ## Turns -/

variable [DecidableEq ι]

/-- One turn; a job that can not take it stays where it stands. -/
def step (path : Path) (s : Site ρ ι) : Turn ι → Site ρ ι
  | .openFile job =>
      if s.phase job = .idle then
        match (Machine.onFiles (openLockFile path)).outcome s.machine with
        | (.ok file, machine) => ⟨machine, Function.update s.phase job (.waiting file)⟩
        | (.error _, machine) => ⟨machine, s.phase⟩
      else s
  | .lockFile job =>
      match s.phase job with
      | .waiting file =>
          match s.machine.locks.take? file with
          | some locks =>
              ⟨{ s.machine with locks }, Function.update s.phase job (.holding ⟨path, file⟩)⟩
          | none => s
      | .idle | .holding _ => s
  | .giveUp job =>
      match s.phase job with
      | .waiting _ => ⟨s.machine, Function.update s.phase job .idle⟩
      | .idle | .holding _ => s
  | .release job =>
      match s.phase job with
      | .holding lock => ⟨Lock.release lock s.machine, Function.update s.phase job .idle⟩
      | .idle | .waiting _ => s
  | .forceUnlock => ⟨((Machine.onFiles (forceUnlock path)).outcome s.machine).2, s.phase⟩

def run (path : Path) (schedule : List (Turn ι)) (s : Site ρ ι) : Site ρ ι :=
  schedule.foldl (step path) s

theorem run_append (path : Path) (first second : List (Turn ι)) (s : Site ρ ι) :
    run path (first ++ second) s = run path second (run path first s) :=
  List.foldl_append

/-! ## Turns that are taken -/

theorem take?_of_not_mem {locks : LockTable} (hfree : file ∉ locks.held) :
    locks.take? file = some ⟨file :: locks.held⟩ := by
  simp [LockTable.take?, LockTable.isHeld, hfree]

theorem take?_of_mem {locks : LockTable} (hheld : file ∈ locks.held) :
    locks.take? file = none := by
  simp [LockTable.take?, LockTable.isHeld, hheld]

theorem onFiles_outcome {ε α : Type} (x : Action FileSystem ε α) (m : Machine ρ) :
    (Machine.onFiles x).outcome m =
      ((x.outcome m.files).1, { m with files := (x.outcome m.files).2 }) := rfl

theorem step_openFile {files : FileSystem} (hidle : s.phase job = .idle)
    (hopen : (openLockFile path).outcome s.machine.files = (.ok file, files)) :
    step path s (.openFile job) =
      ⟨{ s.machine with files }, Function.update s.phase job (.waiting file)⟩ := by
  simp only [step, hidle, if_true, onFiles_outcome, hopen]

theorem step_lockFile (hwaiting : s.phase job = .waiting file)
    (hfree : file ∉ s.machine.locks.held) :
    step path s (.lockFile job) =
      ⟨{ s.machine with locks := ⟨file :: s.machine.locks.held⟩ },
        Function.update s.phase job (.holding ⟨path, file⟩)⟩ := by
  simp only [step, hwaiting, take?_of_not_mem hfree]

theorem step_giveUp (hfree : ∀ lock, s.phase job ≠ .holding lock) :
    step path s (.giveUp job) = ⟨s.machine, Function.update s.phase job .idle⟩ := by
  cases hphase : s.phase job with
  | idle =>
      simp only [step, hphase]
      rw [← hphase, Function.update_eq_self]
  | waiting file => simp only [step, hphase]
  | holding lock => exact absurd hphase (hfree lock)

theorem step_forceUnlock {left : FileSystem} (hunlink : s.machine.files.unlink path = .ok left) :
    step path s .forceUnlock = ⟨{ s.machine with files := left }, s.phase⟩ := by
  simp only [step, onFiles_outcome, forceUnlock_of_unlink hunlink]

/-! ## Taking a lock in one go -/

theorem takeOpened_eq_ok {m : Machine ρ}
    (h : (takeOpened path wait file).outcome m = (.ok lock, machine)) :
    ∃ locks, m.locks.take? file = some locks ∧ lock = ⟨path, file⟩ ∧
      machine = { m with locks } := by
  unfold takeOpened at h
  rw [Action.outcome_ofOutcome] at h
  cases htake : m.locks.take? file with
  | some locks =>
      rw [htake] at h
      cases h
      exact ⟨locks, rfl, rfl, rfl⟩
  | none =>
      rw [htake] at h
      cases wait with
      | forever => cases h
      | timeout limit =>
          dsimp only at h
          split at h <;> cases h

theorem takeOpened_eq_error {m : Machine ρ}
    (h : (takeOpened path wait file).outcome m = (.error error, machine)) :
    m.locks.take? file = none ∧ machine = m := by
  unfold takeOpened at h
  rw [Action.outcome_ofOutcome] at h
  cases htake : m.locks.take? file with
  | some locks =>
      rw [htake] at h
      cases h
  | none =>
      rw [htake] at h
      refine ⟨rfl, ?_⟩
      cases wait with
      | forever =>
          cases h
          rfl
      | timeout limit =>
          dsimp only at h
          split at h <;> cases h <;> rfl

/-- Acquiring the lock is to open its file and to lock that, or to give up. -/
def AcquiresInTurns (path : Path) (s : Site ρ ι) (job : ι) (wait : LockWait) : Prop :=
  match (acquire path wait).outcome s.machine with
  | (.ok lock, machine) =>
      run path [.openFile job, .lockFile job] s =
        ⟨machine, Function.update s.phase job (.holding lock)⟩
  | (.error _, machine) =>
      run path [.openFile job, .lockFile job, .giveUp job] s = ⟨machine, s.phase⟩

theorem run_of_acquire (hidle : s.phase job = .idle)
    (h : (acquire path wait).outcome s.machine = (.ok lock, machine)) :
    run path [.openFile job, .lockFile job] s =
      ⟨machine, Function.update s.phase job (.holding lock)⟩ := by
  obtain ⟨file, opened, hopen, htake⟩ := Action.outcome_bind_eq_ok h
  obtain ⟨locks, hlocks, rfl, rfl⟩ := takeOpened_eq_ok htake
  simp only [run, List.foldl_cons, List.foldl_nil, step, hidle, if_true, hopen,
    Function.update_self, hlocks, Function.update_idem]

theorem run_of_acquire_error (hidle : s.phase job = .idle)
    (h : (acquire path wait).outcome s.machine = (.error error, machine)) :
    run path [.openFile job, .lockFile job, .giveUp job] s = ⟨machine, s.phase⟩ := by
  cases hopen : (Machine.onFiles (openLockFile path)).outcome s.machine with
  | mk result opened =>
      cases result with
      | error e =>
          rw [acquire, Action.outcome_bind_error hopen] at h
          cases h
          simp only [run, List.foldl_cons, List.foldl_nil, step, hidle, if_true, hopen]
      | ok file =>
          rw [acquire, Action.outcome_bind_ok hopen] at h
          obtain ⟨hheld, rfl⟩ := takeOpened_eq_error h
          simp only [run, List.foldl_cons, List.foldl_nil, step, hidle, if_true, hopen,
            Function.update_self, hheld, Function.update_idem]
          rw [← hidle, Function.update_eq_self]

theorem acquiresInTurns (hidle : s.phase job = .idle) (wait : LockWait) :
    AcquiresInTurns path s job wait := by
  unfold AcquiresInTurns
  split
  · next hacquire => exact run_of_acquire hidle hacquire
  · next hacquire => exact run_of_acquire_error hidle hacquire

/-! ## What a turn can do -/

inductive Turns (path : Path) (s : Site ρ ι) : Turn ι → Site ρ ι → Prop where
  | stays (turn : Turn ι) : Turns path s turn s
  | fails {job : ι} {error : LockError} {files : FileSystem}
      (h : (openLockFile path).outcome s.machine.files = (.error error, files)) :
      Turns path s (.openFile job) ⟨{ s.machine with files }, s.phase⟩
  | opens {job : ι} {file : Nat} {files : FileSystem} (hidle : s.phase job = .idle)
      (h : (openLockFile path).outcome s.machine.files = (.ok file, files)) :
      Turns path s (.openFile job)
        ⟨{ s.machine with files }, Function.update s.phase job (.waiting file)⟩
  | locks {job : ι} {file : Nat} (hwaiting : s.phase job = .waiting file)
      (hfree : file ∉ s.machine.locks.held) :
      Turns path s (.lockFile job)
        ⟨{ s.machine with locks := ⟨file :: s.machine.locks.held⟩ },
          Function.update s.phase job (.holding ⟨path, file⟩)⟩
  | givesUp {job : ι} {file : Nat} (hwaiting : s.phase job = .waiting file) :
      Turns path s (.giveUp job) ⟨s.machine, Function.update s.phase job .idle⟩
  | releases {job : ι} {lock : CacheLock} (hholding : s.phase job = .holding lock) :
      Turns path s (.release job)
        ⟨{ s.machine with locks := ⟨s.machine.locks.held.erase lock.file⟩ },
          Function.update s.phase job .idle⟩
  | removes {left : FileSystem} (h : s.machine.files.unlink path = .ok left) :
      Turns path s .forceUnlock ⟨{ s.machine with files := left }, s.phase⟩

theorem step_turns (path : Path) (s : Site ρ ι) (turn : Turn ι) :
    Turns path s turn (step path s turn) := by
  cases turn with
  | openFile job =>
      simp only [step]
      split
      · next hidle =>
          rw [onFiles_outcome]
          cases hopen : (openLockFile path).outcome s.machine.files with
          | mk result files =>
              cases result with
              | ok file => exact .opens hidle hopen
              | error error => exact .fails hopen
      · exact .stays _
  | lockFile job =>
      simp only [step]
      cases hphase : s.phase job with
      | idle => exact .stays _
      | holding lock => exact .stays _
      | waiting file =>
          by_cases hheld : file ∈ s.machine.locks.held
          · simp only [take?_of_mem hheld]
            exact .stays _
          · simp only [take?_of_not_mem hheld]
            exact .locks hphase hheld
  | giveUp job =>
      simp only [step]
      cases hphase : s.phase job with
      | idle => exact .stays _
      | holding lock => exact .stays _
      | waiting file => exact .givesUp hphase
  | release job =>
      simp only [step]
      cases hphase : s.phase job with
      | idle => exact .stays _
      | waiting file => exact .stays _
      | holding lock => exact .releases hphase
  | forceUnlock =>
      simp only [step]
      rw [onFiles_outcome]
      rcases forceUnlock_cases path s.machine.files with ⟨left, hunlink⟩ | hsame
      · rw [forceUnlock_of_unlink hunlink]
        exact .removes hunlink
      · rw [hsame]
        exact .stays _

/-! ## What every order of turns keeps -/

namespace IsConsistent

/-- A job that holds no lock, neither before nor after, is free to change. -/
theorem of_phase (h : IsConsistent s) {phase : Phase}
    (hbefore : ∀ lock, s.phase job ≠ .holding lock) (hafter : ∀ lock, phase ≠ .holding lock)
    (hbelow : ∀ file, phase.file? = some file → file < s.machine.files.nextFile) :
    IsConsistent (⟨s.machine, Function.update s.phase job phase⟩ : Site ρ ι) := by
  have hholding : ∀ other lock, Function.update s.phase job phase other = .holding lock ↔
      s.phase other = .holding lock := by
    intro other lock
    by_cases hother : other = job
    · subst hother
      simp [hbefore, hafter]
    · rw [Function.update_of_ne hother]
  refine ⟨h.numbers, ?_, h.nodup, ?_, ?_⟩
  · intro other file hfile
    by_cases hother : other = job
    · subst hother
      exact hbelow file (by simpa using hfile)
    · exact h.below other file (by simpa [Function.update_of_ne hother] using hfile)
  · intro file
    simpa only [hholding] using h.held_iff file
  · simpa only [hholding] using h.once

theorem locks (h : IsConsistent s) (hwaiting : s.phase job = .waiting file)
    (hfree : file ∉ s.machine.locks.held) :
    IsConsistent (⟨{ s.machine with locks := ⟨file :: s.machine.locks.held⟩ },
      Function.update s.phase job (.holding ⟨path, file⟩)⟩ : Site ρ ι) := by
  have hholding : ∀ other lock,
      Function.update s.phase job (.holding ⟨path, file⟩) other = .holding lock ↔
        other = job ∧ lock = ⟨path, file⟩ ∨ s.phase other = .holding lock := by
    intro other lock
    by_cases hother : other = job
    · subst hother
      simp [hwaiting, eq_comm]
    · simp [hother]
  refine ⟨h.numbers, ?_, List.nodup_cons.mpr ⟨hfree, h.nodup⟩, ?_, ?_⟩
  · intro other number hnumber
    by_cases hother : other = job
    · subst hother
      refine h.below other number ?_
      simpa [Phase.file?, hwaiting] using hnumber
    · exact h.below other number (by simpa [Function.update_of_ne hother] using hnumber)
  · intro number
    simp only [hholding, List.mem_cons, h.held_iff number]
    constructor
    · rintro (rfl | ⟨other, lock, hlock, rfl⟩)
      · exact ⟨job, _, .inl ⟨rfl, rfl⟩, rfl⟩
      · exact ⟨other, lock, .inr hlock, rfl⟩
    · rintro ⟨other, lock, ⟨rfl, rfl⟩ | hlock, rfl⟩
      · exact .inl rfl
      · exact .inr ⟨other, lock, hlock, rfl⟩
  · intro first second lock lock' hfirst hsecond hfile
    rcases (hholding first lock).mp hfirst with ⟨rfl, rfl⟩ | hold
    · rcases (hholding second lock').mp hsecond with ⟨rfl, rfl⟩ | hold'
      · rfl
      · exact absurd ((h.held_iff file).mpr ⟨second, lock', hold', hfile.symm⟩) hfree
    · rcases (hholding second lock').mp hsecond with ⟨rfl, rfl⟩ | hold'
      · exact absurd ((h.held_iff file).mpr ⟨first, lock, hold, hfile⟩) hfree
      · exact h.once first second lock lock' hold hold' hfile

theorem releases (h : IsConsistent s) (hholds : s.phase job = .holding lock) :
    IsConsistent (⟨{ s.machine with locks := ⟨s.machine.locks.held.erase lock.file⟩ },
      Function.update s.phase job .idle⟩ : Site ρ ι) := by
  have hholding : ∀ other kept, Function.update s.phase job .idle other = .holding kept ↔
      other ≠ job ∧ s.phase other = .holding kept := by
    intro other kept
    by_cases hother : other = job
    · subst hother
      simp
    · simp [hother]
  refine ⟨h.numbers, ?_, h.nodup.erase _, ?_, ?_⟩
  · intro other file hfile
    by_cases hother : other = job
    · subst hother
      simp [Phase.file?] at hfile
    · exact h.below other file (by simpa [Function.update_of_ne hother] using hfile)
  · intro file
    simp only [hholding]
    rw [h.nodup.mem_erase_iff, h.held_iff file]
    constructor
    · rintro ⟨hne, other, kept, hkept, rfl⟩
      refine ⟨other, kept, ⟨?_, hkept⟩, rfl⟩
      rintro rfl
      rw [hholds] at hkept
      cases hkept
      exact hne rfl
    · rintro ⟨other, kept, ⟨hother, hkept⟩, rfl⟩
      exact ⟨fun hfile => hother (h.once other job kept lock hkept hholds hfile),
        other, kept, hkept, rfl⟩
  · intro first second kept kept' hfirst hsecond hfile
    exact h.once first second kept kept' ((hholding first kept).mp hfirst).2
      ((hholding second kept').mp hsecond).2 hfile

theorem step (h : IsConsistent s) (path : Path) (turn : Turn ι) :
    IsConsistent (Lock.step path s turn) := by
  have hturns := step_turns path s turn
  generalize Lock.step path s turn = after at hturns ⊢
  cases hturns with
  | stays => exact h
  | fails hopen =>
      have hfiles := openLockFile_accrues hopen
      exact h.of_files (h.numbers.of_accrues hfiles) hfiles.le
  | opens hidle hopen =>
      have hfiles := openLockFile_accrues hopen
      refine (h.of_files (h.numbers.of_accrues hfiles) hfiles.le).of_phase ?_ ?_ ?_
      · simp [hidle]
      · simp
      · intro number hnumber
        cases hnumber
        exact openLockFile_lt h.numbers hopen
  | locks hwaiting hfree => exact h.locks hwaiting hfree
  | givesUp hwaiting => exact h.of_phase (by simp [hwaiting]) (by simp) (by simp [Phase.file?])
  | releases hholding => exact h.releases hholding
  | removes hunlink =>
      obtain ⟨location, node, -, -, -, rfl⟩ := unlink_eq_ok hunlink
      exact h.of_files (h.numbers.without location) (Nat.le_refl _)

theorem run (h : IsConsistent s) (path : Path) (schedule : List (Turn ι)) :
    IsConsistent (Lock.run path schedule s) := by
  induction schedule generalizing s with
  | nil => exact h
  | cons turn rest ih => exact ih (h.step path turn)

end IsConsistent

end CacheUpkeep.Lock
