import CacheUpkeep.Proofs.Lock.Jobs
import Mathlib.Logic.Nontrivial.Defs

/-!
# When a lock excludes

A lock excludes as long as its file is removed only while no job has opened it.
Otherwise the lock is on two files: a job that has opened the removed one locks
that, another job makes the file anew and locks it as well.
-/

namespace CacheUpkeep.Lock

open CacheUpkeep.FileSystem

variable {ρ ι : Type} {path : Path} {s : Site ρ ι} {job other : ι} {file : Nat} {lock : CacheLock}
  {turn : Turn ι} {schedule front rest : List (Turn ι)}

def IsExclusive (s : Site ρ ι) : Prop :=
  ∀ job other lock lock', s.phase job = .holding lock → s.phase other = .holding lock' →
    job = other

structure IsStart (s : Site ρ ι) : Prop where
  idle : ∀ job, s.phase job = .idle
  free : s.machine.locks.held = []
  wellFormed : s.machine.files.WellFormed

theorem IsStart.isConsistent (h : IsStart s) : IsConsistent s where
  numbers := h.wellFormed.hasNumbersBelow
  below := by simp [h.idle, Phase.file?]
  nodup := by simp [h.free]
  held_iff := by simp [h.free, h.idle]
  once := by simp [h.idle]

/-- A forced removal that finds all jobs idle, or nothing to remove. -/
def IsQuiet (path : Path) (s : Site ρ ι) : Prop :=
  (∀ job, s.phase job = .idle) ∨ ((forceUnlock path).outcome s.machine.files).2 = s.machine.files

def IsSettled (path : Path) (s : Site ρ ι) : Prop :=
  ∀ job file, (s.phase job).file? = some file → Opens s.machine.files path file

theorem IsStart.isSettled (h : IsStart s) : IsSettled path s := by
  intro job file hfile
  simp [h.idle, Phase.file?] at hfile

theorem IsSettled.isExclusive (h : IsSettled path s) (hs : IsConsistent s) : IsExclusive s := by
  intro job other lock lock' hlock hlock'
  have hopens := h job lock.file (by rw [hlock, Phase.file?])
  have hopens' := h other lock'.file (by rw [hlock', Phase.file?])
  exact hs.once job other lock lock' hlock hlock' (hopens.unique hopens')

theorem IsSettled.of_accrues (h : IsSettled path s) {files : FileSystem}
    (hfiles : Accrues s.machine.files files) :
    IsSettled path (⟨{ s.machine with files }, s.phase⟩ : Site ρ ι) :=
  fun job file hfile => (h job file hfile).of_accrues hfiles

variable [DecidableEq ι]

def OnlyQuietUnlocks (path : Path) (s : Site ρ ι) (schedule : List (Turn ι)) : Prop :=
  ∀ front, front ++ [.forceUnlock] <+: schedule → IsQuiet path (run path front s)

/-- The lock excludes at any time, also if from then on the jobs are on their own. -/
def IsSecure (path : Path) (s : Site ρ ι) (schedule : List (Turn ι)) : Prop :=
  ∀ front rest, front <+: schedule → .forceUnlock ∉ rest → IsExclusive (run path (front ++ rest) s)

/-! ## Quiet removals -/

theorem IsSettled.of_phase (h : IsSettled path s) {machine : Machine ρ} {phase : Phase}
    (hfiles : machine.files = s.machine.files)
    (hphase : ∀ file, phase.file? = some file → Opens s.machine.files path file) :
    IsSettled path (⟨machine, Function.update s.phase job phase⟩ : Site ρ ι) := by
  intro other file hfile
  rw [hfiles]
  by_cases hother : other = job
  · subst hother
    exact hphase file (by simpa using hfile)
  · exact h other file (by simpa [Function.update_of_ne hother] using hfile)

theorem IsSettled.step (h : IsSettled path s) (hquiet : turn = .forceUnlock → IsQuiet path s) :
    IsSettled path (Lock.step path s turn) := by
  have hturns := step_turns path s turn
  generalize Lock.step path s turn = after at hturns ⊢
  cases hturns with
  | stays => exact h
  | fails hopen => exact h.of_accrues (openLockFile_accrues hopen)
  | opens hidle hopen =>
      refine (h.of_accrues (openLockFile_accrues hopen)).of_phase rfl ?_
      intro number hnumber
      cases hnumber
      exact openLockFile_opens hopen
  | @locks job file hwaiting hfree =>
      refine h.of_phase rfl fun number hnumber => h job number ?_
      rw [hwaiting, ← hnumber]
      rfl
  | givesUp hwaiting => exact h.of_phase rfl fun number hnumber => by cases hnumber
  | releases hholding => exact h.of_phase rfl fun number hnumber => by cases hnumber
  | removes hunlink =>
      rcases hquiet rfl with hidle | hsame
      · intro job file hfile
        simp [hidle, Phase.file?] at hfile
      · rw [forceUnlock_of_unlink hunlink] at hsame
        cases hsame
        exact h

theorem IsSettled.run (h : IsSettled path s) (hquiet : OnlyQuietUnlocks path s schedule) :
    IsSettled path (Lock.run path schedule s) := by
  induction schedule generalizing s with
  | nil => exact h
  | cons turn rest ih =>
      refine ih (h.step fun hforce => hquiet [] ?_) fun front hfront => ?_
      · rw [hforce]
        exact ⟨rest, rfl⟩
      · exact hquiet (turn :: front) (List.cons_prefix_cons.mpr ⟨rfl, hfront⟩)

theorem onlyQuietUnlocks_of_notMem (h : .forceUnlock ∉ schedule) :
    OnlyQuietUnlocks path s schedule := by
  intro front hfront
  exact absurd (hfront.subset (by simp)) h

theorem OnlyQuietUnlocks.of_prefix (h : OnlyQuietUnlocks path s schedule)
    (hfront : front <+: schedule) : OnlyQuietUnlocks path s front :=
  fun first hfirst => h first (hfirst.trans hfront)

theorem isSecure_of_onlyQuietUnlocks (hstart : IsStart s)
    (hquiet : OnlyQuietUnlocks path s schedule) : IsSecure path s schedule := by
  intro front rest hfront hrest
  have hfirst : IsSettled path (run path front s) :=
    hstart.isSettled.run (hquiet.of_prefix hfront)
  rw [run_append]
  exact (hfirst.run (onlyQuietUnlocks_of_notMem hrest)).isExclusive
    ((hstart.isConsistent.run path front).run path rest)

/-! ## Other removals -/

theorem isOrdinary_step (h : IsOrdinary s.machine.files) :
    IsOrdinary (step path s turn).machine.files := by
  have hturns := step_turns path s turn
  generalize step path s turn = after at hturns ⊢
  cases hturns with
  | stays => exact h
  | fails hopen => exact h.of_accrues (openLockFile_accrues hopen)
  | opens hidle hopen => exact h.of_accrues (openLockFile_accrues hopen)
  | locks hwaiting hfree => exact h
  | givesUp hwaiting => exact h
  | releases hholding => exact h
  | removes hunlink => exact h.of_unlink hunlink

theorem isOrdinary_run (h : IsOrdinary s.machine.files) :
    IsOrdinary (run path schedule s).machine.files := by
  induction schedule generalizing s with
  | nil => exact h
  | cons turn rest ih => exact ih (isOrdinary_step h)

/-- Whoever holds the lock, a job that makes the lock file anew takes it as well. -/
theorem not_isExclusive_of_new_file {big : FileSystem} (hs : IsConsistent s)
    (hholds : s.phase job = .holding lock) (hother : ∀ lock, s.phase other ≠ .holding lock)
    (hopen : (openLockFile path).outcome s.machine.files = (.ok s.machine.files.nextFile, big)) :
    ¬ IsExclusive (run path [.giveUp other, .openFile other, .lockFile other] s) := by
  have hne : job ≠ other := by
    rintro rfl
    exact hother lock hholds
  have hfree : s.machine.files.nextFile ∉ s.machine.locks.held := fun hheld =>
    Nat.lt_irrefl _ (hs.lt_of_held hheld)
  have hopened : step path ⟨s.machine, Function.update s.phase other .idle⟩ (.openFile other) =
      ⟨{ s.machine with files := big },
        Function.update s.phase other (.waiting s.machine.files.nextFile)⟩ := by
    have h := step_openFile (s := ⟨s.machine, Function.update s.phase other .idle⟩)
      (Function.update_self other .idle s.phase) hopen
    rwa [Function.update_idem] at h
  have hlocked : step path ⟨{ s.machine with files := big },
      Function.update s.phase other (.waiting s.machine.files.nextFile)⟩ (.lockFile other) = _ :=
    step_lockFile (Function.update_self ..) hfree
  have hrun : (run path [.giveUp other, .openFile other, .lockFile other] s).phase =
      Function.update s.phase other (.holding ⟨path, s.machine.files.nextFile⟩) := by
    rw [run, List.foldl_cons, step_giveUp hother, List.foldl_cons, hopened, List.foldl_cons,
      hlocked, List.foldl_nil, Function.update_idem]
  intro hexclusive
  unfold IsExclusive at hexclusive
  rw [hrun] at hexclusive
  exact hne (hexclusive job other lock ⟨path, s.machine.files.nextFile⟩
    (by rw [Function.update_of_ne hne, hholds]) (Function.update_self ..))

theorem exists_break {big : FileSystem} (hs : IsConsistent s) (hexclusive : IsExclusive s)
    (hjobs : ∃ first second : ι, first ≠ second) (hbusy : s.phase job ≠ .idle)
    (hopen : (openLockFile path).outcome s.machine.files = (.ok s.machine.files.nextFile, big)) :
    ∃ rest, .forceUnlock ∉ rest ∧ ¬ IsExclusive (run path rest s) := by
  have : Nontrivial ι := ⟨hjobs⟩
  by_cases hheld : ∃ holder lock, s.phase holder = .holding lock
  · -- The holder keeps its lock on the removed file.
    obtain ⟨holder, lock, hholds⟩ := hheld
    obtain ⟨other, hne⟩ := exists_ne holder
    have hother : ∀ lock', s.phase other ≠ .holding lock' := fun lock' hlock' =>
      hne (hexclusive other holder lock' lock hlock' hholds)
    exact ⟨[.giveUp other, .openFile other, .lockFile other], by simp,
      not_isExclusive_of_new_file hs hholds hother hopen⟩
  · -- The job that has opened the removed file locks it first.
    have hnobody : ∀ holder lock, s.phase holder ≠ .holding lock := fun holder lock hholds =>
      hheld ⟨holder, lock, hholds⟩
    obtain ⟨other, hne⟩ := exists_ne job
    obtain ⟨file, hwaiting⟩ : ∃ file, s.phase job = .waiting file := by
      cases hphase : s.phase job with
      | idle => exact absurd hphase hbusy
      | waiting file => exact ⟨file, rfl⟩
      | holding lock => exact absurd hphase (hnobody job lock)
    have hfree : file ∉ s.machine.locks.held := by
      intro hmem
      obtain ⟨holder, lock, hholds, -⟩ := (hs.held_iff file).mp hmem
      exact hnobody holder lock hholds
    refine ⟨[.lockFile job, .giveUp other, .openFile other, .lockFile other], by simp, ?_⟩
    rw [run, List.foldl_cons, step_lockFile hwaiting hfree]
    refine not_isExclusive_of_new_file (hs.locks hwaiting hfree) (Function.update_self ..) ?_ hopen
    intro lock
    simpa [Function.update_of_ne hne] using hnobody other lock

theorem onlyQuietUnlocks_of_isSecure (hstart : IsStart s)
    (hjobs : ∃ first second : ι, first ≠ second) (hordinary : IsOrdinary s.machine.files)
    (hnames : ∀ name ∈ path.names, name.utf8ByteSize ≤ nameLimit)
    (hsecure : IsSecure path s schedule) : OnlyQuietUnlocks path s schedule := by
  intro front hfront
  rcases forceUnlock_cases path (run path front s).machine.files with ⟨left, hunlink⟩ | hsame
  · by_contra hloud
    obtain ⟨job, hbusy⟩ : ∃ job, (run path front s).phase job ≠ .idle := by
      by_contra hnone
      exact hloud (.inl fun job => by_contra fun hjob => hnone ⟨job, hjob⟩)
    obtain ⟨big, hopen⟩ := openLockFile_of_unlink (isOrdinary_run hordinary) hnames hunlink
    have hremoved := step_forceUnlock hunlink
    have hexclusive := hsecure (front ++ [.forceUnlock]) [] hfront (by simp)
    rw [List.append_nil, run_append] at hexclusive
    obtain ⟨rest, hrest, hbreak⟩ := exists_break
      ((hstart.isConsistent.run path front).step path .forceUnlock) hexclusive hjobs
      (by rw [hremoved]; exact hbusy) (by rw [hremoved]; exact hopen)
    have hafter := hsecure (front ++ [.forceUnlock]) rest hfront hrest
    rw [run_append, run_append] at hafter
    exact hbreak hafter
  · exact .inr hsame

/-! ## The exact condition -/

/--
The lock excludes whatever the jobs do exactly if its file is never removed while a
job has opened it.  That it breaks otherwise takes two jobs, an ordinary file system
and a path of a lock file whose names are not too long to be made anew.  To acquire the
lock in one go comes to the same as the turns of the job.
-/
theorem lock_excludes_exactly (path : Path) (schedule : List (Turn ι)) (hstart : IsStart s) :
    (OnlyQuietUnlocks path s schedule → IsSecure path s schedule) ∧
      ((∃ first second : ι, first ≠ second) → IsOrdinary s.machine.files →
        (∀ name ∈ path.names, name.utf8ByteSize ≤ nameLimit) →
          IsSecure path s schedule → OnlyQuietUnlocks path s schedule) ∧
      ∀ job wait, (run path schedule s).phase job = .idle →
        AcquiresInTurns path (run path schedule s) job wait :=
  ⟨isSecure_of_onlyQuietUnlocks hstart, onlyQuietUnlocks_of_isSecure hstart,
    fun _ wait hidle => acquiresInTurns hidle wait⟩

def Sample.site : Site Unit Bool :=
  ⟨⟨FileSystem.empty, LockTable.empty, ⟨0, 0, 0⟩, ()⟩, fun _ => .idle⟩

theorem Sample.isStart : IsStart Sample.site where
  idle _ := rfl
  free := rfl
  wellFormed := ⟨.nil, by simp [Sample.site, FileSystem.empty],
    by simp [Sample.site, FileSystem.empty], .nil, by simp [Sample.site, FileSystem.empty]⟩

/-- A removal after a job has released its lock is harmless, one before it has locked is not. -/
theorem lock_excludes_exactly_sample :
    IsStart Sample.site ∧
      IsSecure ⟨["prune.lock"]⟩ Sample.site
        [.openFile true, .lockFile true, .release true, .forceUnlock] ∧
      ¬ IsSecure ⟨["prune.lock"]⟩ Sample.site [.openFile true, .forceUnlock] := by
  refine ⟨Sample.isStart, (lock_excludes_exactly _ _ Sample.isStart).1 ?_, fun hsecure => ?_⟩
  · intro front hfront
    obtain rfl : front = [.openFile true, .lockFile true, .release true] := by
      rcases front with _ | ⟨a, _ | ⟨b, _ | ⟨c, _ | ⟨d, front⟩⟩⟩⟩ <;> simp_all
    left
    decide
  · have hordinary : IsOrdinary Sample.site.machine.files := by
      refine ⟨fun l target hlink => ?_, fun l hl => ?_⟩
      · cases l <;> cases hlink
      · rw [List.prefix_nil.mp hl]
        rfl
    have hquiet := (lock_excludes_exactly _ _ Sample.isStart).2.1 ⟨true, false, by decide⟩ hordinary
      (by decide) hsecure [.openFile true] List.prefix_rfl
    rcases hquiet with hidle | hsame
    · exact absurd (hidle true) (by decide)
    · have hcount := congrArg (fun files => files.entries.length) hsame
      exact absurd hcount (by decide)

end CacheUpkeep.Lock
