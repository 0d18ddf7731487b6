import CacheUpkeep.Proofs.Command.Calls
import CacheUpkeep.Proofs.Lock.Jobs
import CacheUpkeep.Proofs.Lock.Wait

/-!
# Locks around actions

An action under a lock runs on a machine on which exactly one more file is locked,
and after it the locks are as they were before.
-/

namespace CacheUpkeep.Lock

open CacheUpkeep.FileSystem

variable {ρ ε α : Type} {m opened after : Machine ρ} {path : Path} {wait : LockWait}
  {lock : CacheLock}

theorem traced_onFiles {x : Action FileSystem ε α} {r : Except ε α} {files : FileSystem}
    (h : x.outcome m.files = (r, files)) :
    Traced (Machine.onFiles x) (Machine.onFiles x) m r { m with files } [] where
  plain := by rw [onFiles_outcome, h]
  recorded log := by
    have hlogged : x.outcome (m.withLog log).files = (r, files) := h
    rw [onFiles_outcome, hlogged, List.append_nil]
    rfl

theorem traced_takeOpened_of_notMem (path : Path) (wait : LockWait) {file : Nat}
    (hfree : file ∉ m.locks.held) :
    Traced (takeOpened path wait file) (takeOpened path wait file) m (.ok ⟨path, file⟩)
      { m with locks := ⟨file :: m.locks.held⟩ } [] where
  plain := by
    rw [takeOpened, Action.outcome_ofOutcome, take?_of_not_mem hfree]
  recorded log := by
    have hlogged : file ∉ (m.withLog log).locks.held := hfree
    rw [takeOpened, Action.outcome_ofOutcome, take?_of_not_mem hlogged, List.append_nil]
    rfl

theorem exists_takeOpened_error (path : Path) (wait : LockWait) (file : Nat) :
    ∃ e, ∀ {ρ : Type} (m : Machine ρ), file ∈ m.locks.held →
      (takeOpened path wait file).outcome m = (.error e, m) := by
  cases wait with
  | forever =>
      refine ⟨.neverReleased path, fun m hheld => ?_⟩
      rw [takeOpened, Action.outcome_ofOutcome, take?_of_mem hheld]
  | timeout limit =>
      obtain ⟨attempts, hwaited⟩ := waitWithTimeout_contended .steady (nanosPerMilli * limit)
      refine ⟨.timedOut path limit, fun m hheld => ?_⟩
      rw [takeOpened, Action.outcome_ofOutcome, take?_of_mem hheld]
      simp only [hwaited]

theorem traced_takeOpened_of_mem (path : Path) (wait : LockWait) {file : Nat}
    (hheld : file ∈ m.locks.held) :
    ∃ e, Traced (takeOpened path wait file) (takeOpened path wait file) m (.error e) m [] := by
  obtain ⟨e, hmissed⟩ := exists_takeOpened_error path wait file
  refine ⟨e, hmissed m hheld, fun log => ?_⟩
  rw [List.append_nil]
  exact hmissed (m.withLog log) hheld

theorem traced_acquire (path : Path) (wait : LockWait) (m : Machine ρ) :
    (∃ e after, Traced (acquire path wait) (acquire path wait) m (.error e) after [] ∧
      after.locks = m.locks) ∨
    ∃ file opened, Traced (acquire path wait) (acquire path wait) m (.ok ⟨path, file⟩) opened [] ∧
      Opens opened.files path file ∧ opened.locks.held = file :: m.locks.held := by
  cases hopen : (openLockFile path).outcome m.files with
  | mk result files =>
      have htraced := traced_onFiles hopen
      cases result with
      | error e => exact .inl ⟨e, _, htraced.bind_error, rfl⟩
      | ok file =>
          have hlocks : ({ m with files } : Machine ρ).locks.held = m.locks.held := rfl
          by_cases hheld : file ∈ m.locks.held
          · rw [← hlocks] at hheld
            obtain ⟨e, htaken⟩ := traced_takeOpened_of_mem path wait hheld
            exact .inl ⟨e, _, htraced.bind_ok htaken, rfl⟩
          · rw [← hlocks] at hheld
            have htaken := traced_takeOpened_of_notMem path wait hheld
            exact .inr ⟨file, _, htraced.bind_ok htaken, openLockFile_opens hopen, rfl⟩

theorem traced_withLock_error (wrap : LockError → ε) {e : LockError}
    {body : Action (Machine ρ) ε α} {body' : Action (Machine (ρ × List Call)) ε α}
    (h : Traced (acquire path wait) (acquire path wait) m (.error e) after []) :
    Traced (withLock wrap path wait body) (withLock wrap path wait body') m (.error (wrap e))
      after [] :=
  (h.mapError_error wrap).bind_error

theorem withLock_outcome (h : (acquire path wait).outcome m = (.ok lock, opened))
    (wrap : LockError → ε) (body : Action (Machine ρ) ε α) :
    (withLock wrap path wait body).outcome m =
      ((body.outcome opened).1, release lock (body.outcome opened).2) :=
  Action.outcome_bind_ok (Action.outcome_mapError_ok h)

theorem traced_withLock_ok (wrap : LockError → ε) {r : Except ε α} {calls : List Call}
    {body : Action (Machine ρ) ε α} {body' : Action (Machine (ρ × List Call)) ε α}
    (h : Traced (acquire path wait) (acquire path wait) m (.ok lock) opened [])
    (hbody : Traced body body' opened r after calls) :
    Traced (withLock wrap path wait body) (withLock wrap path wait body') m r
      (release lock after) calls := by
  have hreleased : Traced (Action.thenAlways body (release lock))
      (Action.thenAlways body' (release lock)) opened r (release lock after) calls := by
    refine ⟨?_, fun log => ?_⟩
    · rw [Action.thenAlways, Action.outcome_ofOutcome, hbody.plain]
    · rw [Action.thenAlways, Action.outcome_ofOutcome, hbody.recorded]
      rfl
  exact (h.mapError_ok wrap).bind_ok hreleased

end CacheUpkeep.Lock
