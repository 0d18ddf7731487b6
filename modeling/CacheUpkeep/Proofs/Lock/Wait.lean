import CacheUpkeep.Lock.Wait

/-!
# Timed waits

A timed wait goes on after a try that finds the lock contended while time is left, and
ends with any other try.  The clock passes the timeout after a bounded number of sleeps,
so every wait ends, and it ends with the first try that does not let it go on.
-/

namespace CacheUpkeep.Lock

variable {clock : PollClock} {timeout : Nat} {attempt : Nat → Attempt} {k n : Nat}
  {outcome : TimedOutcome}

def TimedOutcome.attempts : TimedOutcome → Nat
  | .acquired attempts => attempts
  | .failed attempts _ => attempts
  | .timedOut attempts => attempts

/-- The try numbered `k` finds the lock contended, and time is left after it. -/
def GoesOn (clock : PollClock) (timeout : Nat) (attempt : Nat → Attempt) (k : Nat) : Prop :=
  attempt k = .contended ∧ clock.reading k < timeout

/-- What a wait comes to that ends with the try numbered `k`. -/
inductive EndsWith (clock : PollClock) (timeout : Nat) (attempt : Nat → Attempt) (k : Nat) :
    TimedOutcome → Prop where
  | acquired (hfree : attempt k = .free) :
      EndsWith clock timeout attempt k (.acquired (k + 1))
  | failed {cause : IoError} (hfailed : attempt k = .failed cause) :
      EndsWith clock timeout attempt k (.failed (k + 1) cause)
  | timedOut (hcontended : attempt k = .contended) (hlate : timeout ≤ clock.reading k) :
      EndsWith clock timeout attempt k (.timedOut (k + 1))

theorem EndsWith.attempts_eq (h : EndsWith clock timeout attempt k outcome) :
    outcome.attempts = k + 1 := by
  cases h <;> rfl

/-! ## One try -/

theorem waitFrom_of_endsWith (h : EndsWith clock timeout attempt k outcome) :
    waitFrom clock timeout attempt k = outcome := by
  rw [waitFrom]
  cases h with
  | acquired hfree => simp only [hfree]
  | failed hfailed => simp only [hfailed]
  | timedOut hcontended hlate => simp only [hcontended, hlate, if_true]

theorem waitFrom_of_goesOn (h : GoesOn clock timeout attempt k) :
    waitFrom clock timeout attempt k = waitFrom clock timeout attempt (k + 1) := by
  obtain ⟨hcontended, hearly⟩ := h
  rw [waitFrom]
  simp only [hcontended, Nat.not_le.mpr hearly, if_false]

/-! ## A whole wait -/

theorem waitWithTimeout_of_goesOn (h : ∀ k < n, GoesOn clock timeout attempt k) :
    waitWithTimeout clock timeout attempt = waitFrom clock timeout attempt n := by
  induction n with
  | zero => rfl
  | succ n ih =>
      rw [ih fun k hk => h k (by omega)]
      apply waitFrom_of_goesOn
      exact h n (by omega)

theorem exists_endsWith (clock : PollClock) (timeout : Nat) (attempt : Nat → Attempt) (k : Nat) :
    ∃ n, k ≤ n ∧ (∀ j, k ≤ j → j < n → GoesOn clock timeout attempt j) ∧
      EndsWith clock timeout attempt n (waitFrom clock timeout attempt k) := by
  -- Each sleep uses up some of the time that is left, so this follows the calls of the wait.
  fun_induction waitFrom clock timeout attempt k with
  | case1 k hfree => exact ⟨k, Nat.le_refl k, by omega, .acquired hfree⟩
  | case2 k cause hfailed => exact ⟨k, Nat.le_refl k, by omega, .failed hfailed⟩
  | case3 k hcontended hlate => exact ⟨k, Nat.le_refl k, by omega, .timedOut hcontended hlate⟩
  | case4 k hcontended hearly ih =>
      obtain ⟨n, hk, hgoesOn, hends⟩ := ih
      refine ⟨n, by omega, fun j hj hjn => ?_, hends⟩
      by_cases hfirst : j = k
      · subst hfirst
        exact ⟨hcontended, by omega⟩
      · exact hgoesOn j (by omega) hjn

theorem waitWithTimeout_eq_iff :
    waitWithTimeout clock timeout attempt = outcome ↔
      ∃ n, (∀ k < n, GoesOn clock timeout attempt k) ∧
        EndsWith clock timeout attempt n outcome := by
  constructor
  · rintro rfl
    obtain ⟨n, -, hgoesOn, hends⟩ := exists_endsWith clock timeout attempt 0
    exact ⟨n, fun k hk => hgoesOn k (by omega) hk, hends⟩
  · rintro ⟨n, hgoesOn, hends⟩
    rw [waitWithTimeout_of_goesOn hgoesOn]
    exact waitFrom_of_endsWith hends

/-! ## How long a wait lasts -/

theorem PollClock.mul_le_reading (clock : PollClock) (k : Nat) :
    pollInterval * k ≤ clock.reading k := by
  induction k with
  | zero => simp
  | succ k ih =>
      have hadvances := clock.advances k
      rw [Nat.mul_succ]
      omega

theorem sleeps_lt (h : ∀ k < n, GoesOn clock timeout attempt k) :
    pollInterval * n < timeout + pollInterval := by
  cases n with
  | zero => simp [pollInterval, nanosPerMilli]
  | succ n =>
      have hearly := (h n (by omega)).2
      have hreading := clock.mul_le_reading n
      rw [Nat.mul_succ]
      omega

theorem waitWithTimeout_contended (clock : PollClock) (timeout : Nat) :
    ∃ attempts, waitWithTimeout clock timeout (fun _ => .contended) = .timedOut attempts := by
  generalize hwaited : waitWithTimeout clock timeout (fun _ => .contended) = outcome
  obtain ⟨n, -, hends⟩ := waitWithTimeout_eq_iff.mp hwaited
  cases hends with
  | acquired hfree => cases hfree
  | failed hfailed => cases hfailed
  | timedOut => exact ⟨n + 1, rfl⟩

/--
A timed wait ends, and its outcome is that of the first try that does not find the lock
contended, if time was left after each try before, and else that of the first contended
try after which the timeout has passed.  It tries at least once, and sleeps no more often
than the timeout has poll intervals, rounded up.
-/
theorem waitWithTimeout_isExact (clock : PollClock) (timeout : Nat) (attempt : Nat → Attempt) :
    (∀ outcome, waitWithTimeout clock timeout attempt = outcome ↔
      ∃ n, (∀ k < n, GoesOn clock timeout attempt k) ∧
        EndsWith clock timeout attempt n outcome) ∧
    (∃ sleeps, (waitWithTimeout clock timeout attempt).attempts = sleeps + 1 ∧
      pollInterval * sleeps < timeout + pollInterval) ∧
    (attempt 0 = .free → waitWithTimeout clock timeout attempt = .acquired 1) ∧
    ∀ attempts, waitWithTimeout clock timeout attempt = .timedOut attempts →
      ∃ last, attempts = last + 1 ∧ attempt last = .contended ∧ timeout ≤ clock.reading last := by
  refine ⟨fun outcome => waitWithTimeout_eq_iff, ?_, fun hfree => ?_, fun attempts htimedOut => ?_⟩
  · obtain ⟨n, hgoesOn, hends⟩ := waitWithTimeout_eq_iff.mp
      (rfl : waitWithTimeout clock timeout attempt = _)
    exact ⟨n, hends.attempts_eq, sleeps_lt hgoesOn⟩
  · apply waitFrom_of_endsWith
    exact .acquired hfree
  · obtain ⟨n, -, hends⟩ := waitWithTimeout_eq_iff.mp htimedOut
    cases hends with
    | timedOut hcontended hlate => exact ⟨n, rfl, hcontended, hlate⟩

namespace Sample

def lateClock : PollClock where
  reading k := (10 + 60 * k) * nanosPerMilli
  advances k := by
    simp only [pollInterval, nanosPerMilli]
    omega

def freedLate (k : Nat) : Attempt :=
  if k < 2 then .contended else .free

end Sample

/-- The third try comes after the timeout of 120 milliseconds; it gets the lock if that is free. -/
theorem waitWithTimeout_isExact_sample :
    waitWithTimeout Sample.lateClock (120 * nanosPerMilli) Sample.freedLate = .acquired 3 ∧
    waitWithTimeout Sample.lateClock (120 * nanosPerMilli) (fun _ => .contended) = .timedOut 3 ∧
    waitWithTimeout Sample.lateClock 0 (fun _ => .free) = .acquired 1 := by
  have hreading (k : Nat) (hk : k < 2) : Sample.lateClock.reading k < 120 * nanosPerMilli := by
    simp only [Sample.lateClock, nanosPerMilli]
    omega
  refine ⟨?_, ?_, (waitWithTimeout_isExact _ _ _).2.2.1 rfl⟩
  · apply ((waitWithTimeout_isExact _ _ _).1 _).mpr
    exact ⟨2, fun k hk => ⟨if_pos hk, hreading k hk⟩, .acquired rfl⟩
  · apply ((waitWithTimeout_isExact _ _ _).1 _).mpr
    exact ⟨2, fun k hk => ⟨rfl, hreading k hk⟩, .timedOut rfl (by decide)⟩

end CacheUpkeep.Lock
