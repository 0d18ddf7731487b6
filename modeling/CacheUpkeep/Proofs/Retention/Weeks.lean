import CacheUpkeep.Proofs.Retention.Ages
import Mathlib.Order.Bounds.Defs

/-!
# Windows in whole weeks

The whole weeks of a window are the least number of weeks that covers it.  What is that
old is out of the window, and what has been out of the window for six days is that old.
The numbers are small: no step of computing them leaves the sized format it is done in.
-/

namespace CacheUpkeep.RetentionWindow

open CacheUpkeep.Calendar CacheUpkeep.Calendar.Instant CacheUpkeep.Number

variable {w : RetentionWindow} {lastUsed now : Instant}

/-! ## Sized formats -/

def totalDays64 (w : RetentionWindow) : Int64 :=
  match w.unit with
  | .days => Int64.ofNat w.amount
  | .weeks => Int64.ofNat w.amount * 7

def totalSeconds64 (w : RetentionWindow) : Int64 :=
  w.totalDays64 * 86400

def wholeWeeks32 (w : RetentionWindow) : UInt32 :=
  let amount := UInt32.ofNat w.amount
  match w.unit with
  | .days => if amount % 7 = 0 then amount / 7 else amount / 7 + 1
  | .weeks => amount

/-- Arithmetic that wraps around gives the numbers of the window itself. -/
structure FitsFormats (w : RetentionWindow) : Prop where
  days : w.totalDays64.toInt = w.totalDays
  seconds : w.totalSeconds64.toInt = w.totalSeconds
  /-- A span of time is limited by its milliseconds. -/
  milliseconds : 1000 * w.totalSeconds < signedLimit64
  weeks : w.wholeWeeks32.toNat = w.wholeWeeks

theorem toInt_mul_of_fits {a b : Int64} {m n : Int} (ha : a.toInt = m) (hb : b.toInt = n)
    (hlow : -9223372036854775808 ≤ m * n) (hhigh : m * n < 9223372036854775808) :
    (a * b).toInt = m * n := by
  rw [Int64.toInt_mul, ha, hb]
  exact Int.bmod_eq_of_le (by omega) (by omega)

theorem totalDays_lt (w : RetentionWindow) : w.totalDays < 7 * 4294967296 := by
  have hamount : w.amount < 4294967296 := w.amount_lt
  unfold totalDays
  cases w.unit <;> dsimp only <;> omega

theorem toInt_totalDays64 (w : RetentionWindow) : w.totalDays64.toInt = w.totalDays := by
  have hamount : w.amount < 4294967296 := w.amount_lt
  have hofNat : (Int64.ofNat w.amount).toInt = w.amount := Int64.toInt_ofNat_of_lt (by omega)
  unfold totalDays64 totalDays
  cases w.unit with
  | days => exact hofNat
  | weeks =>
      have hmul : (Int64.ofNat w.amount * 7).toInt = w.amount * 7 :=
        toInt_mul_of_fits hofNat rfl (by omega) (by omega)
      dsimp only
      omega

theorem toInt_totalSeconds64 (w : RetentionWindow) : w.totalSeconds64.toInt = w.totalSeconds := by
  have hdays := w.totalDays_lt
  have hmul : (w.totalDays64 * 86400).toInt = w.totalDays * 86400 :=
    toInt_mul_of_fits (toInt_totalDays64 w) rfl (by omega) (by omega)
  rw [totalSeconds64, hmul, totalSeconds, secondsPerDay]
  omega

theorem toNat_wholeWeeks32 (w : RetentionWindow) : w.wholeWeeks32.toNat = w.wholeWeeks := by
  have hamount : w.amount < 4294967296 := w.amount_lt
  have hofNat : (UInt32.ofNat w.amount).toNat = w.amount := UInt32.toNat_ofNat_of_lt' hamount
  have hdiv : (UInt32.ofNat w.amount / 7).toNat = w.amount / 7 := by
    rw [UInt32.toNat_div, hofNat]
    rfl
  have hzero : UInt32.ofNat w.amount % 7 = 0 ↔ w.amount % 7 = 0 := by
    rw [← UInt32.toNat_inj, UInt32.toNat_mod, hofNat]
    rfl
  unfold wholeWeeks32 wholeWeeks
  cases w.unit with
  | weeks => exact hofNat
  | days =>
      simp only [hzero]
      split
      · rw [hdiv]
        omega
      · have hadd : (UInt32.ofNat w.amount / 7 + 1).toNat = w.amount / 7 + 1 := by
          rw [UInt32.toNat_add, hdiv, UInt32.toNat_one, Nat.mod_eq_of_lt (by omega)]
        rw [hadd]
        omega

theorem fitsFormats (w : RetentionWindow) : w.FitsFormats where
  days := toInt_totalDays64 w
  seconds := toInt_totalSeconds64 w
  milliseconds := by
    have hdays := w.totalDays_lt
    have hlimit : signedLimit64 = 9223372036854775808 := rfl
    rw [totalSeconds, secondsPerDay, hlimit]
    omega
  weeks := toNat_wholeWeeks32 w

/-! ## Rounding -/

theorem wholeWeeks_bounds (w : RetentionWindow) :
    w.totalDays ≤ 7 * w.wholeWeeks ∧ 7 * w.wholeWeeks ≤ w.totalDays + 6 := by
  unfold totalDays wholeWeeks
  cases w.unit <;> dsimp only <;> omega

theorem isLeast_wholeWeeks (w : RetentionWindow) :
    IsLeast {days | 7 ∣ days ∧ w.totalDays ≤ days} (7 * w.wholeWeeks) := by
  obtain ⟨hlower, hupper⟩ := w.wholeWeeks_bounds
  refine ⟨⟨Nat.dvd_mul_right 7 _, hlower⟩, ?_⟩
  rintro days ⟨⟨weeks, rfl⟩, hdays⟩
  omega

/-! ## Ages in weeks -/

def nanosPerWeek : Int :=
  7 * nanosPerDay

theorem expired_iff_since :
    w.expired lastUsed now = true ↔ w.totalDays * nanosPerDay ≤ now.since lastUsed := by
  rw [expired_iff, daysSince, Int.le_ediv_iff_mul_le (by decide)]

theorem expired_of_weeks (h : w.wholeWeeks * nanosPerWeek ≤ now.since lastUsed) :
    w.expired lastUsed now = true := by
  have hbounds := w.wholeWeeks_bounds
  rw [expired_iff_since]
  simp only [nanosPerWeek, nanosPerDay] at h ⊢
  omega

theorem weeks_le_since (h : (w.totalDays + 6) * nanosPerDay ≤ now.since lastUsed) :
    w.wholeWeeks * nanosPerWeek ≤ now.since lastUsed := by
  have hbounds := w.wholeWeeks_bounds
  simp only [nanosPerWeek, nanosPerDay] at h ⊢
  omega

end CacheUpkeep.RetentionWindow
