import CacheUpkeep.Proofs.Outcome
import CacheUpkeep.Proofs.Retention.Weeks
import CacheUpkeep.Proofs.Text.Decimal
import CacheUpkeep.Prune.ClangTidy

/-!
# Weeks of a clang-tidy prune

A prune of a clang-tidy cache runs one command with the whole weeks of the window, which a
dry run only reports.  What that command leaves is not out of the window by six days.
-/

namespace CacheUpkeep.Prune.ClangTidyCache

open CacheUpkeep.Text CacheUpkeep.Calendar CacheUpkeep.Calendar.Instant
  CacheUpkeep.RetentionWindow

variable {σ : Type} {w : RetentionWindow}

def report (c : ClangTidyCache) (policy : Policy) : Report where
  backend := "clang-tidy-cache"
  policy := policy
  transient := .none
  artifacts := .ofCommand (c.pruneCommand policy.window).line
  records := .none

theorem prune_dry (c : ClangTidyCache) (runner : CommandRunner σ) (w : RetentionWindow) (s : σ) :
    (prune (c.backend runner) ⟨w, true⟩).outcome s = (.ok (c.report ⟨w, true⟩), s) := rfl

theorem prune_real (c : ClangTidyCache) (runner : CommandRunner σ) (w : RetentionWindow) {s t : σ}
    {result : Except CommandError CommandOutput}
    (hrun : (runner.runChecked (c.pruneCommand w)).outcome s = (result, t)) :
    (prune (c.backend runner) ⟨w, false⟩).outcome s =
      ((result.map fun _ => c.report ⟨w, false⟩).mapError PruneError.command, t) := by
  have htransient : ((c.backend runner).cleanTransient false).outcome s = (.ok .none, s) := rfl
  rw [prune, Action.outcome_bind_ok htransient]
  cases result with
  | ok o =>
      have hartifacts : ((c.backend runner).removeStaleArtifacts w false).outcome s =
          (.ok (.ofCommand (c.pruneCommand w).line), t) :=
        Action.outcome_bind_ok (Action.outcome_mapError_ok hrun)
      rw [Action.outcome_bind_ok hartifacts]
      rfl
  | error e =>
      have hartifacts : ((c.backend runner).removeStaleArtifacts w false).outcome s =
          (.error (.command e), t) :=
        Action.outcome_bind_error (Action.outcome_mapError_error hrun)
      rw [Action.outcome_bind_error hartifacts]
      rfl

/-- The command of a prune carries this number, and a dry run reports the same command. -/
structure PassesWeeks (c : ClangTidyCache) (w : RetentionWindow) (weeks : Nat) : Prop where
  args : ∃ count, (c.pruneCommand w).args = ["prune", String.ofList count] ∧ IsNumeral count ∧
    digitsValue count = weeks
  dry : ∀ {σ : Type} (runner : CommandRunner σ) (s : σ),
    (prune (c.backend runner) ⟨w, true⟩).outcome s = (.ok (c.report ⟨w, true⟩), s)
  real : ∀ {σ : Type} (runner : CommandRunner σ) {s t : σ}
    {result : Except CommandError CommandOutput},
    (runner.runChecked (c.pruneCommand w)).outcome s = (result, t) →
      (prune (c.backend runner) ⟨w, false⟩).outcome s =
        ((result.map fun _ => c.report ⟨w, false⟩).mapError PruneError.command, t)

theorem passesWeeks (c : ClangTidyCache) (w : RetentionWindow) : c.PassesWeeks w w.wholeWeeks where
  args := ⟨digits w.wholeWeeks, rfl, isNumeral_digits _, digitsValue_digits _⟩
  dry runner s := prune_dry c runner w s
  real runner := prune_real c runner w

/--
The weeks of the command are the least number that covers the window.  What is that old is
out of the window, and what has been out of the window for six days is that old.
-/
theorem wholeWeeks_coverTightly (c : ClangTidyCache) (w : RetentionWindow) :
    w.FitsFormats ∧
      IsLeast {days | 7 ∣ days ∧ w.totalDays ≤ days} (7 * w.wholeWeeks) ∧
      (∀ lastUsed now : Instant,
        (w.wholeWeeks * nanosPerWeek ≤ now.since lastUsed → w.expired lastUsed now = true) ∧
        ((w.totalDays + 6) * nanosPerDay ≤ now.since lastUsed →
          w.wholeWeeks * nanosPerWeek ≤ now.since lastUsed)) ∧
      c.PassesWeeks w w.wholeWeeks :=
  ⟨w.fitsFormats, w.isLeast_wholeWeeks,
    fun _ _ => ⟨expired_of_weeks, weeks_le_since⟩, c.passesWeeks w⟩

namespace Sample

def cache : ClangTidyCache :=
  ⟨"clang-tidy-cache", ⟨["cache"]⟩⟩

def tenDays : RetentionWindow :=
  ⟨10, .days, by decide⟩

def lastUse : Instant :=
  ⟨⟨2024, 2, 20, by decide⟩, 7200, 0, by decide⟩

def clock : Instant :=
  ⟨⟨2024, 3, 7, by decide⟩, 7200, 0, by decide⟩

end Sample

/-- An entry that is six days past a window of ten days is two weeks old, and expired. -/
theorem wholeWeeks_coverTightly_sample :
    (Sample.tenDays.totalDays + 6) * nanosPerDay ≤ Sample.clock.since Sample.lastUse ∧
    2 * nanosPerWeek ≤ Sample.clock.since Sample.lastUse ∧
    Sample.tenDays.expired Sample.lastUse Sample.clock = true := by
  obtain ⟨-, -, hages, -⟩ := wholeWeeks_coverTightly Sample.cache Sample.tenDays
  have hpast : (Sample.tenDays.totalDays + 6) * nanosPerDay ≤
      Sample.clock.since Sample.lastUse := by decide
  have hweeks := (hages Sample.lastUse Sample.clock).2 hpast
  exact ⟨hpast, hweeks, (hages _ _).1 hweeks⟩

end CacheUpkeep.Prune.ClangTidyCache
