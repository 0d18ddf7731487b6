import CacheUpkeep.Proofs.Calendar.LeapSeconds
import CacheUpkeep.Retention

/-!
# Ages in whole days

A window is a number of whole days, so that only the whole days of an age count.  These
agree with the order of instants but for the leap second that ends a day: the difference
of two instants puts it over the first second of the next day, which is later in order.
-/

namespace CacheUpkeep.Calendar.Instant

variable {s t earlier later now : Instant}

def nanosPerDay : Int :=
  86400000000000

def day (t : Instant) : Int :=
  t.date.dayNumber

def daysSince (t s : Instant) : Int :=
  t.since s / nanosPerDay

end CacheUpkeep.Calendar.Instant

namespace CacheUpkeep.RetentionWindow

open CacheUpkeep.Calendar CacheUpkeep.Calendar.Instant

variable {w : RetentionWindow} {earlier later lastUsed now : Instant}

theorem expired_iff :
    w.expired lastUsed now = true ↔ (w.totalDays : Int) ≤ now.daysSince lastUsed := by
  have hspan : ((w.totalSeconds * nanosPerSecond : Nat) : Int) = w.totalDays * nanosPerDay := by
    have hday : secondsPerDay = 86400 := rfl
    have hsecond : nanosPerSecond = 1000000000 := rfl
    simp only [totalSeconds, nanosPerDay, hday, hsecond]
    omega
  rw [expired, decide_eq_true_eq, hspan, daysSince, Int.le_ediv_iff_mul_le (by decide)]

end CacheUpkeep.RetentionWindow
