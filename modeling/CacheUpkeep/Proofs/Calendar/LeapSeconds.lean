import CacheUpkeep.Calendar.Instant

/-!
# Leap seconds within a minute

Clocks insert leap seconds at the end of a minute.  An instant may have the
nanoseconds of a leap second after any other second as well; these are carried
to the second after it, which makes no instant older.
-/

namespace CacheUpkeep.Calendar.Instant

/-- Leap seconds end a minute. -/
def IsRegular (t : Instant) : Prop :=
  nanosPerSecond ≤ t.nano → t.second % 60 = 59

instance (t : Instant) : Decidable t.IsRegular := by
  unfold IsRegular
  infer_instance

theorem isTime_carried {t : Instant} (h : ¬ t.IsRegular) :
    IsTime (t.second + 1) (t.nano - nanosPerSecond) := by
  obtain ⟨hsecond, hnano⟩ := t.isTime
  simp only [IsRegular, IsTime, secondsPerDay, nanosPerSecond] at *
  omega

/-- The instant with a leap second that does not end a minute carried to the next second. -/
def carried (t : Instant) : Instant :=
  if h : t.IsRegular then t
  else ⟨t.date, t.second + 1, t.nano - nanosPerSecond, isTime_carried h⟩

theorem carried_eq_self {t : Instant} (h : t.IsRegular) : t.carried = t :=
  dif_pos h

theorem isRegular_carried (t : Instant) : t.carried.IsRegular := by
  by_cases h : t.IsRegular
  · rwa [carried_eq_self h]
  · obtain ⟨hsecond, hnano⟩ := t.isTime
    rw [carried, dif_neg h]
    simp only [IsRegular, nanosPerSecond] at *
    omega

theorem carried_eq_self_iff {t : Instant} : t.carried = t ↔ t.IsRegular :=
  ⟨fun h => h ▸ isRegular_carried t, carried_eq_self⟩

theorem date_carried (t : Instant) : t.carried.date = t.date := by
  unfold carried
  split <;> rfl

/-- Carrying takes away a second at most, and adds nothing to an age. -/
theorem since_carried (now t : Instant) :
    now.since t.carried = now.since t ∨ now.since t.carried = now.since t - nanosPerSecond := by
  by_cases h : t.IsRegular
  · exact .inl (by rw [carried_eq_self h])
  · have hday : secondsPerDay = 86400 := rfl
    have hnanos : nanosPerSecond = 1000000000 := rfl
    obtain ⟨hleap, -⟩ := Classical.not_imp.mp h
    have hnano := t.isTime.2
    have hnano' := now.isTime.2
    rw [carried, dif_neg h]
    simp only [since, hday, hnanos, Bool.and_eq_true, decide_eq_true_eq] at *
    split <;> split <;> omega

theorem since_carried_le (now t : Instant) : now.since t.carried ≤ now.since t := by
  have hnanos : nanosPerSecond = 1000000000 := rfl
  rcases since_carried now t with h | h <;> omega

end CacheUpkeep.Calendar.Instant
