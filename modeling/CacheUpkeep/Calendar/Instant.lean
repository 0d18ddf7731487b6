import CacheUpkeep.Calendar.Date

/-!
# Instants

An instant is a day with a second of the day and nanoseconds.  In a leap second
there are `10 ^ 9` nanoseconds or more, so that the order of instants is the
lexicographic order of their parts.  Clocks insert leap seconds before a full
minute only, but an instant may have such nanoseconds after any second.
-/

namespace CacheUpkeep.Calendar

def secondsPerDay : Nat := 86400

def nanosPerSecond : Nat := 1000000000

def IsTime (second nano : Nat) : Prop :=
  second < secondsPerDay ∧ nano < 2 * nanosPerSecond

instance (second nano : Nat) : Decidable (IsTime second nano) := by
  unfold IsTime
  infer_instance

structure Instant where
  date : Date
  second : Nat
  nano : Nat
  isTime : IsTime second nano
deriving DecidableEq, Repr

namespace Instant

def of? (date : Date) (second nano : Nat) : Option Instant :=
  if h : IsTime second nano then some ⟨date, second, nano, h⟩ else none

/-- The parts in order of weight, with the day as its number. -/
def parts (t : Instant) : Int × Nat × Nat :=
  (t.date.dayNumber, t.second, t.nano)

/-- Earlier in time, with a leap second after the second that it extends. -/
def before (a b : Instant) : Bool :=
  a.date.dayNumber < b.date.dayNumber ||
    (a.date.dayNumber == b.date.dayNumber &&
      (a.second < b.second || (a.second == b.second && a.nano < b.nano)))

/--
Nanoseconds from `since` to `t`.  A leap second counts as one second of its own
only when it lies strictly between the two seconds of the day.
-/
def since (t since : Instant) : Int :=
  let days := t.date.dayNumber - since.date.dayNumber
  let leap : Int :=
    if since.second < t.second && nanosPerSecond ≤ since.nano then 1
    else if t.second < since.second && nanosPerSecond ≤ t.nano then -1
    else 0
  let seconds := days * secondsPerDay + ((t.second : Int) - since.second + leap)
  seconds * nanosPerSecond + ((t.nano : Int) - since.nano)

/-- The instant a number of seconds of less than a day earlier or later. -/
def shift? (t : Instant) (seconds : Int) : Option Instant :=
  let second : Int := t.second + seconds
  let day : Int := secondsPerDay
  if second < 0 then
    t.date.previous?.bind fun date => of? date (second + day).toNat t.nano
  else if day ≤ second then
    t.date.next?.bind fun date => of? date (second - day).toNat t.nano
  else of? t.date second.toNat t.nano

end Instant

end CacheUpkeep.Calendar
