import CacheUpkeep.Number.Limits
import CacheUpkeep.Text.Blank
import CacheUpkeep.Text.Decimal

/-!
# Versions

The first numeric components in the output of `git --version`.  What follows the
third number is dropped, and a missing third number is zero.
-/

namespace CacheUpkeep.Doctor

open CacheUpkeep.Text CacheUpkeep.Number

structure Version where
  major : Nat
  minor : Nat
  patch : Nat
deriving DecidableEq, Repr

namespace Version

def text (v : Version) : String :=
  numeral v.major ++ "." ++ numeral v.minor ++ "." ++ numeral v.patch

def before (a b : Version) : Bool :=
  a.major < b.major ||
    (a.major == b.major &&
      (a.minor < b.minor || (a.minor == b.minor && a.patch < b.patch)))

/-- The number of a component; one beyond 64 bits counts as zero. -/
def component (ds : List Char) : Nat :=
  let n := digitsValue ds
  if n < limit64 then n else 0

def ofWord? (word : List Char) : Option Version :=
  let major := word.takeWhile isDigit
  match major.isEmpty, word.dropWhile isDigit with
  | false, '.' :: rest =>
      let minor := rest.takeWhile isDigit
      if minor.isEmpty then none
      else
        let patch :=
          match rest.dropWhile isDigit with
          | '.' :: rest => rest.takeWhile isDigit
          | _ => []
        some ⟨component major, component minor, component patch⟩
  | _, _ => none

/-- The version at the start of the last word of an output. -/
def read (output : String) : Option Version :=
  match (wordsFrom [] output.toList).getLast? with
  | some word => ofWord? word
  | none => none

end Version

def leastGitVersion : Version :=
  ⟨2, 35, 2⟩

end CacheUpkeep.Doctor
