/-!
# Decimal numerals

Numerals in ASCII digits, written without leading zeros and read with any
number of them.  `digitsValue_digits` says that reading undoes writing.
-/

namespace CacheUpkeep.Text

def isDigit (c : Char) : Bool :=
  '0' ≤ c && c ≤ '9'

def digitOf (n : Nat) : Char :=
  Char.ofNat (48 + n % 10)

def digitValue (c : Char) : Nat :=
  c.toNat - 48

/-- The numeral of `n` without leading zeros. -/
def digits (n : Nat) : List Char :=
  if n < 10 then [digitOf n] else digits (n / 10) ++ [digitOf (n % 10)]

/-- The number that a list of digits denotes, most significant first. -/
def digitsValue (text : List Char) : Nat :=
  text.foldl (fun total c => 10 * total + digitValue c) 0

def numeral (n : Nat) : String :=
  String.ofList (digits n)

/-- A numeral of at least `width` characters, filled with zeros in front. -/
def paddedNumeral (width n : Nat) : String :=
  String.ofList ((digits n).leftpad width '0')

theorem digitValue_digitOf {n : Nat} (h : n < 10) : digitValue (digitOf n) = n := by
  have : n = 0 ∨ n = 1 ∨ n = 2 ∨ n = 3 ∨ n = 4 ∨ n = 5 ∨ n = 6 ∨ n = 7 ∨ n = 8 ∨
      n = 9 := by omega
  rcases this with h | h | h | h | h | h | h | h | h | h <;> subst h <;> decide

theorem digitsValue_concat (text : List Char) (c : Char) :
    digitsValue (text ++ [c]) = 10 * digitsValue text + digitValue c := by
  simp [digitsValue]

theorem digitsValue_digits (n : Nat) : digitsValue (digits n) = n := by
  induction n using Nat.strongRecOn with
  | _ n ih =>
      unfold digits
      split
      · next h => simp [digitsValue, digitValue_digitOf h]
      · next h =>
          rw [digitsValue_concat, ih (n / 10) (by omega),
            digitValue_digitOf (by omega)]
          omega

end CacheUpkeep.Text
