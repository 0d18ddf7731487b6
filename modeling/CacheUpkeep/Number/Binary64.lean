/-!
# Finite binary floating-point numbers

The finite numbers of the 64-bit binary format, kept as a sign, a significand
below `2 ^ 53` and an exponent of two.  Every operation computes the exact
quotient and rounds once, to the nearest number and from a tie to the even
significand; a result too large for the format is `none`.
-/

namespace CacheUpkeep.Number

/-- The number `± significand * 2 ^ exponent`. -/
structure Binary64 where
  negative : Bool
  significand : Nat
  exponent : Int
deriving DecidableEq, Repr

namespace Binary64

/-- The least significand of 53 bits, `2 ^ 52`. -/
def leastSignificand : Nat := 4503599627370496

def leastExponent : Int := -1074

def greatestExponent : Int := 971

def zero (negative : Bool) : Binary64 :=
  ⟨negative, 0, leastExponent⟩

/-- The integer nearest to `num / den`, the even one of two. -/
def roundQuotient (num den : Nat) : Nat :=
  let quotient := num / den
  let twice := 2 * (num % den)
  if twice < den then quotient
  else if den < twice then quotient + 1
  else if quotient % 2 = 0 then quotient
  else quotient + 1

/-- `num / den / 2 ^ e` as a quotient of naturals. -/
def scaled (num den : Nat) (e : Int) : Nat × Nat :=
  if 0 ≤ e then (num, den <<< e.toNat) else (num <<< (-e).toNat, den)

/-- The exponent that gives `num / den` a significand of 53 bits, or the least one. -/
def exponentFor (num den : Nat) : Int :=
  let e : Int := (num.log2 : Int) - (den.log2 : Int) - 52
  let (n, d) := scaled num den e
  max leastExponent (if n / d < leastSignificand then e - 1 else e)

/-- The number nearest to `num / den`. -/
def ofRatio (negative : Bool) (num den : Nat) : Option Binary64 :=
  if num = 0 || den = 0 then some (zero negative)
  else
    let e := exponentFor num den
    let (n, d) := scaled num den e
    let significand := roundQuotient n d
    let (significand, e) :=
      if significand = 2 * leastSignificand then (leastSignificand, e + 1)
      else (significand, e)
    if greatestExponent < e then none else some ⟨negative, significand, e⟩

def ratio (x : Binary64) : Nat × Nat :=
  if 0 ≤ x.exponent then (x.significand <<< x.exponent.toNat, 1)
  else (x.significand, 1 <<< (-x.exponent).toNat)

def ofNat (n : Nat) : Option Binary64 :=
  ofRatio false n 1

def mul (x y : Binary64) : Option Binary64 :=
  let (xn, xd) := x.ratio
  let (yn, yd) := y.ratio
  ofRatio (x.negative != y.negative) (xn * yn) (xd * yd)

/-- The quotient; a zero divisor gives zero. -/
def div (x y : Binary64) : Option Binary64 :=
  let (xn, xd) := x.ratio
  let (yn, yd) := y.ratio
  ofRatio (x.negative != y.negative) (xn * yd) (xd * yn)

/-- The number nearest to `digits * 10 ^ exponent`. -/
def ofDecimal (negative : Bool) (digits : Nat) (exponent : Int) : Option Binary64 :=
  if 0 ≤ exponent then ofRatio negative (digits * Nat.pow 10 exponent.toNat) 1
  else ofRatio negative digits (Nat.pow 10 (-exponent).toNat)

/-- The integer nearest to the magnitude, the even one of two. -/
def roundToNat (x : Binary64) : Nat :=
  let (n, d) := x.ratio
  roundQuotient n d

end Binary64

end CacheUpkeep.Number
