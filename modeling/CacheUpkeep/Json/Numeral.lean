import CacheUpkeep.Json.Value
import CacheUpkeep.Number.Limits
import CacheUpkeep.Text.Decimal

/-!
# Numerals of JSON

A numeral is kept as its parts, and its number is computed from them.  The
digits up to the greatest 64-bit natural form a significand, which is then
scaled by powers of ten with one rounding a step.
-/

namespace CacheUpkeep.Json

open CacheUpkeep.Text CacheUpkeep.Number

/-- The exponent of a numeral, with the sign that it carries. -/
structure Exponent where
  negative : Bool
  digits : List Char
deriving DecidableEq, Repr

structure Numeral where
  negative : Bool
  whole : List Char
  fraction : Option (List Char)
  exponent : Option Exponent
deriving DecidableEq, Repr

namespace Numeral

/-- The greatest exponent that is read as a number. -/
def exponentLimit : Nat := 2147483647

/--
Appends digits to a significand while it stays within the limit; the second
result is the number of digits left out.
-/
def accumulate (significand : Nat) : List Char → Nat × Nat
  | [] => (significand, 0)
  | c :: rest =>
      let next := 10 * significand + digitValue c
      if limit64 ≤ next then (significand, rest.length + 1)
      else accumulate next rest

def powerOfTen (k : Nat) : Binary64 :=
  (Binary64.ofNat (Nat.pow 10 k)).getD (Binary64.zero false)

/-- Scales by a power of ten, in steps of `10 ^ 308` downwards. -/
def scaleDown (x : Binary64) (k : Nat) : Option Binary64 :=
  if k ≤ 308 then x.div (powerOfTen k)
  else if x.significand = 0 then some x
  else (x.div (powerOfTen 308)).bind fun y => scaleDown y (k - 308)
termination_by k

def scale (x : Binary64) (k : Int) : Option Binary64 :=
  if 0 ≤ k then
    if k ≤ 308 then x.mul (powerOfTen k.toNat)
    else if x.significand = 0 then some x
    else none
  else scaleDown x k.natAbs

/-- The number of a significand and a power of ten; `none` beyond the finite numbers. -/
def realOfParts (negative : Bool) (significand : Nat) (k : Int) : Option JsonNumber :=
  (Binary64.ofNat significand).bind fun x =>
    (scale x k).map fun y => .real { y with negative }

def realOf (n : Numeral) (significand : Nat) (k : Int) : Option JsonNumber :=
  match n.exponent with
  | none => realOfParts n.negative significand k
  | some e =>
      let size := digitsValue e.digits
      if exponentLimit < size then
        if significand ≠ 0 && !e.negative then none
        else some (.real (Binary64.zero n.negative))
      else
        realOfParts n.negative significand (if e.negative then k - size else k + size)

/-- The number that a numeral denotes; `none` beyond the finite numbers. -/
def toNumber? (n : Numeral) : Option JsonNumber :=
  let (significand, dropped) := accumulate 0 n.whole
  match n.fraction with
  | some fraction =>
      let (significand, left) := accumulate significand fraction
      realOf n significand ((dropped : Int) - (fraction.length - left : Nat))
  | none =>
      if dropped = 0 && n.exponent.isNone then
        if !n.negative then some (.integer significand)
        else if 0 < significand && significand ≤ signedLimit64 then
          some (.integer (-(significand : Int)))
        else realOfParts true significand 0
      else realOf n significand dropped

end Numeral

end CacheUpkeep.Json
