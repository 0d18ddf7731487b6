import CacheUpkeep.Number.Binary64
import CacheUpkeep.Number.ShortestDecimal

/-!
# Layouts of binary floating-point numbers

The texts of the magnitude of a number with a fixed count of digits: positional, with
an exponent, the shorter of the two, or in hexadecimal digits.  Each digit string is
that of the exact value, rounded once to the nearest and from a tie to the even one.
-/

namespace CacheUpkeep.Number.Binary64

open CacheUpkeep.Text

/-- A digit string with a point before its last `places` digits, if there are any. -/
def pointed (places : Nat) (keepsPoint : Bool) (ds : List Char) : List Char :=
  let ds := ds.leftpad (places + 1) '0'
  let whole := ds.take (ds.length - places)
  if places = 0 then whole ++ if keepsPoint then ['.'] else []
  else whole ++ '.' :: ds.drop (ds.length - places)

/-- The positional text with so many places after the point. -/
def positional (x : Binary64) (places : Nat) (keepsPoint : Bool) : List Char :=
  let (n, d) := x.ratio
  pointed places keepsPoint (digits (roundQuotient (n * Nat.pow 10 places) d))

/-- The digits with so many places after the first one, and the power of ten of that one. -/
def leadingDigits (x : Binary64) (places : Nat) : Nat × Int :=
  if x.significand = 0 then (0, 0)
  else
    let (n, d) := x.ratio
    let e := decimalExponent n d
    let shift : Int := places - e
    let c :=
      if 0 ≤ shift then roundQuotient (n * Nat.pow 10 shift.toNat) d
      else roundQuotient n (d * Nat.pow 10 (-shift).toNat)
    if Nat.pow 10 (places + 1) ≤ c then (c / 10, e + 1) else (c, e)

def exponentText (mark : Char) (least : Nat) (e : Int) : List Char :=
  mark :: (if e < 0 then '-' else '+') :: (digits e.natAbs).leftpad least '0'

/-- The text with one digit before the point and an exponent. -/
def scientific (x : Binary64) (places : Nat) (keepsPoint : Bool) : List Char :=
  let (c, e) := x.leadingDigits places
  pointed places keepsPoint ((digits c).leftpad (places + 1) '0') ++ exponentText 'e' 2 e

def dropFractionZeros (text : List Char) : List Char :=
  if text.contains '.' then
    let kept := text.reverse.dropWhile (· = '0')
    (match kept with
    | '.' :: rest => rest
    | _ => kept).reverse
  else text

/-- The positional text of so many digits, or the scientific one if that is too long. -/
def general (x : Binary64) (precision : Nat) (keepsPoint : Bool) : List Char :=
  let precision := max precision 1
  let (_, e) := x.leadingDigits (precision - 1)
  if -4 ≤ e && e < precision then
    let text := x.positional ((precision : Int) - 1 - e).toNat keepsPoint
    if keepsPoint then text else dropFractionZeros text
  else
    let text := x.scientific (precision - 1) keepsPoint
    let mantissa := text.takeWhile (· ≠ 'e')
    let mantissa := if keepsPoint then mantissa else dropFractionZeros mantissa
    mantissa ++ text.dropWhile (· ≠ 'e')

/-- The text in hexadecimal digits, with all of them or with so many places. -/
def hexadecimal (x : Binary64) (places : Option Nat) (keepsPoint : Bool) : List Char :=
  let e : Int := if x.significand = 0 then 0 else x.exponent + 52
  let all := (Nat.toDigits 16 x.significand).leftpad 14 '0'
  let ds :=
    match places with
    | none =>
        all.take 1 ++ ((all.drop 1).reverse.dropWhile (· = '0')).reverse
    | some n =>
        if 13 ≤ n then all ++ List.replicate (n - 13) '0'
        else
          (Nat.toDigits 16 (roundQuotient x.significand (1 <<< (4 * (13 - n))))).leftpad
            (n + 1) '0'
  pointed (ds.length - 1) keepsPoint ds ++ exponentText 'p' 1 e

end CacheUpkeep.Number.Binary64
