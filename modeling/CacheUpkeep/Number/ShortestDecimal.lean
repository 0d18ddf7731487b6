import CacheUpkeep.Number.Binary64
import CacheUpkeep.Text.Decimal

/-!
# Shortest decimals

The decimal with the fewest digits that reads back as a given number, and of
those with as few digits the one nearest to it.  The search works on exact
integers: on the grid of each digit count only the two neighbours of the number
can be nearest.
-/

namespace CacheUpkeep.Number

open CacheUpkeep.Text

namespace Binary64

/-- The floor of the decimal logarithm of `num / den`. -/
def decimalExponent (num den : Nat) : Int :=
  let e : Int := ((digits num).length : Int) - ((digits den).length : Int)
  let small :=
    if 0 ≤ e then num < den * Nat.pow 10 e.toNat
    else num * Nat.pow 10 (-e).toNat < den
  if small then e - 1 else e

/--
The interval of reals that round to a number, as multiples of a quarter of the
unit of its significand: the lower end, the number and the upper end.
-/
def quarters (x : Binary64) : Nat × Nat × Nat :=
  let value := 4 * x.significand
  let below :=
    if x.significand = leastSignificand && leastExponent < x.exponent then 1 else 2
  (value - below, value, value + 2)

/-- The nearer of the two neighbours on the grid of `10 ^ k` that round to `x`. -/
def neighbour? (x : Binary64) (k : Int) : Option Nat :=
  let (low, value, high) := quarters x
  let e := x.exponent - 2
  let scale := Nat.pow 10 (-k).toNat <<< e.toNat
  let unit := Nat.pow 10 k.toNat <<< (-e).toNat
  let closed := x.significand % 2 = 0
  let inside (c : Nat) : Bool :=
    if closed then low * scale ≤ c * unit && c * unit ≤ high * scale
    else low * scale < c * unit && c * unit < high * scale
  let down := value * scale / unit
  let up := down + 1
  let upIsNearer := up * unit - value * scale < value * scale - down * unit
  match inside down, inside up with
  | true, true =>
      let tie := up * unit - value * scale = value * scale - down * unit
      if upIsNearer || (tie && down % 2 = 1) then some up else some down
  | true, false => some down
  | false, true => some up
  | false, false => none

/-- Searches the grids of `count` digits and more, at most `fuel` of them. -/
def shortestFrom (x : Binary64) (top : Int) : Nat → Nat → Nat × Int
  | 0, _ => (x.significand, 0)
  | fuel + 1, count =>
      let k := top - count + 1
      match neighbour? x k with
      | some c => (c, k)
      | none => shortestFrom x top fuel (count + 1)

/-- The digits and the power of ten of the shortest decimal for a magnitude. -/
def shortest (x : Binary64) : Nat × Int :=
  let (n, d) := x.ratio
  shortestFrom x (decimalExponent n d) 17 1

/-- Moves zeros at the end of the digits into the power of ten. -/
def dropZeros (fuel : Nat) (c : Nat) (k : Int) : Nat × Int :=
  match fuel with
  | 0 => (c, k)
  | fuel + 1 => if c % 10 = 0 then dropZeros fuel (c / 10) (k + 1) else (c, k)

/--
The shortest text: positional from `10 ^ -5` up to `10 ^ 16`, always with a
fraction, and otherwise with a signed exponent after `e`.
-/
def text (x : Binary64) : String :=
  let sign := if x.negative then "-" else ""
  if x.significand = 0 then sign ++ "0.0"
  else
    let (c, k) := shortest x
    let (c, k) := dropZeros 17 c k
    let ds := digits c
    let point : Int := ds.length + k
    let body : List Char :=
      if 0 ≤ k && point ≤ 16 then
        ds ++ List.replicate k.toNat '0' ++ ['.', '0']
      else if 0 < point && point ≤ 16 then
        ds.take point.toNat ++ ['.'] ++ ds.drop point.toNat
      else if -5 < point && point ≤ 0 then
        ['0', '.'] ++ List.replicate (-point).toNat '0' ++ ds
      else
        let fraction := if ds.length = 1 then [] else '.' :: ds.drop 1
        let e := point - 1
        let mark := if e < 0 then ['e', '-'] else ['e', '+']
        ds.take 1 ++ fraction ++ mark ++ digits e.natAbs
    sign ++ String.ofList body

end Binary64

end CacheUpkeep.Number
