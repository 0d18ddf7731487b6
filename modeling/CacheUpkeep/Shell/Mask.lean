import CacheUpkeep.Shell.Arithmetic
import CacheUpkeep.Shell.Escape
import CacheUpkeep.Text.Lines

/-!
# Masks of rights

A mask is a number of nine bits that takes rights from new files: three bits each for
their owner, for the group and for all others.  It is changed by an octal number or by
clauses that say whose rights are added, taken or set.
-/

namespace CacheUpkeep.Shell.Mask

open CacheUpkeep.Text

def size : Nat := 512

/-- The rights of one class: its bits start at `shift`. -/
def rightsAt (rights shift : Nat) : Nat :=
  (rights >>> shift) % 8

def letters (bits : Nat) : String :=
  (if 4 ≤ bits then "r" else "") ++ (if 2 ≤ bits % 4 then "w" else "") ++
    if bits % 2 = 1 then "x" else ""

/-- The rights that a mask leaves, as letters. -/
def text (mask : Nat) : String :=
  let rights := size - 1 - mask
  "u=" ++ letters (rightsAt rights 6) ++ ",g=" ++ letters (rightsAt rights 3) ++ ",o=" ++
    letters (rightsAt rights 0)

def number (mask : Nat) : String :=
  String.ofList ((Nat.toDigits 8 mask).leftpad 4 '0')

def shiftsOf? (c : Char) : Option (List Nat) :=
  match c with
  | 'u' => some [6]
  | 'g' => some [3]
  | 'o' => some [0]
  | 'a' => some [6, 3, 0]
  | _ => none

/-- The bits that a letter stands for; that of a class stands for its own rights. -/
def bitsOf? (rights : Nat) (c : Char) : Option Nat :=
  match c with
  | 'r' => some 4
  | 'w' => some 2
  | 'x' => some 1
  | 'X' => some (if [6, 3, 0].any fun shift => rightsAt rights shift % 2 = 1 then 1 else 0)
  | 's' => some 0
  | 'u' => some (rightsAt rights 6)
  | 'g' => some (rightsAt rights 3)
  | 'o' => some (rightsAt rights 0)
  | _ => none

def isSign (c : Char) : Bool :=
  c = '+' || c = '-' || c = '='

def changed (sign : Char) (bits rights shift : Nat) : Nat :=
  let old := rightsAt rights shift
  let new := match sign with
    | '+' => old ||| bits
    | '-' => old - (old &&& bits)
    | _ => bits
  rights - (old <<< shift) + (new <<< shift)

def changes? (shifts : List Nat) : Nat → Nat → List Char → Option Nat
  | 0, _, _ => none
  | _ + 1, rights, [] => some rights
  | fuel + 1, rights, sign :: rest =>
      if isSign sign then do
        let run := rest.takeWhile fun c => !isSign c
        let bits := (← run.mapM (bitsOf? rights)).foldl (· ||| ·) 0
        changes? shifts fuel (shifts.foldl (changed sign bits) rights) (rest.drop run.length)
      else none

def clause? (rights : Nat) (text : List Char) : Option Nat := do
  let who := text.takeWhile fun c => (shiftsOf? c).isSome
  let rest := text.drop who.length
  if rest.isEmpty then none
  else
    let named := who.flatMap fun c => (shiftsOf? c).getD []
    let shifts := if who.isEmpty then [6, 3, 0] else named.eraseDups
    changes? shifts (rest.length + 1) rights rest

/-- The clauses of a text; one at its end may be empty. -/
def clauses? (rights : Nat) : List (List Char) → Option Nat
  | [] | [[]] => some rights
  | c :: rest => do clauses? (← clause? rights c) rest

def octal? (cs : List Char) : Option Nat :=
  if cs.all isOctal then some ((Arithmetic.digitsIn 8 0 cs).1 % size) else none

/-- The rights that a text makes of others; what is wrong with it otherwise. -/
def changeRights (rights : Nat) (text : String) : Except String Nat :=
  let cs := text.toList
  if cs.head?.any isDigit then
    match octal? cs with
    | some rights => .ok rights
    | none => .error ("Illegal number: " ++ text)
  else
    match clauses? rights (splitAtEach ',' cs) with
    | some rights => .ok rights
    | none => .error ("Illegal mode: " ++ text)

/-- The mask that a text makes of another one; clauses speak of the rights it leaves. -/
def change (mask : Nat) (text : String) : Except String Nat := do
  if text.toList.head?.any isDigit then changeRights mask text
  else return size - 1 - (← changeRights (size - 1 - mask) text)

end CacheUpkeep.Shell.Mask
