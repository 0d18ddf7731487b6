import CacheUpkeep.Number.Layout
import CacheUpkeep.Shell.Arithmetic
import CacheUpkeep.Shell.Escape

/-!
# Formats

What a format makes of arguments.  A format is used again while arguments are left,
and an argument that is no number of the kind asked for counts for as much of it as is
one, with a complaint.
-/

namespace CacheUpkeep.Shell.Format

open CacheUpkeep.Number CacheUpkeep.Text

/-! ## Numbers in arguments -/

/-- A number at the start of an argument, the text after it and whether it fits. -/
structure Scanned (α : Type) where
  value : α
  rest : List Char
  empty : Bool
  inRange : Bool

def signed (text : String) : Scanned Int :=
  let n := Arithmetic.readNumeral true text.toList
  ⟨Arithmetic.clamp n.value, if n.empty then text.toList else n.rest, n.empty,
    Arithmetic.isInRange n.value⟩

/-- A negative number counts modulo `limit64`, if its magnitude fits. -/
def unsigned (text : String) : Scanned Int :=
  let n := Arithmetic.readNumeral true text.toList
  let fits := n.value.natAbs < limit64
  ⟨if fits then n.value % limit64 else (limit64 : Int) - 1,
    if n.empty then text.toList else n.rest, n.empty, fits⟩

inductive Real where
  | finite (x : Binary64)
  | infinite (negative : Bool)
  | notNumber (negative : Bool)
deriving DecidableEq, Repr

def Real.isNegative : Real → Bool
  | .finite x => x.negative
  | .infinite negative | .notNumber negative => negative

def exponentAt (mark : Char) (text : List Char) : Int × List Char :=
  match text with
  | c :: rest =>
      if c.toLower = mark then
        let (negative, ds) :=
          match rest with
          | '-' :: ds => (true, ds)
          | '+' :: ds => (false, ds)
          | ds => (false, ds)
        let run := ds.takeWhile isDigit
        if run.isEmpty then (0, text)
        else
          let n := min (digitsValue run) 100000
          (if negative then -(n : Int) else n, ds.drop run.length)
      else (0, text)
  | [] => (0, [])

/-- The digits of a radix with a point among them: their value and how many are after it. -/
def pointedDigits (radix : Nat) (text : List Char) : Option (Nat × Nat × List Char) :=
  let isIn (c : Char) : Bool := (Arithmetic.digitIn? radix c).isSome
  let whole := text.takeWhile isIn
  let (part, rest) :=
    match text.drop whole.length with
    | '.' :: rest =>
        let part := rest.takeWhile isIn
        if whole.isEmpty && part.isEmpty then ([], '.' :: rest)
        else (part, rest.drop part.length)
    | rest => ([], rest)
  if whole.isEmpty && part.isEmpty then none
  else some ((Arithmetic.digitsIn radix 0 (whole ++ part)).1, part.length, rest)

def withoutSign (text : List Char) : Bool × List Char :=
  match text with
  | '-' :: rest => (true, rest)
  | '+' :: rest => (false, rest)
  | _ => (false, text)

def startsWithWord (word : String) (text : List Char) : Bool :=
  (text.take word.length).map Char.toLower = word.toList

def ofRounded (negative : Bool) (x : Option Binary64) : Real × Bool :=
  match x with
  | some x => (.finite x, true)
  | none => (.infinite negative, false)

def ofBinary (negative : Bool) (n : Nat) (e : Int) : Real × Bool :=
  ofRounded negative
    (if 0 ≤ e then Binary64.ofRatio negative (n <<< e.toNat) 1
    else Binary64.ofRatio negative n (1 <<< (-e).toNat))

def real (text : String) : Scanned Real :=
  let (negative, body) := withoutSign (text.toList.dropWhile Arithmetic.isSpace)
  if startsWithWord "infinity" body then ⟨.infinite negative, body.drop 8, false, true⟩
  else if startsWithWord "inf" body then ⟨.infinite negative, body.drop 3, false, true⟩
  else if startsWithWord "nan" body then ⟨.notNumber negative, body.drop 3, false, true⟩
  else
    let hexadecimal :=
      if startsWithWord "0x" body then pointedDigits 16 (body.drop 2) else none
    match hexadecimal with
    | some (n, places, rest) =>
        let (e, rest) := exponentAt 'p' rest
        let (value, inRange) := ofBinary negative n (e - 4 * places)
        ⟨value, rest, false, inRange⟩
    | none =>
        match pointedDigits 10 body with
        | some (n, places, rest) =>
            let (e, rest) := exponentAt 'e' rest
            let (value, inRange) :=
              ofRounded negative (Binary64.ofDecimal negative n (e - places))
            ⟨value, rest, false, inRange⟩
        | none => ⟨.finite (.zero false), text.toList, true, true⟩

/-! ## Conversions -/

structure Conversion where
  left : Bool
  plus : Bool
  blank : Bool
  alternative : Bool
  zeros : Bool
  width : Nat
  precision : Option Nat
  letter : Char
deriving DecidableEq, Repr

namespace Conversion

def pad (c : Conversion) (text : List Char) : List Char :=
  if c.left then text ++ List.replicate (c.width - text.length) ' '
  else text.leftpad c.width ' '

/-- Fills a number to the width, with zeros after its sign if it is asked for. -/
def padNumber (c : Conversion) (zeros : Bool) (sign body : List Char) : List Char :=
  if zeros && !c.left then sign ++ body.leftpad (c.width - sign.length) '0'
  else c.pad (sign ++ body)

def signFor (c : Conversion) (negative : Bool) : List Char :=
  if negative then ['-'] else if c.plus then ['+'] else if c.blank then [' '] else []

def text (c : Conversion) (value : List Char) : List Char :=
  c.pad (value.take (c.precision.getD value.length))

/-- Digits of at least the precision; none for a zero that needs none. -/
def wholeDigits (c : Conversion) (radix n : Nat) : List Char :=
  let ds := if n = 0 && c.precision = some 0 then [] else Nat.toDigits radix n
  ds.leftpad (c.precision.getD 1) '0'

def integer (c : Conversion) (n : Int) : List Char :=
  c.padNumber (c.zeros && c.precision.isNone) (c.signFor (n < 0)) (c.wholeDigits 10 n.natAbs)

def natural (c : Conversion) (n : Nat) : List Char :=
  let zeros := c.zeros && c.precision.isNone
  match c.letter with
  | 'o' =>
      let ds := c.wholeDigits 8 n
      c.padNumber zeros [] (if c.alternative && ds.head? ≠ some '0' then '0' :: ds else ds)
  | 'x' => c.padNumber zeros (if c.alternative && n ≠ 0 then ['0', 'x'] else [])
      (c.wholeDigits 16 n)
  | 'X' => c.padNumber zeros (if c.alternative && n ≠ 0 then ['0', 'X'] else [])
      ((c.wholeDigits 16 n).map Char.toUpper)
  | _ => c.padNumber zeros [] (c.wholeDigits 10 n)

def magnitude (c : Conversion) (x : Binary64) : List Char × List Char :=
  let precision := c.precision.getD 6
  match c.letter.toLower with
  | 'e' => ([], x.scientific precision c.alternative)
  | 'f' => ([], x.positional precision c.alternative)
  | 'g' => ([], x.general precision c.alternative)
  | _ => (['0', 'x'], x.hexadecimal c.precision c.alternative)

def real (c : Conversion) (x : Real) : List Char :=
  let sign := c.signFor x.isNegative
  let cased (text : List Char) : List Char :=
    if c.letter.isUpper then text.map Char.toUpper else text
  match x with
  | .finite x =>
      let (start, body) := c.magnitude x
      c.padNumber c.zeros (sign ++ cased start) (cased body)
  | .infinite _ => c.pad (sign ++ cased "inf".toList)
  | .notNumber _ => c.pad (sign ++ cased "nan".toList)

end Conversion

/-! ## Formatting -/

/-- What has been made of a format: arguments left, output, complaints and a last fault. -/
structure Printing where
  args : List String
  output : List Char
  complaints : List String
  fault : Option String
  stop : Bool
deriving DecidableEq, Repr

namespace Printing

/-- Adds output, which is kept in reverse order. -/
def put (p : Printing) (text : List Char) : Printing :=
  { p with output := text.reverse ++ p.output }

def fail (p : Printing) (message : String) : Printing :=
  { p with fault := some message, stop := true }

def next (p : Printing) : Option String × Printing :=
  (p.args.head?, { p with args := p.args.drop 1 })

def check {α : Type} (p : Printing) (text : String) (s : Scanned α) : Printing :=
  if !s.rest.isEmpty then
    let cause := if s.empty then "expected numeric value" else "not completely converted"
    { p with complaints := p.complaints ++ [text ++ ": " ++ cause] }
  else if s.inRange then p
  else { p with complaints := p.complaints ++ [text ++ ": Numerical result out of range"] }

/-- The next argument as a number; after a quote it is that of an octet. -/
def number {α : Type} (p : Printing) (scan : String → Scanned α) (ofOctet : Nat → α) :
    α × Printing :=
  match p.next with
  | (none, p) => (ofOctet 0, p)
  | (some text, p) =>
      match text.toList with
      | '"' :: rest | '\'' :: rest => (ofOctet ((rest.head?.map Char.toNat).getD 0), p)
      | _ =>
          let s := scan text
          (s.value, p.check text s)

def ofOctet (n : Nat) : Int := n

def realOfOctet (n : Nat) : Real :=
  .finite ((Binary64.ofNat n).getD (.zero false))

/-- The width or the precision that an argument gives, as a number of 32 bits. -/
def measure (p : Printing) : Int × Printing :=
  let (n, p) := p.number signed ofOctet
  let low := n % limit32
  (if low < 0x80000000 then low else low - limit32, p)

def flagLetters : List Char :=
  ['#', '-', '+', ' ', '0']

/-- The digits of a number in a format, or an argument in their place. -/
def readMeasure (p : Printing) (format : List Char) : Option Int × List Char × Printing :=
  match format with
  | '*' :: rest =>
      let (n, p) := p.measure
      (some n, rest, p)
  | _ =>
      let ds := format.takeWhile isDigit
      (if ds.isEmpty then none else some (digitsValue ds), format.drop ds.length, p)

def readConversion (p : Printing) (format : List Char) : Conversion × List Char × Printing :=
  let flags := format.takeWhile flagLetters.contains
  let (width, rest, p) := p.readMeasure (format.drop flags.length)
  let (precision, rest, p) :=
    match rest with
    | '.' :: rest =>
        let (n, rest, p) := p.readMeasure rest
        (some (n.getD 0), rest, p)
    | _ => (none, rest, p)
  let width := width.getD 0
  let c : Conversion :=
    { left := flags.contains '-' || width < 0
      plus := flags.contains '+'
      blank := flags.contains ' '
      alternative := flags.contains '#'
      zeros := flags.contains '0'
      width := width.natAbs
      precision := precision.bind fun n => if n < 0 then none else some n.toNat
      letter := ' ' }
  (c, rest, p)

def isRealLetter (c : Char) : Bool :=
  "aAeEfFgG".toList.contains c

/-- Puts the next argument; `source` is the conversion as it is written. -/
def convert (p : Printing) (source : List Char) (c : Conversion) : Printing :=
  if c.letter = 's' then
    let (text, p) := p.next
    p.put (c.text (text.getD "").toList)
  else if c.letter = 'b' then
    let (text, p) := p.next
    let u := unescape (text.getD "").toList
    { p.put (c.text u.text) with stop := u.stop }
  else if c.letter = 'c' then
    let (text, p) := p.next
    p.put (c.pad [((text.getD "").toList.head?).getD (Char.ofNat 0)])
  else if c.letter = 'd' || c.letter = 'i' then
    let (n, p) := p.number signed ofOctet
    p.put (c.integer n)
  else if "ouxX".toList.contains c.letter then
    let (n, p) := p.number unsigned ofOctet
    p.put (c.natural n.toNat)
  else if isRealLetter c.letter then
    let (x, p) := p.number real realOfOctet
    p.put (c.real x)
  else p.fail (String.ofList source ++ ": invalid directive")

def pass : Nat → List Char → Printing → Printing
  | 0, _, p => p
  | fuel + 1, format, p =>
      if p.stop then p
      else
        match format with
        | [] => p
        | '\\' :: rest =>
            let (c, rest) := escapeAfter rest
            pass fuel rest (p.put [c])
        | '%' :: '%' :: rest => pass fuel rest (p.put ['%'])
        | '%' :: rest =>
            let (c, after, p) := p.readConversion rest
            match after with
            | [] => p.fail "missing format character"
            | letter :: after =>
                let source := format.take (format.length - after.length)
                pass fuel after (p.convert source { c with letter })
        | c :: rest => pass fuel rest (p.put [c])

/-- Passes over a format as long as each one takes arguments and some are left. -/
def passes : Nat → List Char → Printing → Printing
  | 0, _, p => p
  | fuel + 1, format, p =>
      let q := pass (format.length + 1) format p
      if q.stop || q.args.isEmpty || q.args.length = p.args.length then q
      else passes fuel format q

end Printing

def print (format : String) (args : List String) : Printing :=
  Printing.passes (args.length + 1) format.toList ⟨args, [], [], none, false⟩

end CacheUpkeep.Shell.Format
