import CacheUpkeep.Number.Limits
import CacheUpkeep.Text.Decimal

/-!
# Arithmetic of the shell

Expressions on whole numbers of 64 bits with a sign, with the operators of C apart
from those that step a variable.  An expression is read and evaluated at once, on
any state that has variables; a part whose value does not matter changes none.
-/

namespace CacheUpkeep.Shell.Arithmetic

open CacheUpkeep.Number CacheUpkeep.Text

/-- The number of 64 bits with a sign that a number is modulo `limit64`. -/
def wrap (n : Int) : Int :=
  let m := n % limit64
  if m < signedLimit64 then m else m - limit64

def bits (n : Int) : Nat :=
  (n % limit64).toNat

/-! ## Numerals -/

def digitIn? (radix : Nat) (c : Char) : Option Nat :=
  let n :=
    if isDigit c then digitValue c
    else if 'a' ≤ c && c ≤ 'z' then c.toNat - 'a'.toNat + 10
    else if 'A' ≤ c && c ≤ 'Z' then c.toNat - 'A'.toNat + 10
    else radix
  if n < radix then some n else none

/-- The digits of a radix at the start of a text, their value, and the text after them. -/
def digitsIn (radix value : Nat) : List Char → Nat × List Char
  | [] => (value, [])
  | c :: rest =>
      match digitIn? radix c with
      | some d => digitsIn radix (radix * value + d) rest
      | none => (value, c :: rest)

/-- The numeral at the start of a text; its first characters give the radix. -/
def numeralAt (text : List Char) : Nat × List Char :=
  match text with
  | '0' :: x :: c :: rest =>
      if (x = 'x' || x = 'X') && (digitIn? 16 c).isSome then digitsIn 16 0 (c :: rest)
      else digitsIn 8 0 text
  | '0' :: rest => digitsIn 8 0 rest
  | _ => digitsIn 10 0 text

def isSpace (c : Char) : Bool :=
  c = ' ' || (9 ≤ c.toNat && c.toNat ≤ 13)

/-- A whole number with nothing but blanks around it. -/
structure Numeral where
  value : Int
  rest : List Char
  empty : Bool
deriving DecidableEq, Repr

/-- The longest numeral at the start of a text, in any radix or in ten alone. -/
def readNumeral (anyRadix : Bool) (text : List Char) : Numeral :=
  let text := text.dropWhile isSpace
  let (negative, digits) :=
    match text with
    | '-' :: rest => (true, rest)
    | '+' :: rest => (false, rest)
    | _ => (false, text)
  match digits with
  | c :: _ =>
      if isDigit c then
        let (n, rest) := if anyRadix then numeralAt digits else digitsIn 10 0 digits
        ⟨if negative then -(n : Int) else n, rest, false⟩
      else ⟨0, text, true⟩
  | [] => ⟨0, text, true⟩

def isInRange (n : Int) : Bool :=
  -(signedLimit64 : Int) ≤ n && n < signedLimit64

/-- The number nearest to one that may be out of range. -/
def clamp (n : Int) : Int :=
  if n < -(signedLimit64 : Int) then -(signedLimit64 : Int)
  else if n < signedLimit64 then n
  else (signedLimit64 : Int) - 1

def number? (anyRadix : Bool) (text : String) : Option Int :=
  let n := readNumeral anyRadix text.toList
  let blank := (n.rest.dropWhile isSpace).isEmpty
  if !isInRange n.value || !blank || (n.empty && !anyRadix) then none else some n.value

/-! ## Tokens -/

inductive Binary where
  | mul | div | rem | add | sub | shiftLeft | shiftRight | less | atMost | greater | atLeast
  | equal | different | bitAnd | bitXor | bitOr
deriving DecidableEq, Repr

namespace Binary

/-- Operators with a smaller level bind closer. -/
def level : Binary → Nat
  | .mul | .div | .rem => 0
  | .add | .sub => 1
  | .shiftLeft | .shiftRight => 2
  | .less | .atMost | .greater | .atLeast => 3
  | .equal | .different => 4
  | .bitAnd => 5
  | .bitXor => 6
  | .bitOr => 7

def levelLimit : Nat := 8

def ofBool (b : Bool) : Int :=
  if b then 1 else 0

/-- The value of an operation; `none` for a division by zero. -/
def result? (op : Binary) (a b : Int) : Option Int :=
  match op with
  | .mul => some (wrap (a * b))
  | .div => if b = 0 then none else some (wrap (a.tdiv b))
  | .rem => if b = 0 then none else some (wrap (a.tmod b))
  | .add => some (wrap (a + b))
  | .sub => some (wrap (a - b))
  | .shiftLeft => some (wrap ((bits a <<< (bits b % 64) : Nat) : Int))
  | .shiftRight => some (a >>> (bits b % 64))
  | .less => some (ofBool (a < b))
  | .atMost => some (ofBool (a ≤ b))
  | .greater => some (ofBool (b < a))
  | .atLeast => some (ofBool (b ≤ a))
  | .equal => some (ofBool (a = b))
  | .different => some (ofBool (a ≠ b))
  | .bitAnd => some (wrap ((bits a &&& bits b : Nat) : Int))
  | .bitXor => some (wrap ((bits a ^^^ bits b : Nat) : Int))
  | .bitOr => some (wrap ((bits a ||| bits b : Nat) : Int))

end Binary

inductive Token where
  | number (n : Int)
  | name (text : String)
  | binary (op : Binary)
  | assign (op : Option Binary)
  | left
  | right
  | question
  | colon
  | both
  | either
  | not
  | complement
  | unknown
  | finish
deriving DecidableEq, Repr

def isNameStart (c : Char) : Bool :=
  c.isAlpha || c = '_'

def isNameChar (c : Char) : Bool :=
  c.isAlphanum || c = '_'

/-- An operator, or the assignment that it makes with an equals sign after it. -/
def withEquals (op : Binary) (rest : List Char) : Token × List Char :=
  match rest with
  | '=' :: rest => (.assign (some op), rest)
  | _ => (.binary op, rest)

def token (text : List Char) : Token × List Char :=
  match text.dropWhile fun c => c = ' ' || c = '\t' || c = '\n' with
  | [] => (.finish, [])
  | '(' :: rest => (.left, rest)
  | ')' :: rest => (.right, rest)
  | '?' :: rest => (.question, rest)
  | ':' :: rest => (.colon, rest)
  | '~' :: rest => (.complement, rest)
  | '=' :: '=' :: rest => (.binary .equal, rest)
  | '=' :: rest => (.assign none, rest)
  | '!' :: '=' :: rest => (.binary .different, rest)
  | '!' :: rest => (.not, rest)
  | '<' :: '=' :: rest => (.binary .atMost, rest)
  | '<' :: '<' :: rest => withEquals .shiftLeft rest
  | '<' :: rest => (.binary .less, rest)
  | '>' :: '=' :: rest => (.binary .atLeast, rest)
  | '>' :: '>' :: rest => withEquals .shiftRight rest
  | '>' :: rest => (.binary .greater, rest)
  | '&' :: '&' :: rest => (.both, rest)
  | '&' :: rest => withEquals .bitAnd rest
  | '|' :: '|' :: rest => (.either, rest)
  | '|' :: rest => withEquals .bitOr rest
  | '^' :: rest => withEquals .bitXor rest
  | '*' :: rest => withEquals .mul rest
  | '/' :: rest => withEquals .div rest
  | '%' :: rest => withEquals .rem rest
  | '+' :: rest => withEquals .add rest
  | '-' :: rest => withEquals .sub rest
  | c :: rest =>
      if isDigit c then
        let (n, after) := numeralAt (c :: rest)
        (.number (clamp n), after)
      else if isNameStart c then
        (.name (String.ofList (c :: rest.takeWhile isNameChar)), rest.dropWhile isNameChar)
      else (.unknown, rest)

def tokensWith : Nat → List Char → List Token
  | 0, _ => [.finish]
  | fuel + 1, text =>
      match token text with
      | (.finish, _) => [.finish]
      | (t, rest) => t :: tokensWith fuel rest

def tokens (text : String) : List Token :=
  tokensWith (text.length + 1) text.toList

/-! ## Evaluation -/

/-- How an evaluation reads and sets variables, and how it complains. -/
structure Access (m : Type → Type) where
  get : String → m Int
  set : String → Int → m Unit
  fail : String → m Int

variable {m : Type → Type} [Monad m]

/-- A value with the tokens after it. -/
abbrev Valued := Int × List Token

def operatorAt? : List Token → Option Binary
  | .binary op :: _ => some op
  | _ => none

def failWith (access : Access m) (message : String) : m Valued := do
  return (← access.fail message, [.finish])

def applyOperator (access : Access m) (idle : Bool) (op : Binary) (a b : Int) : m Int :=
  if idle then return b
  else
    match op.result? a b with
    | some n => return n
    | none => access.fail "division by zero"

mutual

/-- An assignment, or a condition. -/
def assignment (access : Access m) : Nat → Bool → List Token → m Valued
  | 0, _, _ => failWith access "expecting primary"
  | fuel + 1, idle, tokens => do
      match tokens with
      | .name text :: .assign op :: rest =>
          let (n, rest) ← assignment access fuel idle rest
          if idle then return (n, rest)
          else
            let value ←
              match op with
              | none => pure n
              | some op => do applyOperator access false op (← access.get text) n
            access.set text value
            return (value, rest)
      | _ => condition access fuel idle tokens

def condition (access : Access m) : Nat → Bool → List Token → m Valued
  | 0, _, _ => failWith access "expecting primary"
  | fuel + 1, idle, tokens => do
      let (a, rest) ← disjunction access fuel idle tokens
      match rest with
      | .question :: rest =>
          let (b, rest) ← assignment access fuel (idle || a = 0) rest
          match rest with
          | .colon :: rest =>
              let (c, rest) ← condition access fuel (idle || a ≠ 0) rest
              return (if a ≠ 0 then b else c, rest)
          | _ => failWith access "expecting ':'"
      | _ => return (a, rest)

def disjunction (access : Access m) : Nat → Bool → List Token → m Valued
  | 0, _, _ => failWith access "expecting primary"
  | fuel + 1, idle, tokens => do
      let (a, rest) ← conjunction access fuel idle tokens
      match rest with
      | .either :: rest =>
          let (b, rest) ← disjunction access fuel (idle || a ≠ 0) rest
          return (Binary.ofBool (a ≠ 0 || b ≠ 0), rest)
      | _ => return (a, rest)

def conjunction (access : Access m) : Nat → Bool → List Token → m Valued
  | 0, _, _ => failWith access "expecting primary"
  | fuel + 1, idle, tokens => do
      let (a, rest) ← primary access fuel idle tokens
      let (a, rest) ← operations access fuel Binary.levelLimit idle a rest
      match rest with
      | .both :: rest =>
          let (b, rest) ← conjunction access fuel (idle || a = 0) rest
          return (Binary.ofBool (a ≠ 0 && b ≠ 0), rest)
      | _ => return (a, rest)

def operations (access : Access m) : Nat → Nat → Bool → Int → List Token → m Valued
  | 0, _, _, _, _ => failWith access "expecting primary"
  | fuel + 1, level, idle, a, tokens => do
      match operatorAt? tokens with
      | none => return (a, tokens)
      | some op =>
          if level ≤ op.level then return (a, tokens)
          else
            let (b, rest) ← primary access fuel idle (tokens.drop 1)
            let (b, rest) ← operations access fuel op.level idle b rest
            operations access fuel level idle (← applyOperator access idle op a b) rest

def primary (access : Access m) : Nat → Bool → List Token → m Valued
  | 0, _, _ => failWith access "expecting primary"
  | fuel + 1, idle, tokens => do
      match tokens with
      | .left :: rest =>
          let (n, rest) ← assignment access fuel idle rest
          match rest with
          | .right :: rest => return (n, rest)
          | _ => failWith access "expecting ')'"
      | .number n :: rest => return (n, rest)
      | .name text :: rest =>
          if idle then return (0, rest) else return (← access.get text, rest)
      | .binary .add :: rest => primary access fuel idle rest
      | .binary .sub :: rest =>
          let (n, rest) ← primary access fuel idle rest
          return (wrap (-n), rest)
      | .not :: rest =>
          let (n, rest) ← primary access fuel idle rest
          return (Binary.ofBool (n = 0), rest)
      | .complement :: rest =>
          let (n, rest) ← primary access fuel idle rest
          return (wrap (-n - 1), rest)
      | _ => failWith access "expecting primary"

end

def evaluate (access : Access m) (text : String) : m Int := do
  let ts := tokens text
  let (n, rest) ← assignment access (8 * ts.length + 8) false ts
  match rest with
  | [.finish] | [] => return n
  | _ => access.fail "expecting EOF"

end CacheUpkeep.Shell.Arithmetic
