import CacheUpkeep.FileSystem.Resolve
import CacheUpkeep.Shell.Arithmetic
import CacheUpkeep.Shell.Octets

/-!
# Conditions

The expressions of `test`.  A word is an operator where it can be one, and an operand
where the words after it leave no other reading.
-/

namespace CacheUpkeep.Shell.Condition

inductive FileTest where
  | readable | writable | executable | there | regular | directory | characters | blocks | pipe
  | setUser | setGroup | sticky | filled | socket | owned | groupOwned | link
deriving DecidableEq, Repr

inductive Comparison where
  | same | different | before | after
  | equal | unequal | atLeast | greater | atMost | less
  | newer | older | sameFile
deriving DecidableEq, Repr

inductive Operator where
  | file (test : FileTest)
  | terminal
  | empty
  | nonEmpty
  | compare (c : Comparison)
  | not
  | and
  | or
  | left
  | right
deriving DecidableEq, Repr

def operators : List (String × Operator) :=
  [("-r", .file .readable), ("-w", .file .writable), ("-x", .file .executable),
    ("-e", .file .there), ("-f", .file .regular), ("-d", .file .directory),
    ("-c", .file .characters), ("-b", .file .blocks), ("-p", .file .pipe),
    ("-u", .file .setUser), ("-g", .file .setGroup), ("-k", .file .sticky),
    ("-s", .file .filled), ("-t", .terminal), ("-z", .empty), ("-n", .nonEmpty),
    ("-h", .file .link), ("-O", .file .owned), ("-G", .file .groupOwned),
    ("-L", .file .link), ("-S", .file .socket), ("=", .compare .same),
    ("!=", .compare .different), ("<", .compare .before), (">", .compare .after),
    ("-eq", .compare .equal), ("-ne", .compare .unequal), ("-ge", .compare .atLeast),
    ("-gt", .compare .greater), ("-le", .compare .atMost), ("-lt", .compare .less),
    ("-nt", .compare .newer), ("-ot", .compare .older), ("-ef", .compare .sameFile),
    ("!", .not), ("-a", .and), ("-o", .or), ("(", .left), (")", .right)]

def operator? (text : String) : Option Operator :=
  operators.lookup text

namespace Operator

def isComparison : Operator → Bool
  | .compare _ => true
  | _ => false

def isUnary : Operator → Bool
  | .file _ | .terminal | .empty | .nonEmpty => true
  | _ => false

end Operator

/-! ## Files -/

/-- The file that two paths name, if they do name one. -/
def nameSameFile (fs : FileSystem) (a b : Path) : Bool :=
  match fs.stat a, fs.stat b with
  | .ok (x, _), .ok (y, _) => x = y
  | _, _ => false

/-- Whether the node of a file passes a test; all files belong to the one user. -/
def nodePasses (test : FileTest) : Node → Bool
  | .file _ content executable =>
      match test with
      | .executable => executable
      | .filled => content.size ≠ 0
      | .readable | .writable | .there | .regular | .owned | .groupOwned => true
      | _ => false
  | .directory =>
      match test with
      | .executable | .filled | .readable | .writable | .there | .directory | .owned
      | .groupOwned => true
      | _ => false
  | .sink _ =>
      match test with
      | .characters | .readable | .writable | .there | .owned | .groupOwned => true
      | _ => false
  | .link _ => test = .link

def passes (fs : FileSystem) (test : FileTest) (text : String) : Bool :=
  let p := Path.ofString (Octets.toText text)
  match if test = .link then fs.linkStat p else fs.stat p with
  | .ok (_, node) => nodePasses test node
  | .error _ => false

/-! ## Evaluation -/

/-- A condition that cannot be read fails with a message. -/
abbrev Result := Except String

def number (text : String) : Result Int :=
  match Arithmetic.number? false text with
  | some n => .ok n
  | none => .error ("Illegal number: " ++ text)

def compare (fs : FileSystem) (c : Comparison) (a b : String) : Result Bool := do
  match c with
  | .same => return a = b
  | .different => return a ≠ b
  | .before => return a < b
  | .after => return b < a
  | .equal => return (← number a) = (← number b)
  | .unequal => return (← number a) ≠ (← number b)
  | .atLeast => return (← number a) ≥ (← number b)
  | .greater => return (← number a) > (← number b)
  | .atMost => return (← number a) ≤ (← number b)
  | .less => return (← number a) < (← number b)
  | .newer | .older => return false
  | .sameFile =>
      return nameSameFile fs (Path.ofString (Octets.toText a)) (Path.ofString (Octets.toText b))

def unary (fs : FileSystem) (op : Operator) (text : String) : Result Bool := do
  match op with
  | .file test => return passes fs test text
  | .terminal =>
      let _ ← number text
      return false
  | .empty => return text = ""
  | _ => return text ≠ ""

/-- Whether an operator that takes one operand stands for itself before these words. -/
def isOperand (after : List String) : Bool :=
  match after with
  | [] => true
  | [_] => false
  | next :: _ => (operator? next).any Operator.isComparison

/-- What the first word is taken for; `none` for an operand. -/
def lex (words : List String) : Option Operator :=
  match words with
  | [] => none
  | text :: after =>
      match operator? text with
      | none => none
      | some op =>
          if op.isUnary && isOperand after then none
          else if op = .left && after.isEmpty then none
          else some op

def unexpected (words : List String) : Result Bool :=
  let operator := words.headD ""
  .error ((if operator = "" then "" else operator ++ ": ") ++ "unexpected operator")

mutual

/-- The value of a condition and the words from its last one on. -/
def disjunction (fs : FileSystem) :
    Nat → Option Operator → List String → Result (Bool × List String)
  | 0, _, _ => .error "too deep"
  | fuel + 1, op, words => do
      let (a, words) ← conjunction fs fuel op words
      if lex (words.drop 1) = some .or then
        let words := words.drop 2
        let (b, words) ← disjunction fs fuel (lex words) words
        return (a || b, words)
      else return (a, words)

def conjunction (fs : FileSystem) :
    Nat → Option Operator → List String → Result (Bool × List String)
  | 0, _, _ => .error "too deep"
  | fuel + 1, op, words => do
      let (a, words) ← negation fs fuel op words
      if lex (words.drop 1) = some .and then
        let words := words.drop 2
        let (b, words) ← conjunction fs fuel (lex words) words
        return (a && b, words)
      else return (a, words)

def negation (fs : FileSystem) :
    Nat → Option Operator → List String → Result (Bool × List String)
  | 0, _, _ => .error "too deep"
  | fuel + 1, op, words => do
      if op = some .not then
        match words.drop 1 with
        | [] => return (true, words)
        | next =>
            let (a, words) ← negation fs fuel (lex next) next
            return (!a, words)
      else primary fs fuel op words

def primary (fs : FileSystem) :
    Nat → Option Operator → List String → Result (Bool × List String)
  | 0, _, _ => .error "too deep"
  | fuel + 1, op, words => do
      match words with
      | [] => return (false, [])
      | text :: after =>
          if op = some .left then
            if lex after = some .right then return (false, after)
            else
              let (a, rest) ← disjunction fs fuel (lex after) after
              if lex (rest.drop 1) = some .right then return (a, rest.drop 1)
              else throw "closing paren expected"
          else
            match op, after with
            | some op, operand :: _ =>
                if op.isUnary then return (← unary fs op operand, after)
                else binary text after
            | some op, [] =>
                if op.isUnary then throw (text ++ ": argument expected") else binary text after
            | none, after => binary text after
where
  /-- A comparison, or an operand that is true unless it is empty. -/
  binary (text : String) (after : List String) : Result (Bool × List String) := do
    match lex after with
    | some (.compare c) =>
        match after.drop 1 with
        | operand :: rest => return (← compare fs c text operand, operand :: rest)
        | [] => throw ((after.headD "") ++ ": argument expected")
    | _ => return (text ≠ "", text :: after)

end

def evaluateFrom (fs : FileSystem) (op : Option Operator) (words : List String) :
    Result Bool := do
  let (a, rest) ← disjunction fs (8 * words.length + 8) op words
  match rest with
  | _ :: _ :: _ => unexpected rest
  | _ => return a

/--
The value of a condition.  Three and four words are read by their count first, and
then a negation in front of them holds for what is left, however often it is made.
-/
def evaluateWith (fs : FileSystem) (negated : Bool) : List String → Result Bool
  | [] => .ok false
  | first :: others => do
      let words := first :: others
      let plain : Result Bool := do
        return (← evaluateFrom fs (lex words) words) ^^ negated
      match others with
      | [op, last] =>
          if (operator? op).any Operator.isComparison then
            return (← evaluateFrom fs none words) ^^ negated
          else if first = "(" && last = ")" then
            return (← evaluateFrom fs (lex [op]) [op]) ^^ negated
          else if first = "!" then evaluateWith fs true others
          else plain
      | [a, b, last] =>
          if first = "(" && last = ")" then
            return (← evaluateFrom fs (lex [a, b]) [a, b]) ^^ negated
          else if first = "!" then evaluateWith fs true others
          else plain
      | _ => plain

def evaluate (fs : FileSystem) (words : List String) : Result Bool :=
  evaluateWith fs false words

end CacheUpkeep.Shell.Condition
