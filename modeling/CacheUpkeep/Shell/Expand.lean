import CacheUpkeep.Shell.Arithmetic
import CacheUpkeep.Shell.Field
import CacheUpkeep.Shell.Glob
import CacheUpkeep.Shell.State

/-!
# Expansion of words

Tildes, parameters, arithmetic and the output of commands take the place of what
names them in a word.  What comes out unquoted is split into fields, and a field that
is a pattern gives way to the names that it matches.
-/

namespace CacheUpkeep.Shell.Expand

open CacheUpkeep.Text

/--
What a word is expanded for: `quoted` in quotes, `full` for fields, `word` in place of
a parameter, whose own text is split then.
-/
structure Context where
  quoted : Bool
  full : Bool
  word : Bool
  startTilde : Bool
  inAssignment : Bool
  seenEquals : Bool
deriving DecidableEq, Repr

namespace Context

def plain : Context :=
  ⟨false, false, false, false, false, false⟩

def fields : Context :=
  { plain with full := true, startTilde := true }

/-- A word that stays one, such as the target of a redirection. -/
def single : Context :=
  { plain with startTilde := true }

def assignment : Context :=
  { plain with inAssignment := true }

def document : Context :=
  { plain with quoted := true }

def splitsText (c : Context) : Bool :=
  c.word && !c.quoted

def inner (c : Context) (quoted : Bool) : Context :=
  { c with quoted, word := true, startTilde := true }

end Context

/-! ## Parameters -/

def flagOrder : List Char :=
  "ubaCEVvxsnmiIfe".toList

def joined (separator : Option Char) : List String → List Char
  | [] => []
  | [last] => last.toList
  | first :: rest => first.toList ++ separator.toList ++ joined separator rest

def argumentSeparator (p : Process) : Option Char :=
  match p.value? "IFS" with
  | some text => text.toList.head?
  | none => some ' '

def nul : Char := Char.ofNat 0

/-- All arguments in one text; a NUL octet goes between those that become fields. -/
def allArguments (p : Process) (each quoted full : Bool) : List Char :=
  let separator :=
    if full && !quoted then
      if (p.value? "IFS").isSome then some nul else some ' '
    else if full && each then some nul
    else argumentSeparator p
  joined separator p.args

def parameter? (p : Process) (name : String) (quoted full : Bool) : Option (List Char) :=
  match name.toList with
  | ['$'] => some (digits p.mainId)
  | ['?'] => some (digits p.status)
  | ['#'] => some (digits p.args.length)
  | ['!'] => p.background.map digits
  | ['-'] => some (flagOrder.filter fun c => p.flags.contains c)
  | ['@'] => some (allArguments p true quoted full)
  | ['*'] => some (allArguments p false quoted full)
  | c :: cs =>
      if c.isDigit then
        match digitsValue (c :: cs) with
        | 0 => some p.zero.toList
        | n + 1 => (p.args[n]?).map String.toList
      else (p.value? name).map String.toList
  | [] => none

/-- Takes from a value what a pattern matches at one of its ends; none sees past a NUL. -/
def trimmed (side : Side) (longest : Bool) (pattern : Pattern) (value : List Char) :
    List Char :=
  let items := pattern.unescaped.items
  let isMatch (text : List Char) : Bool := Pattern.itemsMatch items (text.takeWhile (· ≠ nul))
  let counts := List.range (value.length + 1)
  match side with
  | .start =>
      let counts := if longest then counts.reverse else counts
      match counts.find? fun n => isMatch (value.take n) with
      | some n => value.drop n
      | none => value
  | .finish =>
      let counts := if longest then counts else counts.reverse
      match counts.find? fun n => isMatch (value.drop n) with
      | some n => value.take n
      | none => value

/-! ## Tildes -/

def homeOf? (p : Process) (user : String) : Option String :=
  if user = "" then p.value? "HOME"
  else if user = "root" then some "/root"
  else none

/-- The name after a tilde and the pieces after it, if nothing in the name is quoted. -/
def tildeName? (inAssignment : Bool) : Word → Option (List Char × Word)
  | [] => some ([], [])
  | .char c :: rest =>
      if c = '/' || (inAssignment && c = ':') then some ([], .char c :: rest)
      else (tildeName? inAssignment rest).map fun (name, rest) => (c :: name, rest)
  | _ => none

def tilde? (p : Process) (inAssignment : Bool) (w : Word) : Option (String × Word) :=
  match w with
  | .char '~' :: rest => do
      let (name, rest) ← tildeName? inAssignment rest
      return (← homeOf? p (String.ofList name), rest)
  | _ => none

/-! ## Arithmetic -/

def numberText (n : Int) : List Char :=
  if n < 0 then '-' :: digits n.natAbs else digits n.natAbs

/-- Variables as numbers, and complaints with the expression that they are about. -/
def numberAccess (text : String) : Arithmetic.Access Sh where
  get name := do
    let value := ((← Sh.process).value? name).getD ""
    match Arithmetic.number? true value with
    | some n => return n
    | none => Sh.fail ("Illegal number: " ++ value)
  set name n := Sh.setVariable name (String.ofList (numberText n))
  fail message := Sh.fail ("arithmetic expression: " ++ message ++ ": \"" ++ text ++ "\"")

/-! ## Words -/

/-- How the commands in words run: to the text that they write. -/
abbrev Substituter := Command → Sh String

def valueAtoms (quoted : Bool) (splitsAtNul : Bool) (value : List Char) : List Atom :=
  if quoted then
    if splitsAtNul then .part true :: Atom.chars true true value
    else Atom.chars true false value
  else .part false :: Atom.chars false true value

def isAllArguments (p : Process) (name : String) : Bool :=
  name = "@" && !p.args.isEmpty

/-- Text of a word itself, in a part of its own where such text is split. -/
def literalAtoms (splits fresh quoted : Bool) (c : Char) : List Atom :=
  if splits then (if fresh then [.part false] else []) ++ [.char c false true]
  else [.char c quoted false]

def outputText (text : String) : List Char :=
  let cs := text.toList.filter fun c => c.toNat ≠ 0
  (cs.reverse.dropWhile (· = '\n')).reverse

structure Progress where
  inQuotes : Bool
  seenEquals : Bool
  fresh : Bool

mutual

def pieces (run : Substituter) : Nat → Context → Word → Sh (List Atom)
  | 0, _, _ => throw .exhausted
  | fuel + 1, ctx, w => do
      let p ← Sh.process
      let start : Progress := ⟨false, ctx.seenEquals, true⟩
      match if ctx.startTilde then tilde? p ctx.inAssignment w else none with
      | some (home, rest) =>
          let atoms ← piecesFrom run fuel { ctx with startTilde := false } start rest
          return Atom.chars true false home.toList ++ atoms
      | none => piecesFrom run fuel { ctx with startTilde := false } start w

def piecesFrom (run : Substituter) : Nat → Context → Progress → Word → Sh (List Atom)
  | 0, _, _, _ => throw .exhausted
  | fuel + 1, ctx, place, w => do
      let quoted := ctx.quoted || place.inQuotes
      match w with
      | [] => return []
      | .char c :: rest =>
          let atoms := literalAtoms (ctx.splitsText && !place.inQuotes) place.fresh quoted c
          let first := c = '=' && !place.seenEquals
          let place := { place with seenEquals := place.seenEquals || c = '=', fresh := false }
          if ctx.inAssignment && (first || c = ':') then
            match tilde? (← Sh.process) true rest with
            | some (home, rest) =>
                let others ← piecesFrom run fuel ctx { place with fresh := true } rest
                return atoms ++ Atom.chars true false home.toList ++ others
            | none => return atoms ++ (← piecesFrom run fuel ctx place rest)
          else return atoms ++ (← piecesFrom run fuel ctx place rest)
      | .escaped c :: rest =>
          let others ← piecesFrom run fuel ctx { place with fresh := true } rest
          return .char c true false :: others
      | .quote :: .parameter "@" .value word :: .quote :: rest =>
          if place.inQuotes then
            let others ← piecesFrom run fuel ctx { place with inQuotes := false, fresh := true }
              (.parameter "@" .value word :: .quote :: rest)
            return .mark :: others
          else
            let atoms ← parameter run fuel { ctx with quoted := true } "@" .value word
            return atoms ++ (← piecesFrom run fuel ctx { place with fresh := true } rest)
      | .quote :: rest =>
          let others ←
            piecesFrom run fuel ctx { place with inQuotes := !place.inQuotes, fresh := true } rest
          return .mark :: others
      | .parameter name .spilled word :: _ =>
          let ctx' := { ctx with quoted }
          let atoms ← parameter run fuel ctx' name .value []
          return atoms ++ (← piecesFrom run fuel ctx { place with fresh := true } word)
      | .parameter name treatment word :: rest =>
          let ctx' := { ctx with quoted, seenEquals := place.seenEquals }
          let atoms ← parameter run fuel ctx' name treatment word
          return atoms ++ (← piecesFrom run fuel ctx { place with fresh := true } rest)
      | .arithmetic word :: rest =>
          let text := Atom.text (← pieces run fuel .plain word)
          let n ← Arithmetic.evaluate (numberAccess text) text
          let atoms := valueAtoms quoted false (numberText n)
          return atoms ++ (← piecesFrom run fuel ctx { place with fresh := true } rest)
      | .substitution command :: rest =>
          let atoms := valueAtoms quoted false (outputText (← run command))
          return atoms ++ (← piecesFrom run fuel ctx { place with fresh := true } rest)

def parameter (run : Substituter) :
    Nat → Context → String → Treatment → Word → Sh (List Atom)
  | 0, _, _, _, _ => throw .exhausted
  | fuel + 1, ctx, name, treatment, word => do
      let p ← Sh.process
      let value := parameter? p name ctx.quoted ctx.full
      let shown (value : List Char) : List Atom :=
        valueAtoms ctx.quoted (isAllArguments p name) value
      let isMissing (emptyCounts : Bool) : Bool :=
        value.isNone || (emptyCounts && value = some [])
      let checkSet : Sh Unit :=
        if value.isNone && p.flags.contains 'u' then Sh.fail (name ++ ": parameter not set")
        else pure ()
      match treatment with
      | .refused => Sh.fail "Bad substitution"
      | .value | .spilled =>
          checkSet
          return (value.map shown).getD []
      | .length =>
          checkSet
          return shown (digits (value.getD []).length)
      | .fallback .word emptyCounts =>
          if isMissing emptyCounts then pieces run fuel (ctx.inner ctx.quoted) word
          else return shown (value.getD [])
      | .fallback .alternative emptyCounts =>
          if isMissing emptyCounts then return shown []
          else pieces run fuel (ctx.inner ctx.quoted) word
      | .fallback .assign emptyCounts =>
          if isMissing emptyCounts then
            let text := Atom.text (← pieces run fuel .single word)
            Sh.checkName name
            Sh.setVariable name text
            let value := parameter? (← Sh.process) name ctx.quoted ctx.full
            return shown (value.getD [])
          else return shown (value.getD [])
      | .fallback .complain emptyCounts =>
          if isMissing emptyCounts then
            if word.isEmpty then
              Sh.fail (name ++ ": parameter not set" ++ if emptyCounts then " or null" else "")
            else
              Sh.fail (name ++ ": " ++ Atom.text (← pieces run fuel .single word))
          else return shown (value.getD [])
      | .trim side longest =>
          checkSet
          match value with
          | none => return []
          | some value =>
              let pattern := Atom.pattern (← pieces run fuel .single word)
              return shown (trimmed side longest pattern value)

end

def depthLimit : Nat := 100000

def text (run : Substituter) (ctx : Context) (w : Word) : Sh String := do
  return Atom.text (← pieces run depthLimit ctx w)

def pattern (run : Substituter) (w : Word) : Sh Pattern := do
  return Atom.pattern (← pieces run depthLimit .single w)

/-- The texts of a field: the names that it matches, or what it says itself. -/
def fieldTexts (p : Process) (fs : FileSystem) (field : List Atom) : List String :=
  if p.flags.contains 'f' then [Atom.text field]
  else
    match Glob.paths fs (Atom.pattern field) with
    | [] => [Atom.text field]
    | found => found

def fields (run : Substituter) (w : Word) : Sh (List String) := do
  let atoms ← pieces run depthLimit .fields w
  let p ← Sh.process
  let fs ← Sh.files
  let parts := splitFields ⟨p.separators⟩ none atoms
  return parts.flatMap (fieldTexts p fs)

end CacheUpkeep.Shell.Expand
