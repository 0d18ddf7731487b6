/-!
# Patterns of the shell

A pattern is a list of octets, each of them quoted or not.  Unquoted `*`, `?` and
bracket lists match; a backslash quotes what follows it, and all else stands for
itself.
-/

namespace CacheUpkeep.Shell

structure PatternChar where
  char : Char
  quoted : Bool
deriving DecidableEq, Repr

namespace PatternChar

def isActive (p : PatternChar) (c : Char) : Bool :=
  !p.quoted && p.char = c

end PatternChar

inductive CharClass where
  | alnum
  | alpha
  | blank
  | cntrl
  | digit
  | graph
  | lower
  | print
  | punct
  | space
  | upper
  | xdigit
deriving DecidableEq, Repr

namespace CharClass

def name : CharClass → String
  | .alnum => "alnum"
  | .alpha => "alpha"
  | .blank => "blank"
  | .cntrl => "cntrl"
  | .digit => "digit"
  | .graph => "graph"
  | .lower => "lower"
  | .print => "print"
  | .punct => "punct"
  | .space => "space"
  | .upper => "upper"
  | .xdigit => "xdigit"

def all : List CharClass :=
  [alnum, alpha, blank, cntrl, digit, graph, lower, print, punct, space, upper, xdigit]

def isGraph (c : Char) : Bool :=
  33 ≤ c.toNat && c.toNat ≤ 126

def contains (k : CharClass) (c : Char) : Bool :=
  match k with
  | .alnum => c.isAlphanum
  | .alpha => c.isAlpha
  | .blank => c = ' ' || c = '\t'
  | .cntrl => c.toNat < 32 || c.toNat = 127
  | .digit => c.isDigit
  | .graph => isGraph c
  | .lower => c.isLower
  | .print => c = ' ' || isGraph c
  | .punct => isGraph c && !c.isAlphanum
  | .space => c = ' ' || (9 ≤ c.toNat && c.toNat ≤ 13)
  | .upper => c.isUpper
  | .xdigit => c.isDigit || ('a' ≤ c && c ≤ 'f') || ('A' ≤ c && c ≤ 'F')

end CharClass

inductive ListItem where
  | range (low high : Char)
  | named (k : CharClass)
deriving DecidableEq, Repr

/-- An octet from 128 on counts as negative in ranges. -/
def signedOctet (c : Char) : Int :=
  if c.toNat < 128 then c.toNat else (c.toNat : Int) - 256

def ListItem.contains (x : ListItem) (c : Char) : Bool :=
  match x with
  | .range low high =>
      signedOctet low ≤ signedOctet c && signedOctet c ≤ signedOctet high
  | .named k => k.contains c

inductive PatternItem where
  | one (c : Char)
  | any
  | many
  | list (negated : Bool) (items : List ListItem)
deriving DecidableEq, Repr

abbrev Pattern := List PatternChar

namespace Pattern

/-- The class that is named between colons, and the pattern after its bracket. -/
def namedClass? (p : Pattern) : Option (CharClass × Pattern) :=
  CharClass.all.findSome? fun k =>
    let text := ":" ++ k.name ++ ":]"
    if (p.take text.length).map PatternChar.char = text.toList then
      some (k, p.drop text.length)
    else none

def rangeEnd? (p : Pattern) : Option (Char × Pattern) :=
  match p with
  | dash :: high :: rest =>
      if dash.isActive '-' && !high.isActive ']' then some (high.char, rest) else none
  | _ => none

/-- The elements of a bracket list up to its end, the first of which is no end. -/
def listItems? : Nat → Pattern → Option (List ListItem × Pattern)
  | 0, _ => none
  | _ + 1, [] => none
  | fuel + 1, p :: rest =>
      let named := if p.isActive '[' then namedClass? rest else none
      let (item, rest) :=
        match named with
        | some (k, rest) => (ListItem.named k, rest)
        | none =>
            match rangeEnd? rest with
            | some (high, rest) => (.range p.char high, rest)
            | none => (.range p.char p.char, rest)
      match rest with
      | [] => none
      | q :: after =>
          if q.isActive ']' then some ([item], after)
          else (listItems? fuel rest).map fun (items, after) => (item :: items, after)

/-- The bracket list after its opening bracket. -/
def bracket? (p : Pattern) : Option (PatternItem × Pattern) :=
  let (negated, inside) :=
    match p with
    | q :: rest => if q.isActive '!' then (true, rest) else (false, p)
    | [] => (false, p)
  (listItems? (inside.length + 1) inside).map fun (items, after) =>
    (.list negated items, after)

/-- Takes each backslash away that quotes the octet after it. -/
def unescaped : Pattern → Pattern
  | [] => []
  | [p] => if p.isActive '\\' then [⟨'\\', true⟩] else [p]
  | p :: q :: rest =>
      if p.isActive '\\' then ⟨q.char, true⟩ :: unescaped rest else p :: unescaped (q :: rest)

/-- The parts of a pattern; a bracket without its end stands for itself. -/
def itemsWith : Nat → Pattern → List PatternItem
  | 0, _ => []
  | _ + 1, [] => []
  | fuel + 1, p :: rest =>
      if p.isActive '*' then .many :: itemsWith fuel rest
      else if p.isActive '?' then .any :: itemsWith fuel rest
      else
        match if p.isActive '[' then bracket? rest else none with
        | some (item, after) => item :: itemsWith fuel after
        | none => .one p.char :: itemsWith fuel rest

def items (p : Pattern) : List PatternItem :=
  itemsWith (p.length + 1) p.unescaped

def someEnd (test : List Char → Bool) : List Char → Bool
  | [] => test []
  | c :: rest => test (c :: rest) || someEnd test rest

def itemsMatch : List PatternItem → List Char → Bool
  | [], text => text.isEmpty
  | .many :: rest, text => someEnd (itemsMatch rest) text
  | .one c :: rest, d :: text => c = d && itemsMatch rest text
  | .any :: rest, _ :: text => itemsMatch rest text
  | .list negated items :: rest, d :: text =>
      (items.any (·.contains d) ^^ negated) && itemsMatch rest text
  | _ :: _, [] => false

def accepts (p : Pattern) (text : List Char) : Bool :=
  itemsMatch p.items text

def text (p : Pattern) : List Char :=
  p.map PatternChar.char

def isActive (p : Pattern) : Bool :=
  p.items.any fun
    | .one _ => false
    | _ => true

end Pattern

end CacheUpkeep.Shell
