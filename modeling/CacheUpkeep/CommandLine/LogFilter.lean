import CacheUpkeep.CommandLine.LogPattern
import CacheUpkeep.Text.Blank
import CacheUpkeep.Text.Decimal
import CacheUpkeep.Text.Letters
import CacheUpkeep.Text.Lines
import CacheUpkeep.Number.Limits

/-!
# Log filters

A filter is a list of directives between commas.  A directive sets a level for
targets whose names start with a text, for events that carry given fields, or for
what happens in a span.  Of the directives that are about an event the most
specific one decides: the one with the longest text, then the one with the most
fields, then the one that sorts last.
-/

namespace CacheUpkeep.CommandLine

open CacheUpkeep.Text CacheUpkeep.Number

inductive LogLevel where
  | off
  | error
  | warn
  | info
  | debug
  | trace
deriving DecidableEq, Repr

namespace LogLevel

/-- The rank of a level; a filter of some rank lets lower ones pass. -/
def rank : LogLevel → Nat
  | .off => 0
  | .error => 1
  | .warn => 2
  | .info => 3
  | .debug => 4
  | .trace => 5

def name : LogLevel → String
  | .off => "off"
  | .error => "error"
  | .warn => "warn"
  | .info => "info"
  | .debug => "debug"
  | .trace => "trace"

def all : List LogLevel :=
  [off, error, warn, info, debug, trace]

/-- The number of a level, with an optional plus sign and any zeros in front. -/
def number? (text : List Char) : Option Nat :=
  let ds :=
    match text with
    | '+' :: rest => rest
    | _ => text
  if ds.isEmpty || !ds.all isDigit || limit64 ≤ digitsValue ds then none
  else some (digitsValue ds)

/-- A level is its name in any case or the number of its rank. -/
def read (text : List Char) : Option LogLevel :=
  all.find? fun level =>
    text.map Char.toLower = level.name.toList || number? text = some level.rank

end LogLevel

/-- A field that an event must have, and whether its value matters too. -/
structure LogField where
  name : List Char
  hasValue : Bool
deriving DecidableEq, Repr

structure LogDirective where
  target : Option (List Char)
  span : Option (List Char)
  fields : List LogField
  level : LogLevel
deriving DecidableEq, Repr

/-- Why a text is no filter: it breaks the grammar, or it is cut inside a character. -/
inductive LogFault where
  | refused
  | torn
deriving DecidableEq, Repr

namespace LogDirective

/-- Where the reading of a directive stands, with the offset where a part began. -/
inductive Stage where
  | start
  | levelOrTarget (start : Nat)
  | span (start : Nat)
  | field (start : Nat)
  | fieldsEnd
  | scopeEnd
  | level (start : Nat)
deriving DecidableEq, Repr

structure Reading where
  stage : Stage
  directive : LogDirective
deriving DecidableEq, Repr

def dropOctets : Nat → List Char → Except LogFault (List Char)
  | 0, text => .ok text
  | _ + 1, [] => .error .torn
  | n + 1, c :: rest =>
      if c.utf8Size ≤ n + 1 then dropOctets (n + 1 - c.utf8Size) rest else .error .torn
termination_by _ text => text.length

def takeOctets : Nat → List Char → Except LogFault (List Char)
  | 0, _ => .ok []
  | _ + 1, [] => .error .torn
  | n + 1, c :: rest =>
      if c.utf8Size ≤ n + 1 then do
        let others ← takeOctets (n + 1 - c.utf8Size) rest
        return c :: others
      else .error .torn
termination_by _ text => text.length

def slice (text : List Char) (start stop : Nat) : Except LogFault (List Char) := do
  takeOctets (stop - start) (← dropOctets start text)

def readField (text : List Char) : Except LogFault LogField :=
  if text.isEmpty then .error .refused
  else
    match splitAtEach '=' text with
    | name :: value :: _ =>
        if LogPattern.isValid value then .ok ⟨name, true⟩ else .error .refused
    | _ => .ok ⟨text, false⟩

def readLevel (text : List Char) : Except LogFault LogLevel :=
  if text.isEmpty then .ok .trace
  else
    match LogLevel.read text with
    | some level => .ok level
    | none => .error .refused

def startsTarget (c : Char) : Bool :=
  c = '-' || c = ':' || c = '_' || isLetterOrNumber c

/-- Reads one character, which stands at an offset; `text` is what offsets count in. -/
def step (text : List Char) (r : Reading) (offset : Nat) (c : Char) :
    Except LogFault Reading := do
  let d := r.directive
  match r.stage, c with
  | .start, '[' => return { r with stage := .span (offset + 1) }
  | .start, c =>
      if startsTarget c then return { r with stage := .levelOrTarget offset }
      else throw .refused
  | .levelOrTarget start, '=' =>
      return ⟨.level (offset + 1), { d with target := some (← slice text start offset) }⟩
  | .levelOrTarget start, '[' =>
      return ⟨.span (offset + 1), { d with target := some (← slice text start offset) }⟩
  | .levelOrTarget _, _ => return r
  | .span start, ']' =>
      return ⟨.scopeEnd, { d with span := some (← slice text start offset) }⟩
  | .span start, '\x7b' =>
      let name ← slice text start offset
      return ⟨.field (offset + 1), { d with span := if name.isEmpty then none else some name }⟩
  | .span _, _ => return r
  | .field start, '\x7d' =>
      let field ← readField (← slice text start offset)
      return ⟨.fieldsEnd, { d with fields := d.fields ++ [field] }⟩
  | .field _, _ => return r
  | .fieldsEnd, ']' => return { r with stage := .scopeEnd }
  | .fieldsEnd, _ => throw .refused
  | .scopeEnd, '=' => return { r with stage := .level (offset + 1) }
  | .scopeEnd, _ => throw .refused
  | .level _, _ => return r

def stepAll (text : List Char) (r : Reading) (offset : Nat) :
    List Char → Except LogFault Reading
  | [] => .ok r
  | c :: rest => do
      let r ← step text r offset c
      stepAll text r (offset + c.utf8Size) rest

/-- A level of its own is for all targets, and a target of its own gets the most. -/
def finish (text : List Char) (r : Reading) : Except LogFault LogDirective := do
  match r.stage with
  | .levelOrTarget start =>
      let rest ← dropOctets start text
      match LogLevel.read rest with
      | some level => return { r.directive with level, target := none }
      | none => return { r.directive with level := .trace, target := some rest }
  | .level start => return { r.directive with level := ← readLevel (← dropOctets start text) }
  | .scopeEnd => return r.directive
  | _ => throw .refused

/--
Reads a directive.  Blanks at its ends are passed over, but offsets count from the
start of the text, so a part keeps blanks that it covers.
-/
def read (text : List Char) : Except LogFault LogDirective := do
  finish text (← stepAll text ⟨.start, ⟨none, none, [], .trace⟩⟩ 0 (trimList text))

/-- A directive about a span, or about a value, never decides for an event outside spans. -/
def decidesAlone (d : LogDirective) : Bool :=
  d.span.isNone && !d.fields.any LogField.hasValue

def isAbout (target : String) (fields : List String) (d : LogDirective) : Bool :=
  (d.target.getD []).isPrefixOf target.toList &&
    d.fields.all fun field => fields.contains (String.ofList field.name)

/-- The order of specificity, by target and then by the number of fields. -/
def specificity (d : LogDirective) : List Nat :=
  [match d.target with
    | none => 0
    | some target => (String.ofList target).utf8ByteSize + 1,
    d.fields.length]

def labels (d : LogDirective) : List String :=
  (d.target.map String.ofList).toList ++ d.fields.map fun field => String.ofList field.name

/-- Whether `b` goes before `a`; of two with the same labels the later one does. -/
def yields (a b : LogDirective) : Bool :=
  List.lex a.specificity b.specificity (fun m n => decide (m < n)) ||
    (a.specificity = b.specificity &&
      !List.lex b.labels a.labels fun s t => decide (s < t))

end LogDirective

structure LogFilter where
  directives : List LogDirective
deriving DecidableEq, Repr

namespace LogFilter

def standard : LogFilter :=
  ⟨[⟨none, none, [], .info⟩]⟩

/-- Nothing passes a filter without directives. -/
def read (text : String) : Except LogFault LogFilter := do
  let parts := (splitAtEach ',' text.toList).filter fun part => !part.isEmpty
  return ⟨← parts.mapM LogDirective.read⟩

/-- The filter of a flag or, without one, of a variable; `none` if the text is torn. -/
def ofSources (flag setting : Option String) : Option LogFilter :=
  match (flag <|> setting).map read with
  | some (.ok f) => some f
  | some (.error .torn) => none
  | some (.error .refused) | none => some standard

def deciding? (f : LogFilter) (target : String) (fields : List String) :
    Option LogDirective :=
  (f.directives.filter fun d => d.decidesAlone && d.isAbout target fields).foldl
    (fun best d =>
      match best with
      | some b => if b.yields d then some d else some b
      | none => some d)
    none

def passes (f : LogFilter) (target : String) (fields : List String) (level : LogLevel) :
    Bool :=
  match f.deciding? target fields with
  | some d => level.rank ≤ d.level.rank
  | none => false

end LogFilter

end CacheUpkeep.CommandLine
