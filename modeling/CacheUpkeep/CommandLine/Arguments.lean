import CacheUpkeep.Number.Limits
import CacheUpkeep.Path
import CacheUpkeep.Retention

/-!
# Arguments of the command line

Options may stand before and after the subcommand, and one after it wins.  On
one side each option stands at most once.  Every fault of usage ends the
reading, and so does a question for help or for the version.
-/

namespace CacheUpkeep.CommandLine

open CacheUpkeep.Text CacheUpkeep.Number

inductive Subcommand where
  | doctor
  | configureCachePath
  | ctcacheInfo
  | ctcachePrune (dryRun : Bool)
  | ctcacheUnlock
  | ciPre
  | ciPost
  | ciPruneConanCache (dryRun : Bool)
  | pruneDir (root : Path) (dryRun : Bool)
  | diskUsage (paths : List Path)
  | showConfig
deriving DecidableEq, Repr

structure Options where
  config : Option Path
  retention : Option RetentionWindow
  lockTimeout : Option Nat
  logLevel : Option String
deriving DecidableEq, Repr

structure Arguments where
  options : Options
  subcommand : Subcommand
deriving DecidableEq, Repr

inductive Refusal where
  | help
  | version
  | usage
deriving DecidableEq, Repr

/-! ## Words of the language -/

inductive Verb where
  | doctor
  | configureCachePath
  | ctcacheInfo
  | ctcachePrune
  | ctcacheUnlock
  | ciPre
  | ciPost
  | ciPruneConanCache
  | pruneDir
  | diskUsage
  | showConfig
deriving DecidableEq, Repr

namespace Verb

def all : List Verb :=
  [doctor, configureCachePath, ctcacheInfo, ctcachePrune, ctcacheUnlock, ciPre, ciPost,
    ciPruneConanCache, pruneDir, diskUsage, showConfig]

def name : Verb → String
  | .doctor => "doctor"
  | .configureCachePath => "configure-cache-path"
  | .ctcacheInfo => "ctcache-info"
  | .ctcachePrune => "ctcache-prune"
  | .ctcacheUnlock => "ctcache-unlock"
  | .ciPre => "ci-pre"
  | .ciPost => "ci-post"
  | .ciPruneConanCache => "ci-prune-conan-cache"
  | .pruneDir => "prune-dir"
  | .diskUsage => "disk-usage"
  | .showConfig => "show-config"

def ofName? (name : String) : Option Verb :=
  all.find? fun v => v.name = name

def takesDryRun : Verb → Bool
  | .ctcachePrune | .ciPruneConanCache | .pruneDir => true
  | _ => false

def takesOperand (v : Verb) (count : Nat) : Bool :=
  match v with
  | .pruneDir => count = 0
  | .diskUsage => true
  | _ => false

end Verb

inductive OptionName where
  | config
  | retention
  | lockTimeout
  | logLevel
deriving DecidableEq, Repr

def OptionName.ofLong? (name : String) : Option OptionName :=
  match name with
  | "config" => some .config
  | "retention" => some .retention
  | "lock-timeout" => some .lockTimeout
  | "log-level" => some .logLevel
  | _ => none

/-! ## One side of the subcommand -/

structure Side where
  options : Options
  dryRun : Bool
  operands : List Path
deriving DecidableEq, Repr

def Side.none : Side :=
  ⟨⟨.none, .none, .none, .none⟩, false, []⟩

/-- A value that no earlier one may have set. -/
def setOnce {α : Type} (old new : Option α) : Except Refusal (Option α) :=
  match old, new with
  | none, some value => .ok (some value)
  | _, _ => .error .usage

def readPath? (text : String) : Option Path :=
  if text = "" then none else some (Path.ofString text)

/-- A numeral of 64 bits with an optional plus sign. -/
def readSeconds? (text : String) : Option Nat :=
  let ds :=
    match text.toList with
    | '+' :: ds => ds
    | ds => ds
  if ds.isEmpty || !ds.all isDigit then none
  else if digitsValue ds < limit64 then some (digitsValue ds)
  else none

def setOption (o : Options) (name : OptionName) (text : String) :
    Except Refusal Options :=
  match name with
  | .config => return { o with config := ← setOnce o.config (readPath? text) }
  | .retention =>
      return { o with retention := ← setOnce o.retention (RetentionWindow.read text).toOption }
  | .lockTimeout => return { o with lockTimeout := ← setOnce o.lockTimeout (readSeconds? text) }
  | .logLevel => return { o with logLevel := ← setOnce o.logLevel (some text) }

/-! ## Reading -/

/-- Options of this side, and for each one missing that of the other side. -/
def Options.orElse (o other : Options) : Options :=
  ⟨o.config <|> other.config, o.retention <|> other.retention,
    o.lockTimeout <|> other.lockTimeout, o.logLevel <|> other.logLevel⟩

/-- What the next word can be: anything, an operand, or a subcommand to explain. -/
inductive Mode where
  | mixed
  | operands
  | topic (given : Bool)
deriving DecidableEq, Repr

structure Reading where
  outer : Options
  verb : Option Verb
  side : Side
  pending : Option OptionName
  mode : Mode
deriving DecidableEq, Repr

namespace Reading

def start : Reading :=
  ⟨Side.none.options, none, Side.none, none, .mixed⟩

def addOption (r : Reading) (name : OptionName) (text : String) :
    Except Refusal Reading := do
  let options ← setOption r.side.options name text
  return { r with side := { r.side with options }, pending := none }

def addDryRun (r : Reading) : Except Refusal Reading :=
  match r.verb with
  | some verb =>
      if verb.takesDryRun && !r.side.dryRun then
        .ok { r with side := { r.side with dryRun := true } }
      else .error .usage
  | none => .error .usage

def addOperand (r : Reading) (text : String) : Except Refusal Reading :=
  match r.verb, readPath? text with
  | some verb, some path =>
      if verb.takesOperand r.side.operands.length then
        .ok { r with side := { r.side with operands := r.side.operands ++ [path] } }
      else .error .usage
  | _, _ => .error .usage

def enter (r : Reading) (verb : Verb) : Reading :=
  { r with outer := r.side.options, verb := some verb, side := Side.none }

/-- An option after two hyphens, with its value after an equals sign. -/
def addLong (r : Reading) (text : List Char) : Except Refusal Reading :=
  let name := String.ofList (text.takeWhile (· ≠ '='))
  match OptionName.ofLong? name, text.dropWhile (· ≠ '=') with
  | some option, [] => .ok { r with pending := some option }
  | some option, _ :: value => r.addOption option (String.ofList value)
  | none, [] =>
      if name = "help" then .error .help
      else if name = "version" && r.verb.isNone then .error .version
      else if name = "dry-run" then r.addDryRun
      else .error .usage
  | none, _ => .error .usage

/-- An option after one hyphen; the value may follow at once or after an equals sign. -/
def addShort (r : Reading) : List Char → Except Refusal Reading
  | ['c'] => .ok { r with pending := some .config }
  | 'c' :: '=' :: value => r.addOption .config (String.ofList value)
  | 'c' :: value => r.addOption .config (String.ofList value)
  | 'h' :: _ => .error .help
  | 'V' :: _ => .error (if r.verb.isNone then .version else .usage)
  | _ => .error .usage

def addWord (r : Reading) (text : String) : Except Refusal Reading :=
  match r.verb, Verb.ofName? text with
  | none, some verb => .ok (r.enter verb)
  | none, none =>
      if text = "help" then .ok { r with mode := .topic false } else .error .usage
  | some _, _ => r.addOperand text

def addTopic (r : Reading) (given : Bool) (text : String) : Except Refusal Reading :=
  if !given && ((Verb.ofName? text).isSome || text = "help") then
    .ok { r with mode := .topic true }
  else .error .usage

def step (r : Reading) (text : String) : Except Refusal Reading :=
  match r.pending, r.mode, text.toList with
  | some _, _, '-' :: _ :: _ => .error .usage
  | some option, _, _ => r.addOption option text
  | none, .operands, _ => r.addOperand text
  | none, .topic given, _ => r.addTopic given text
  | none, .mixed, ['-', '-'] => .ok { r with mode := .operands }
  | none, .mixed, '-' :: '-' :: rest => r.addLong rest
  | none, .mixed, '-' :: c :: rest => r.addShort (c :: rest)
  | none, .mixed, _ => r.addWord text

def subcommand (s : Side) : Verb → Except Refusal Subcommand
  | .doctor => .ok .doctor
  | .configureCachePath => .ok .configureCachePath
  | .ctcacheInfo => .ok .ctcacheInfo
  | .ctcachePrune => .ok (.ctcachePrune s.dryRun)
  | .ctcacheUnlock => .ok .ctcacheUnlock
  | .ciPre => .ok .ciPre
  | .ciPost => .ok .ciPost
  | .ciPruneConanCache => .ok (.ciPruneConanCache s.dryRun)
  | .pruneDir =>
      match s.operands with
      | [root] => .ok (.pruneDir root s.dryRun)
      | _ => .error .usage
  | .diskUsage => if s.operands.isEmpty then .error .usage else .ok (.diskUsage s.operands)
  | .showConfig => .ok .showConfig

def finish (r : Reading) : Except Refusal Arguments :=
  match r.mode, r.pending, r.verb with
  | .topic _, _, _ => .error .help
  | _, none, some verb => do
      return ⟨r.side.options.orElse r.outer, ← subcommand r.side verb⟩
  | _, _, _ => .error .usage

end Reading

def Arguments.read (texts : List String) : Except Refusal Arguments := do
  (← texts.foldlM Reading.step Reading.start).finish

end CacheUpkeep.CommandLine
