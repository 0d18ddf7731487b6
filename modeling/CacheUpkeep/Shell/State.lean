import CacheUpkeep.Action
import CacheUpkeep.FileSystem.Edit
import CacheUpkeep.Shell.Arithmetic
import CacheUpkeep.Shell.Octets
import CacheUpkeep.Shell.Syntax
import CacheUpkeep.Text.Decimal

/-!
# State of a shell

The files and streams that all processes of a run share, and what each process has
of its own: variables, functions, descriptors, traps and jobs.  A run of commands
is an action on both that can stop before its end.
-/

namespace CacheUpkeep.Shell

open CacheUpkeep.Text

/-! ## Streams -/

/-- What a stream may be used for; `appends` moves each writing to the end of a file. -/
structure Access where
  reads : Bool
  writes : Bool
  appends : Bool
deriving DecidableEq, Repr

namespace Access

def reading : Access :=
  ⟨true, false, false⟩

def writing : Access :=
  ⟨false, true, false⟩

def appending : Access :=
  ⟨false, true, true⟩

def both : Access :=
  ⟨true, true, false⟩

end Access

inductive Target where
  | file (id offset : Nat) (access : Access)
  | nowhere (access : Access)
  | incoming (octets : List UInt8)
  | outgoing (octets : ByteArray)

/--
What the processes of a run share; descriptors are numbers of streams.  `posted` are
signals by the process that they are for, which sees them when its turn comes.
-/
structure World where
  files : FileSystem
  streams : Array Target
  nextProcess : Nat
  posted : List (Nat × Nat)

/-! ## Processes -/

structure ShellVariable where
  value : Option String
  exported : Bool
  readonly : Bool
deriving DecidableEq, Repr

abbrev ShellVariables := List (String × ShellVariable)

/-- What a function gives back when it ends: variables as they were, and flags. -/
structure Kept where
  vars : List (String × Option ShellVariable)
  flags : Option (List Char)
deriving DecidableEq, Repr

/--
Commands that are passed over after `break`, `continue` or `return`, the last with a
status of its own or without.
-/
inductive Skip where
  | leave
  | again
  | result
  | bareResult
deriving DecidableEq, Repr

inductive Ending where
  | exit (code : Nat)
  | signal (number : Nat)
deriving DecidableEq, Repr

def Ending.status : Ending → Nat
  | .exit code => code
  | .signal n => 128 + n

/-- A command in the background, which runs in a directory when it is waited for. -/
inductive JobState (π : Type) where
  | waiting (command : Command) (process : π) (here : Location)
  | done (ending : Ending)

/--
A process that runs a shell.  `line` is that of the command under way, `inputLine`
that up to which its script has been read, `buffer` what a built-in command has
written so far, and `locals` are what functions under way give back.
`signals` have arrived and wait for their traps, and `ignored` are those that never do.
The first of the `ancestors` is the parent, and `tracked` are the commands that have
been found in the search path.
-/
structure Process where
  vars : ShellVariables
  functions : List (String × Command)
  aliases : List (String × String)
  documents : List (Nat × Document)
  nextDocument : Nat
  args : List String
  zero : String
  commandName : Option String
  flags : List Char
  traps : List (Nat × String)
  ignored : List Nat
  signals : List Nat
  descriptors : List (Nat × Nat)
  buffer : String
  status : Nat
  substituted : Nat
  saved : Option Nat
  line : Nat
  inputLine : Nat
  functionDepth : Nat
  loops : Nat
  skip : Option (Skip × Nat)
  locals : List Kept
  id : Nat
  mainId : Nat
  ancestors : List Nat
  background : Option Nat
  jobs : List (Nat × JobState Process)
  optionIndex : Nat
  optionOffset : Option Nat
  directory : String
  mask : Nat
  tracing : Bool
  tracked : List String

structure State where
  world : World
  process : Process

/--
Why commands stop: `exit` was asked for, a command failed in a way that ends a shell,
the last command is done, the process is over, or the run went too deep.
-/
inductive Stop where
  | exit
  | failure
  | done
  | over (ending : Ending)
  | exhausted
deriving DecidableEq, Repr

abbrev Sh := Action State Stop

/--
How a command is run: its status may be looked at, so that a failure does not end the
shell, and it may be the last thing that its process does.
-/
structure Mode where
  tested : Bool
  last : Bool
deriving DecidableEq, Repr

def Mode.plain : Mode :=
  ⟨false, false⟩

def Mode.condition : Mode :=
  ⟨true, false⟩

/-- How commands within others run; each leaves its status in the process. -/
abbrev Evaluator := Mode → Command → Sh Unit

namespace Sh

def process : Sh Process := do
  return (← get).process

def modifyProcess (f : Process → Process) : Sh Unit :=
  modify fun s => { s with process := f s.process }

def files : Sh FileSystem := do
  return (← get).world.files

def modifyFiles (f : FileSystem → FileSystem) : Sh Unit :=
  modify fun s => { s with world := { s.world with files := f s.world.files } }

def setStatus (status : Nat) : Sh Unit :=
  modifyProcess fun p => { p with status }

def hasFlag (flag : Char) : Sh Bool := do
  return (← process).flags.contains flag

end Sh

/-! ## Reading and writing -/

namespace World

def contentOf? (w : World) (id : Nat) : Option ByteArray :=
  w.files.entries.findSome? fun (_, node) =>
    match node with
    | .file n content _ => if n = id then some content else none
    | _ => none

def setContentOf (w : World) (id : Nat) (content : ByteArray) : World :=
  let set (e : Entry) : Entry :=
    match e with
    | (location, .file n old executable) =>
        (location, .file n (if n = id then content else old) executable)
    | e => e
  { w with files := { w.files with entries := w.files.entries.map set } }

/-- The content with other octets written at an offset, and zeros before it if need be. -/
def overwritten (content : ByteArray) (offset : Nat) (octets : ByteArray) : ByteArray :=
  let padding := (List.replicate (offset - content.size) 0).toByteArray
  let before := content.extract 0 offset ++ padding
  before ++ octets ++ content.extract (offset + octets.size) content.size

def addStream (w : World) (target : Target) : Nat × World :=
  (w.streams.size, { w with streams := w.streams.push target })

/-- Writes octets to a stream; a stream that is only read takes none. -/
def write (w : World) (stream : Nat) (octets : ByteArray) : Option World :=
  match w.streams[stream]? with
  | some (.outgoing before) =>
      some { w with streams := w.streams.set! stream (.outgoing (before ++ octets)) }
  | some (.nowhere access) => if access.writes then some w else none
  | some (.file id offset access) =>
      if !access.writes then none
      else
        let content := (w.contentOf? id).getD ByteArray.empty
        let offset := if access.appends then content.size else offset
        let w := w.setContentOf id (overwritten content offset octets)
        some { w with
          streams := w.streams.set! stream (.file id (offset + octets.size) access) }
  | _ => none

def read (w : World) (stream count : Nat) : List UInt8 × World :=
  match w.streams[stream]? with
  | some (.incoming octets) =>
      (octets.take count,
        { w with streams := w.streams.set! stream (.incoming (octets.drop count)) })
  | some (.file id offset access) =>
      let content := (w.contentOf? id).getD ByteArray.empty
      let octets :=
        if access.reads then (content.extract offset (offset + count)).toList else []
      (octets,
        { w with
          streams := w.streams.set! stream (.file id (offset + octets.length) access) })
  | _ => ([], w)

def written (w : World) (stream : Nat) : ByteArray :=
  match w.streams[stream]? with
  | some (.outgoing octets) => octets
  | _ => ByteArray.empty

end World

namespace Sh

/-- Writes to a descriptor at once; whether it could. -/
def writeTo (fd : Nat) (text : String) : Sh Bool := do
  let s ← get
  match s.process.descriptors.lookup fd with
  | none => return text.isEmpty
  | some stream =>
      match s.world.write stream (Octets.toBytes text) with
      | some world =>
          set { s with world }
          return true
      | none => return text.isEmpty

/-- Writes a text of a built-in command, which is kept until the command ends. -/
def put (text : String) : Sh Unit :=
  modifyProcess fun p => { p with buffer := p.buffer ++ text }

/-- Writes out what built-in commands have written; whether it could. -/
def flush : Sh Bool := do
  let text := (← process).buffer
  modifyProcess fun p => { p with buffer := "" }
  writeTo 1 text

def leave {α : Type} (ending : Ending) : Sh α :=
  throw (.over ending)

def warn (message : String) : Sh Unit := do
  let p ← process
  let command := (p.commandName.map (· ++ ": ")).getD ""
  let _ ← writeTo 2
    (p.zero ++ ": " ++ numeral p.line ++ ": " ++ command ++ message ++ "\n")

def fail {α : Type} (message : String) : Sh α := do
  setStatus 2
  warn message
  let _ ← flush
  throw .failure

def always {α : Type} (x : Sh α) (last : Sh Unit) : Sh α := do
  let r ← ExceptT.lift x.run
  last
  match r with
  | .ok a => return a
  | .error e => throw e

def readAll (fd : Nat) : Sh (List UInt8) := do
  let s ← get
  match s.process.descriptors.lookup fd with
  | none => return []
  | some stream =>
      let size :=
        match s.world.streams[stream]? with
        | some (.incoming octets) => octets.length
        | some (.file id _ _) => ((s.world.contentOf? id).map ByteArray.size).getD 0
        | _ => 0
      let (octets, world) := s.world.read stream size
      set { s with world }
      return octets

end Sh

/-! ## Variables -/

namespace Process

def held? (p : Process) (name : String) : Option ShellVariable :=
  p.vars.lookup name

def value? (p : Process) (name : String) : Option String :=
  (p.held? name).bind ShellVariable.value

/-- A new variable comes after the others. -/
def putVariable (p : Process) (name : String) (v : ShellVariable) : Process :=
  if (p.held? name).isSome then
    let replace (old : String × ShellVariable) : String × ShellVariable :=
      if old.1 = name then (name, v) else old
    { p with vars := p.vars.map replace }
  else { p with vars := p.vars ++ [(name, v)] }

def dropVariable (p : Process) (name : String) : Process :=
  { p with vars := p.vars.filter fun (n, _) => n ≠ name }

def partOf (count : Nat) (name : String) : Nat :=
  let codes := name.toList.map Char.toNat
  (16 * codes.headD 0 + codes.foldr (· + ·) 0) % count

def variableParts : Nat := 39

def environment (p : Process) : List (String × String) :=
  let exported := p.vars.filterMap fun (name, v) =>
    if v.exported then v.value.map fun value => (name, value) else none
  exported.mergeSort fun a b => partOf variableParts a.1 ≤ partOf variableParts b.1

/-- The blanks between fields; three of them if the variable is unset. -/
def separators (p : Process) : List Char :=
  match p.value? "IFS" with
  | some text => text.toList
  | none => [' ', '\t', '\n']

end Process

namespace Sh

structure Setting where
  exported : Bool
  readonly : Bool

def Setting.plain : Setting :=
  ⟨false, false⟩

def resetOptions (text : String) : Sh Unit :=
  match Arithmetic.number? false text with
  | some n =>
      if 0 ≤ n && n < 0x80000000 then
        modifyProcess fun p => { p with optionIndex := max n.toNat 1, optionOffset := none }
      else fail ("Illegal number: " ++ text)
  | none => fail ("Illegal number: " ++ text)

def noteChange (name value : String) : Sh Unit :=
  match name with
  | "OPTIND" => resetOptions value
  | "PATH" => modifyProcess fun p => { p with tracked := [] }
  | _ => pure ()

def setWith (setting : Setting) (name : String) (value : Option String) : Sh Unit := do
  let p ← process
  let old := (p.held? name).getD ⟨none, false, false⟩
  if old.readonly then fail (name ++ ": is read only")
  let exported := old.exported || setting.exported || p.flags.contains 'a'
  modifyProcess fun p => p.putVariable name ⟨value, exported, setting.readonly⟩
  noteChange name (value.getD "")

def setVariable (name value : String) : Sh Unit :=
  setWith .plain name (some value)

def isName (name : String) : Bool :=
  match name.toList with
  | c :: rest => (c.isAlpha || c = '_') && rest.all fun c => c.isAlphanum || c = '_'
  | [] => false

def checkName (name : String) : Sh Unit :=
  if isName name then pure () else fail (name ++ ": bad variable name")

/-- Unsets a variable; an equals sign ends its name. -/
def unsetVariable (text : String) : Sh Unit := do
  let name := String.ofList (text.toList.takeWhile (· ≠ '='))
  checkName name
  match (← process).held? name with
  | none => pure ()
  | some v =>
      if v.readonly then fail (name ++ ": is read only")
      modifyProcess fun p => p.dropVariable name
      noteChange name ""

def keepLocal (name : String) : Sh Unit :=
  modifyProcess fun p =>
    match p.locals with
    | kept :: outer =>
        if (kept.vars.lookup name).isSome then p
        else
          let kept := { kept with vars := (name, p.held? name) :: kept.vars }
          { p with locals := kept :: outer }
    | [] => p

def keepFlags : Sh Unit :=
  modifyProcess fun p =>
    match p.locals with
    | kept :: outer =>
        let flags := kept.flags <|> some p.flags
        { p with locals := { kept with flags } :: outer }
    | [] => p

def withLocals {α : Type} (x : Sh α) : Sh α := do
  modifyProcess fun p => { p with locals := ⟨[], none⟩ :: p.locals }
  always x giveBack
where
  giveBack : Sh Unit :=
    modifyProcess fun p =>
      match p.locals with
      | kept :: locals =>
          let flags := kept.flags.getD p.flags
          kept.vars.foldl giveBackOne { p with locals, flags }
      | [] => p
  giveBackOne (p : Process) (kept : String × Option ShellVariable) : Process :=
    match kept with
    | (name, some v) => p.putVariable name v
    | (name, none) => p.dropVariable name

end Sh

end CacheUpkeep.Shell
