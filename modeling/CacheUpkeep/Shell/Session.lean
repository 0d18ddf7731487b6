import CacheUpkeep.Shell.Builtin
import CacheUpkeep.Shell.Grammar
import CacheUpkeep.Shell.Redirect

/-!
# Scripts and processes

How a shell reads and runs a text command by command, what it does when a signal has
arrived and when its process ends, and how a part of it runs in a process of its own.
Processes run one after the other: a pipeline from left to right, and a command in the
background when it is waited for or its parent ends.
-/

namespace CacheUpkeep.Shell.Session

open CacheUpkeep.Text Sh

/-! ## Scripts -/

def commandLimit : Nat := 1000000000

/-- The lines of a text up to one with a number, if the first is number `first`. -/
def linesUpTo (first last : Nat) (text : List Char) : List Char :=
  let lines := splitAtEach '\n' text
  let shown := (lines.take (last + 1 - first)).map String.ofList
  let ended := lines.length ≤ last + 1 - first
  ("\n".intercalate shown).toList ++ if ended then [] else ['\n']

/-- Shows input as it is read, if the flag for it is set. -/
def showInput (shows : Bool) (text : List Char) : Sh Unit := do
  if shows && (← hasFlag 'v') then
    let _ ← writeTo 2 (String.ofList text)

def runCommands (run : Evaluator) (mode : Mode) (shows : Bool) :
    Nat → Reader → Nat → Sh Nat
  | 0, _, _ => throw .exhausted
  | fuel + 1, reader, status => do
      let p ← process
      let reader :=
        { reader with
          aliases := p.aliases, nextDocument := p.nextDocument, documents := [] }
      match Reader.nextCommand.run reader with
      | .error fault =>
          showInput shows (linesUpTo reader.line fault.line reader.rest)
          modifyProcess fun p => { p with line := fault.line, inputLine := fault.line }
          fail fault.message
      | .ok (command, after) =>
          showInput shows (reader.rest.take (reader.rest.length - after.rest.length))
          modifyProcess fun p =>
            { p with
              documents := p.documents ++ after.documents
              nextDocument := after.nextDocument
              inputLine := after.line }
          match command with
          | none => return status
          | some .nothing => runCommands run mode shows fuel after status
          | some command =>
              let isLast := after.again && after.last = .finish
              run { mode with last := mode.last && isLast } command
              let p ← process
              if p.skip.isSome then return p.status
              else runCommands run mode shows fuel after p.status

def runText (run : Evaluator) (mode : Mode) (shows : Bool) (text : List Char) : Sh Nat := do
  let p ← process
  let reader := Reader.ofText text p.nextDocument p.aliases
  always (runCommands run mode shows commandLimit reader 0)
    (modifyProcess fun after => { after with inputLine := p.inputLine })

/-- Runs a script whose end is also that of `return`. -/
def runFile (run : Evaluator) (text : List Char) : Sh Nat := do
  let status ← runText run .plain true text
  modifyProcess fun p => { p with skip := none }
  return status

/-- The octets of a script; NUL octets do not count. -/
def scriptText (content : ByteArray) : List Char :=
  (Octets.ofBytes content).toList.filter fun c => c.toNat ≠ 0

/-! ## Traps -/

/-- Runs the traps of some signals; those that commands are passed over for wait. -/
def runTrapsOf (run : Evaluator) (status : Nat) : List Nat → Sh Unit
  | [] => pure ()
  | signal :: rest => do
      let p ← process
      if p.skip.isSome then pure ()
      else
        modifyProcess fun p => { p with signals := p.signals.filter (· ≠ signal) }
        match p.traps.lookup signal with
        | none => pure ()
        | some action =>
            let _ ← runText run .plain false action.toList
            if (← process).skip.map Prod.fst ≠ some .result then setStatus status
        runTrapsOf run status rest

def runTraps (run : Evaluator) : Sh Unit := do
  let p ← process
  if !p.signals.isEmpty then
    let status := p.saved.getD p.status
    modifyProcess fun p => { p with saved := some status }
    runTrapsOf run status ((List.range 65).filter fun n => p.signals.contains n)
    modifyProcess fun after => { after with saved := p.saved }

/-! ## Ends of processes -/

/-- The status of a shell whose commands stopped: that before a trap, if it asks for it. -/
def resetAtEnd (exits : Bool) : Sh Unit :=
  modifyProcess fun p =>
    let usesSaved := exits || p.skip.map Prod.fst = some .bareResult
    { p with
      status := if usesSaved then p.saved.getD p.status else p.status
      saved := none
      skip := none
      loops := 0
      tracing := false }

/-- Runs what the trap at the end of a shell says, and gives how the process ends. -/
def runExitTrap (run : Evaluator) : Sh Ending := do
  let p ← process
  let status := p.status
  modifyProcess fun p =>
    { p with
      saved := some status, skip := none, traps := p.traps.filter fun (n, _) => n ≠ 0 }
  match p.traps.lookup 0 with
  | none => pure ()
  | some action =>
      let r ← ExceptT.lift (runText run .plain false action.toList).run
      match r with
      | .error .exhausted => throw .exhausted
      | .error (.over ending) => leave ending
      | .error stop => resetAtEnd (stop = .exit)
      | .ok _ => resetAtEnd true
  return .exit ((← process).status % 256)

def endingOf (run : Evaluator) (r : Except Stop Unit) : Sh Ending := do
  match r with
  | .error .exhausted => throw .exhausted
  | .error (.over ending) => return ending
  | .error stop =>
      resetAtEnd (stop = .exit)
      runExitTrap run
  | .ok () => runExitTrap run

def caught (x : Sh Ending) : Sh Ending :=
  tryCatch x fun stop =>
    match stop with
    | .over ending => pure ending
    | stop => throw stop

/-! ## Processes of their own -/

def newProcess : Sh Nat := do
  let s ← get
  set { s with world := { s.world with nextProcess := s.world.nextProcess + 1 } }
  return s.world.nextProcess

/-- A copy of a shell as a process of its own: only ignored signals stay trapped. -/
def childOf (p : Process) (id : Nat) : Process :=
  { p with
    id
    ancestors := p.id :: p.ancestors
    traps := p.traps.filter fun (_, action) => action = ""
    signals := []
    jobs := []
    buffer := "" }

mutual

def runJobs (run : Evaluator) : Nat → List (Nat × JobState Process) → Sh Unit
  | 0, _ => throw .exhausted
  | _ + 1, [] => pure ()
  | fuel + 1, (_, .done _) :: rest => runJobs run fuel rest
  | fuel + 1, (_, .waiting command child here) :: rest => do
      let _ ← runIn run fuel child here (run ⟨false, true⟩ command)
      runJobs run fuel rest

def runIn (run : Evaluator) : Nat → Process → Location → Sh Unit → Sh Ending
  | 0, _, _, _ => throw .exhausted
  | fuel + 1, child, here, body => do
      let before ← process
      let hereBefore := (← files).here
      modifyProcess fun _ => child
      modifyFiles fun fs => { fs with here }
      let r ← ExceptT.lift body.run
      let ending ← caught (endingOf run r)
      runJobs run fuel (← process).jobs.reverse
      modifyProcess fun _ => before
      modifyFiles fun fs => { fs with here := hereBefore }
      return ending

end

def processLimit : Nat := 100000

/-- Says what signal ended a command; some of them are nothing to speak of. -/
def report (ending : Ending) : Sh Unit := do
  match ending with
  | .exit _ => pure ()
  | .signal n =>
      if n ≠ 2 && n ≠ 13 then
        let _ ← writeTo 2 (Signal.description n ++ "\n")

/-- Runs commands in a process of their own, and takes the signals that it sent. -/
def inChild (run : Evaluator) (enter : Process → Process) (body : Sh Unit) : Sh Ending := do
  let child := enter (childOf (← process) (← newProcess))
  let ending ← runIn run processLimit child (← files).here body
  report ending
  Builtin.receivePosted
  Builtin.receive Signal.childEnded
  return ending

def withStream (fd : Nat) (stream : Option Nat) (p : Process) : Process :=
  match stream with
  | some stream =>
      { p with descriptors := (fd, stream) :: p.descriptors.filter fun (n, _) => n ≠ fd }
  | none => p

def takeWritten (stream : Nat) : Sh ByteArray := do
  let s ← get
  let octets := s.world.written stream
  let streams := s.world.streams.set! stream (.nowhere .writing)
  set { s with world := { s.world with streams } }
  return octets

def substitute (run : Evaluator) : Expand.Substituter := fun command => do
  match command with
  | .nothing => return ""
  | command =>
      let stream ← Redirect.addStream (.outgoing ByteArray.empty)
      let ending ← inChild run (withStream 1 stream) (run ⟨false, true⟩ command)
      modifyProcess fun p => { p with substituted := ending.status }
      return Octets.ofBytes (← takeWritten stream)

def pipe (run : Evaluator) (mode : Mode) : Option Nat → List Command → Sh Unit
  | _, [] => pure ()
  | input, [last] => do
      let ending ← inChild run (withStream 0 input) (run { mode with last := true } last)
      setStatus ending.status
  | input, first :: rest => do
      let output ← Redirect.addStream (.outgoing ByteArray.empty)
      let _ ← inChild run (fun p => withStream 1 output (withStream 0 input p))
        (run { mode with last := true } first)
      let next ← Redirect.addStream (.incoming (← takeWritten output).toList)
      pipe run mode next rest

/-! ## Jobs -/

/-- A command in the background: it reads nothing, and no key stops it. -/
def addJob (command : Command) : Sh Unit := do
  let nothing ← Redirect.addStream (.nowhere .reading)
  let id ← newProcess
  let here := (← files).here
  modifyProcess fun p =>
    let child := childOf p id
    let child := withStream 0 nothing { child with ignored := [2, 3] ++ child.ignored }
    { p with background := some id, jobs := (id, .waiting command child here) :: p.jobs }

/-- Runs a job if it has not run yet; `none` if there is no such job. -/
def finishJob? (run : Evaluator) (id : Nat) : Sh (Option Ending) := do
  match (← process).jobs.lookup id with
  | none => return none
  | some (.done ending) => return some ending
  | some (.waiting command child here) =>
      let ending ← runIn run processLimit child here (run ⟨false, true⟩ command)
      modifyProcess fun p =>
        { p with jobs := p.jobs.map fun (n, job) =>
            if n = id then (n, .done ending) else (n, job) }
      Builtin.receivePosted
      return some ending

def waitFor (run : Evaluator) (text : String) : Sh Nat := do
  let id ← if text.toList.head? = some '%' then Builtin.jobNamed text
    else Builtin.number text
  let ranBefore := match (← process).jobs.lookup id with
    | some (.done (.exit _)) => true
    | _ => false
  match ← finishJob? run id with
  | none => return 127
  | some ending =>
      if !ranBefore then report ending
      return ending.status

def waitForEach (run : Evaluator) (status : Nat) : List String → Sh Nat
  | [] => return status
  | text :: rest => do waitForEach run (← waitFor run text) rest

def wait (run : Evaluator) (args : List String) : Sh Nat := do
  match ← Builtin.plainArguments args with
  | [] =>
      for (id, _) in (← process).jobs.reverse do
        let _ ← finishJob? run id
      return 0
  | args => waitForEach run 127 args

end CacheUpkeep.Shell.Session
