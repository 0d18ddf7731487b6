import CacheUpkeep.Shell.Startup

/-!
# Evaluation of commands

What each kind of command does.  A command leaves its status in the process.  How the
commands within it run is given, so that each of these definitions is a plain function
of that; `evaluate` ties them together, to a depth that is given too.
-/

namespace CacheUpkeep.Shell.Evaluate

open CacheUpkeep.Text Sh

/-! ## Words of simple commands -/

inductive Found where
  | function (body : Command)
  | builtin (kind : Builtin.Kind)
  | program
deriving Inhabited

def find (p : Process) (functions : Bool) (name : String) : Found :=
  if Program.hasSlash name then .program
  else
    match if functions then p.functions.lookup name else none with
    | some body => .function body
    | none =>
        match Builtin.names.lookup name with
        | some kind => .builtin kind
        | none => .program

def fill (run : Evaluator) : List Word → Sh (List String × List Word)
  | [] => return ([], [])
  | w :: rest => do
      match ← Expand.fields (Session.substitute run) w with
      | [] => fill run rest
      | found => return (found, rest)

/-- The fields of a word; an assignment stays one where a command takes such. -/
def argument (run : Evaluator) (assigns : Bool) (w : Word) : Sh (List String) := do
  if assigns && Reader.isAssignment w then
    return [← Expand.text (Session.substitute run) .assignment w]
  else Expand.fields (Session.substitute run) w

/-- The fields and words after those that `command` takes for itself. -/
structure Remainder where
  fields : List String
  words : List Word
  path : Option String

/-- What `command` runs; `none` if it runs nothing, as far as words were expanded. -/
def afterCommand (run : Evaluator) (path : Option String) :
    Nat → List String → List Word → Sh (Option Remainder × List String × List Word)
  | 0, _, _ => throw .exhausted
  | fuel + 1, seen, words => do
      let (fields, words) ← if seen.isEmpty then fill run words else pure (seen, words)
      match fields with
      | [] => return (none, [], words)
      | field :: rest =>
          let stay := (none, field :: rest, words)
          match field.toList with
          | ['-', '-'] =>
              let (fields, words) ← if rest.isEmpty then fill run words else pure (rest, words)
              if fields.isEmpty then return (none, field :: fields, words)
              else return (some ⟨fields, words, path⟩, [], words)
          | '-' :: c :: cs =>
              if (c :: cs).all (· = 'p') then
                let (found, seen, words) ←
                  afterCommand run (some Startup.defaultPath) fuel rest words
                return (found, field :: seen, words)
              else return stay
          | _ => return (some ⟨field :: rest, words, path⟩, [], words)

/--
A simple command whose words have been expanded.  `shown` are its words as they were
written; `special` tells of the first built-in command among those that call each
other.
-/
structure Plan where
  shown : List String
  args : List String
  found : Found
  special : Option Bool
  path : Option String
  functions : Bool

namespace Plan

def nothing : Plan :=
  ⟨[], [], .builtin .regular, none, none, true⟩

def name (p : Plan) : String :=
  p.args.headD ""

def isLocal (p : Plan) : Bool :=
  !p.args.isEmpty && p.special ≠ some true

def isSpecial (p : Plan) : Bool :=
  p.special = some true

def isExec (p : Plan) : Bool :=
  match p.found with
  | .builtin _ => p.name = "exec"
  | _ => false

end Plan

/-- Expands words that follow a name, which is found as the plan says. -/
def finishPlan (run : Evaluator) (plan : Plan) (fields : List String) (words : List Word) :
    Sh Plan := do
  let assigns :=
    match plan.found with
    | .builtin _ => Builtin.isAssigning (fields.headD "")
    | _ => false
  let more ← words.flatMapM (argument run assigns)
  return { plan with shown := plan.shown ++ fields ++ more, args := fields ++ more }

def planFrom (run : Evaluator) :
    Nat → Plan → List String → List Word → Sh Plan
  | 0, _, _, _ => throw .exhausted
  | fuel + 1, plan, fields, words => do
      let found := find (← process) plan.functions (fields.headD "")
      let plan := { plan with found }
      match found with
      | .builtin kind =>
          let plan := { plan with special := plan.special.or (some (kind = .special)) }
          if fields.headD "" ≠ "command" then finishPlan run plan fields words
          else
            let (found, seen, words) ← afterCommand run plan.path
              (fields.length + words.length + 1) (fields.drop 1) words
            match found with
            | some r =>
                let shown := plan.shown ++ ["command"] ++ seen
                planFrom run fuel { plan with shown, path := r.path, functions := false }
                  r.fields r.words
            | none => finishPlan run plan ("command" :: seen) words
      | _ => finishPlan run plan fields words

def plan (run : Evaluator) (words : List Word) : Sh Plan := do
  match ← fill run words with
  | ([], _) => return Plan.nothing
  | (fields, words) => planFrom run (fields.length + words.length + 1) Plan.nothing fields words

/-! ## Built-in commands that run others -/

/-- The file that `.` reads: one in the search path, unless the name is a path. -/
def dotFile (p : Process) (fs : FileSystem) (name : String) : Option String :=
  if Program.hasSlash name then some name
  else
    let paths := (Program.searchDirectories (Builtin.searchPath p)).map fun dir =>
      Program.inDirectory dir name
    paths.find? fun path => fs.isFile (Path.ofString (Octets.toText path))

def dot (run : Evaluator) (args : List String) : Sh Nat := do
  match ← Builtin.plainArguments args with
  | [] => return 0
  | name :: _ =>
      match dotFile (← process) (← files) name with
      | none => fail (name ++ ": not found")
      | some file =>
          let text ← Startup.scriptFile file
          modifyProcess fun p => { p with commandName := some file }
          Session.runFile run text

/-- `command` without a command to run, which tells what a name stands for if asked. -/
def describe (args : List String) : Sh Nat := do
  let (flags, names) ← Builtin.flags [('p', false), ('v', false), ('V', false)] args
  let letters := flags.map Prod.fst
  let own := Builtin.searchPath (← process)
  let path := if letters.contains 'p' then Startup.defaultPath else own
  match names with
  | name :: _ =>
      if letters.contains 'v' || letters.contains 'V' then
        Builtin.describe (letters.contains 'V') path name
      else return 0
  | [] => return 0

def builtin (run : Evaluator) (mode : Mode) (name : String) (args : List String) : Sh Nat :=
  match name with
  | "eval" =>
      if args.isEmpty then return 0
      else Session.runText run { mode with last := false } false (" ".intercalate args).toList
  | "." => dot run args
  | "command" => describe args
  | "wait" => Session.wait run args
  | "exec" => do
      match args with
      | [] => return 0
      | program :: args =>
          Startup.become run (Builtin.searchPath (← process)) program args
          return 0
  | name => (Builtin.run? name args).getD (return 127)

/-- Runs a built-in command; a failure ends the shell only if the command is special. -/
def callBuiltin (run : Evaluator) (mode : Mode) (special : Bool) (name : String)
    (args : List String) : Sh Unit := do
  let before := (← process).commandName
  modifyProcess fun p => { p with commandName := some name }
  let r ← ExceptT.lift (body.run)
  modifyProcess fun p => { p with commandName := before }
  match r with
  | .ok () => pure ()
  | .error .failure => if special then throw .failure else pure ()
  | .error stop => throw stop
where
  body : Sh Unit := do
    let status ← builtin run mode name args
    if ← flush then setStatus status
    else
      warn (name ++ ": I/O error")
      setStatus (status ||| 1)

/-! ## Simple commands -/

def functionLimit : Nat := 1000

def callFunction (run : Evaluator) (mode : Mode) (body : Command) (args : List String) :
    Sh Unit := do
  let before ← process
  if functionLimit ≤ before.functionDepth then
    fail ("Maximum function recursion depth (" ++ numeral functionLimit ++ ") reached")
  modifyProcess fun p =>
    { p with
      args
      functionDepth := p.functionDepth + 1
      loops := 0
      optionIndex := 1
      optionOffset := none }
  always (run { mode with last := false } body) (giveBack before)
where
  giveBack (before : Process) : Sh Unit :=
    modifyProcess fun p =>
      { p with
        args := before.args
        functionDepth := before.functionDepth
        loops := before.loops
        optionIndex := before.optionIndex
        optionOffset := before.optionOffset
        skip := p.skip.filter fun (kind, _) => kind = .leave || kind = .again }

/-- Whether a process has traps that another program would lose. -/
def hasTraps (p : Process) : Bool :=
  p.traps.any fun (_, action) => action ≠ ""

/-- Runs a program: in a process of its own, unless nothing else is left to do. -/
def callProgram (run : Evaluator) (mode : Mode) (plan : Plan) : Sh Unit := do
  let p ← process
  let path := plan.path.getD (Builtin.searchPath p)
  match ← Builtin.track path plan.name with
  | .error e =>
      warn (plan.name ++ ": " ++ Builtin.startReason e)
      setStatus 127
  | .ok _ =>
      let body := Startup.become run path plan.name (plan.args.drop 1)
      if mode.last && !hasTraps p then body
      else setStatus (← Session.inChild run id body).status

def perform (run : Evaluator) (mode : Mode) (plan : Plan) : Sh Unit := do
  match plan.args, plan.found with
  | [], _ => setStatus (← process).substituted
  | name :: args, .builtin _ => callBuiltin run mode plan.isSpecial name args
  | _ :: args, .function body => callFunction run mode body args
  | _, .program => callProgram run mode plan

def assign (run : Evaluator) (plan : Plan) (w : Word) : Sh String := do
  let text ← Expand.text (Session.substitute run) .assignment w
  match Builtin.splitAssignment text with
  | (name, some value) =>
      if plan.isLocal then
        keepLocal name
        setWith ⟨true, false⟩ name (some value)
      else
        setWith ⟨plan.isExec && 1 < plan.args.length, false⟩ name (some value)
      return text
  | _ => return text

/-- The text in front of a command that is shown; it stays as it is if it is wrong. -/
def tracePrompt (run : Evaluator) : Sh String := do
  let p ← process
  let text := (p.value? "PS4").getD ""
  let expanded : Sh String := do
    match Reader.promptWord.run (Reader.ofText text.toList p.nextDocument []) with
    | .ok (word, _) => Expand.text (Session.substitute run) .document word
    | .error fault =>
        modifyProcess fun p => { p with line := fault.line }
        fail fault.message
  tryCatch expanded fun stop =>
    match stop with
    | .failure => pure text
    | stop => throw stop

def trace (run : Evaluator) (errors : Option Nat) (words : List String) : Sh Unit := do
  if (← hasFlag 'x') && !(← process).tracing then
    modifyProcess fun p => { p with tracing := true }
    let prompt ← tracePrompt run
    modifyProcess fun p => { p with tracing := false }
    match errors with
    | none => pure ()
    | some stream =>
        let s ← get
        let line := prompt ++ " ".intercalate words ++ "\n"
        match s.world.write stream (Octets.toBytes line) with
        | some world => set { s with world }
        | none => pure ()

def runPlan (run : Evaluator) (mode : Mode) (plan : Plan) (assignments : List Word)
    (openings : List Opening) : Sh Unit := do
  let errors := (← process).descriptors.lookup 2
  if ← Redirect.applySafely (Session.substitute run) openings then
    let assigned ← assignments.mapM (assign run plan)
    trace run errors (assigned ++ plan.shown)
    perform run mode plan
  else
    setStatus 2
    if plan.isSpecial then throw .failure

def simple (run : Evaluator) (mode : Mode) (line : Nat) (assignments words : List Word)
    (redirects : List Redirect) : Sh Unit := do
  modifyProcess fun p => { p with line, substituted := 0 }
  let plan ← plan run words
  let body : Sh Unit := do
    let openings ← redirects.mapM (Opening.ofRedirect (Session.substitute run))
    let before := Redirect.bindings openings (← process)
    let x := runPlan run mode plan assignments openings
    if plan.isExec then x else always x (Redirect.restore before)
  if plan.isLocal then withLocals body else body

/-! ## Compound commands -/

/-- Runs a command with descriptors of its own; whether it could bind them. -/
def redirected (run : Evaluator) (mode : Mode) (line : Nat) (body : Command)
    (redirects : List Redirect) : Sh Bool := do
  modifyProcess fun p => { p with line }
  let openings ← redirects.mapM (Opening.ofRedirect (Session.substitute run))
  let before := Redirect.bindings openings (← process)
  let x : Sh Bool := do
    if ← Redirect.applySafely (Session.substitute run) openings then
      run { mode with last := false } body
      return true
    else
      setStatus 2
      return false
  always x (Redirect.restore before)

/-- Runs a command in a process of its own, unless nothing else is left to do. -/
def subshell (run : Evaluator) (mode : Mode) (line : Nat) (body : Command)
    (redirects : List Redirect) : Sh Unit := do
  modifyProcess fun p => { p with line }
  let openings ← redirects.mapM (Opening.ofRedirect (Session.substitute run))
  let x : Sh Unit := do
    openings.forM (Redirect.apply (Session.substitute run))
    run { mode with last := true } body
  if mode.last && !hasTraps (← process) then x
  else setStatus (← Session.inChild run id x).status

/-- How a loop goes on where commands are passed over. -/
inductive Turn where
  | go
  | again
  | leave (given : Bool)
deriving DecidableEq, Repr

/-- Ends the passing over of commands if this loop is the last that it is for. -/
def turn : Sh Turn := do
  match (← process).skip with
  | none => return .go
  | some (.result, _) => return .leave true
  | some (.bareResult, _) => return .leave false
  | some (kind, n) =>
      if n ≤ 1 then
        modifyProcess fun p => { p with skip := none }
        return if kind = .again then .again else .leave false
      else
        modifyProcess fun p => { p with skip := some (kind, n - 1) }
        return .leave false

def roundLimit : Nat := 1000000000

def rounds (run : Evaluator) (mode : Mode) (whileTrue : Bool) (condition body : Command) :
    Nat → Nat → Sh Nat
  | 0, _ => throw .exhausted
  | fuel + 1, status => do
      run .condition condition
      let found := (← process).status
      match ← turn with
      | .leave given => return if given then found else status
      | .again => rounds run mode whileTrue condition body fuel status
      | .go =>
          if (found = 0) ≠ whileTrue then return status
          else
            run mode body
            let status := (← process).status
            match ← turn with
            | .leave _ => return status
            | _ => rounds run mode whileTrue condition body fuel status

def withinLoop (x : Sh Nat) : Sh Unit := do
  modifyProcess fun p => { p with loops := p.loops + 1 }
  let status ← x
  modifyProcess fun p => { p with loops := p.loops - 1 }
  setStatus status

def eachRound (run : Evaluator) (mode : Mode) (name : String) (body : Command) :
    Nat → List String → Sh Nat
  | status, [] => return status
  | _, value :: rest => do
      setVariable name value
      run mode body
      let status := (← process).status
      match ← turn with
      | .leave _ => return status
      | _ => eachRound run mode name body status rest

def each (run : Evaluator) (mode : Mode) (line : Nat) (name : String) (words : List Word)
    (body : Command) : Sh Unit := do
  modifyProcess fun p => { p with line }
  let values ← words.flatMapM (Expand.fields (Session.substitute run))
  withinLoop (eachRound run { mode with last := false } name body 0 values)

/-- Whether one of the patterns matches; those after it are not expanded. -/
def matchesAny (run : Evaluator) (text : String) : List Word → Sh Bool
  | [] => return false
  | w :: rest => do
      if (← Expand.pattern (Session.substitute run) w).accepts text.toList then return true
      else matchesAny run text rest

def chosen (run : Evaluator) (text : String) :
    List (List Word × Command) → Sh (Option Command)
  | [] => return none
  | (patterns, body) :: rest => do
      if ← matchesAny run text patterns then return some body
      else if (← process).skip.isSome then return none
      else chosen run text rest

def cases (run : Evaluator) (mode : Mode) (line : Nat) (word : Word)
    (items : List (List Word × Command)) : Sh Unit := do
  modifyProcess fun p => { p with line }
  let text ← Expand.text (Session.substitute run) .single word
  match ← chosen run text items with
  | none | some .nothing => setStatus 0
  | some body => run mode body

def negation (run : Evaluator) (body : Command) : Sh Unit := do
  run .condition body
  let p ← process
  if p.skip.isNone then setStatus (if p.status = 0 then 1 else 0)

def both (run : Evaluator) (mode : Mode) (wanted : Bool) (first second : Command) :
    Sh Unit := do
  run .condition first
  let p ← process
  if (p.status = 0) = wanted && p.skip.isNone then run mode second

def sequence (run : Evaluator) (mode : Mode) (first second : Command) : Sh Unit := do
  run { mode with last := false } first
  if (← process).skip.isNone then run mode second

def choice (run : Evaluator) (mode : Mode) (condition accepted rejected : Command) :
    Sh Unit := do
  run .condition condition
  let p ← process
  if p.skip.isNone then
    if p.status = 0 then run mode accepted
    else
      match rejected with
      | .nothing => setStatus 0
      | body => run mode body

/-! ## All commands -/

/-- How a command runs whose own failure can end a shell; `none` for others. -/
def checked (run : Evaluator) (mode : Mode) : Command → Option (Sh Unit)
  | .simple line assignments words redirects =>
      some (simple run mode line assignments words redirects)
  | .pipeline false commands => some (Session.pipe run mode none commands)
  | .pipeline true commands => some do
      Session.addJob (.pipeline false commands)
      setStatus 0
  | .subshell line body redirects => some (subshell run mode line body redirects)
  | .detached line body redirects => some do
      modifyProcess fun p => { p with line }
      Session.addJob (.subshell line body redirects)
      setStatus 0
  | _ => none

def unchecked (run : Evaluator) (mode : Mode) : Command → Sh Unit
  | .both first second => both run mode true first second
  | .either first second => both run mode false first second
  | .sequence first second => sequence run mode first second
  | .negation body => negation run body
  | .choice condition accepted rejected => choice run mode condition accepted rejected
  | .loop whileTrue condition body =>
      withinLoop (rounds run { mode with last := false } whileTrue condition body roundLimit 0)
  | .each line name words body => each run mode line name words body
  | .cases line word items => cases run mode line word items
  | .define name body => do
      modifyProcess fun p =>
        { p with functions := (name, body) :: p.functions.filter fun (n, _) => n ≠ name }
      setStatus 0
  | _ => pure ()

def perKind (run : Evaluator) (mode : Mode) (command : Command) : Sh Bool := do
  match command, checked run mode command with
  | _, some x =>
      x
      return true
  | .redirected line body redirects, _ =>
      return !(← redirected run mode line body redirects)
  | command, none =>
      unchecked run mode command
      return false

def step (run : Evaluator) (mode : Mode) (command : Command) : Sh Unit := do
  let isChecked ←
    match ← hasFlag 'n', command with
    | true, _ | _, .nothing => pure false
    | false, command => do
        Session.runTraps run
        perKind run mode command
  Session.runTraps run
  let p ← process
  if isChecked && !mode.tested && p.status ≠ 0 && p.flags.contains 'e' then throw .done
  if mode.last then throw .done

def evaluate : Nat → Evaluator
  | 0 => fun _ _ => throw .exhausted
  | depth + 1 => step (evaluate depth)

end CacheUpkeep.Shell.Evaluate
