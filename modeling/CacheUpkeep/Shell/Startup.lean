import CacheUpkeep.Shell.Native
import CacheUpkeep.Shell.Session

/-!
# Start of programs

How a process becomes another program: a native one, a shell with a script, or the
program that `env` is asked for.  Of the process before stay its descriptors, its
number, the variables that are exported and the signals that are ignored.
-/

namespace CacheUpkeep.Shell.Startup

open CacheUpkeep.Text Sh

/-! ## Shells -/

def defaultPath : String :=
  "/usr/local/sbin:/usr/local/bin:/usr/sbin:/usr/bin:/sbin:/bin"

def defaultVariables (parent : Nat) : List (String × String) :=
  [("IFS", " \t\n"), ("OPTIND", "1"), ("PATH", defaultPath), ("PPID", numeral parent),
    ("PS1", "# "), ("PS2", "> "), ("PS4", "+ ")]

def isOwn (name : String) : Bool :=
  name = "IFS" || name = "OPTIND" || name = "PPID"

/-- The variables that a shell gets: those with a proper name, each exported. -/
def importedVariables (env : List (String × String)) : ShellVariables :=
  let named := env.filter fun (name, _) => isName name
  named.map fun (name, value) => (name, ⟨some value, true, false⟩)

/-- Gives a default to a variable that has no value, or whose value does not count. -/
def addDefault (vars : ShellVariables) (v : String × String) : ShellVariables :=
  match vars.lookup v.1 with
  | none => vars ++ [(v.1, ⟨some v.2, false, false⟩)]
  | some old =>
      if isOwn v.1 then
        vars.map fun (name, kept) =>
          if name = v.1 then (name, { old with value := some v.2 }) else (name, kept)
      else vars

/-- The working directory: as the environment names it, if that is right. -/
def startDirectory (fs : FileSystem) (given : Option String) : String :=
  let physical := Octets.ofText ("/" ++ "/".intercalate fs.here)
  match given with
  | some text =>
      let isRight := fs.directoryAt? (Path.ofString (Octets.toText text)) = some fs.here
      if text.toList.head? = some '/' && isRight then text else physical
  | none => physical

def freshShell (p : Process) (fs : FileSystem) (zero : String) : Process where
  vars :=
    let defaults := defaultVariables (p.ancestors.headD (p.id - 1))
    let vars := defaults.foldl addDefault (importedVariables p.environment)
    let directory := startDirectory fs ((vars.lookup "PWD").bind ShellVariable.value)
    let pwd : ShellVariable := ⟨some directory, true, false⟩
    (vars.filter fun (name, _) => name ≠ "PWD") ++ [("PWD", pwd)]
  functions := []
  aliases := []
  documents := []
  nextDocument := 0
  args := []
  zero
  commandName := none
  flags := []
  traps := []
  ignored := p.ignored ++ (p.traps.filter fun (_, action) => action = "").map Prod.fst
  signals := []
  descriptors := p.descriptors
  buffer := ""
  status := 0
  substituted := 0
  saved := none
  line := 0
  inputLine := 1
  functionDepth := 0
  loops := 0
  skip := none
  locals := []
  id := p.id
  mainId := p.id
  ancestors := p.ancestors
  background := none
  jobs := p.jobs
  optionIndex := 1
  optionOffset := none
  directory :=
    startDirectory fs ((p.environment.lookup "PWD"))
  mask := p.mask
  tracing := false
  tracked := []

structure Invocation where
  isCommand : Bool
  rest : List String

/-- The letters of one argument; `c` says that the script is an argument itself. -/
def readLetters (on : Bool) : List Char → Invocation → Sh Invocation
  | [], i => return i
  | 'c' :: letters, i => readLetters on letters { i with isCommand := true }
  | 'l' :: letters, i => readLetters on letters i
  | letter :: letters, i => do
      readLetters on letters { i with rest := ← Builtin.setLetters on [letter] i.rest }

def readFlags : Nat → Invocation → Sh Invocation
  | 0, i => return i
  | fuel + 1, i => do
      match i.rest with
      | [] => return i
      | arg :: rest =>
          match arg.toList with
          | ['-'] | ['-', '-'] => return { i with rest }
          | '-' :: letters => readFlags fuel (← readLetters true letters { i with rest })
          | '+' :: letters => readFlags fuel (← readLetters false letters { i with rest })
          | _ => return i

def scriptFile (name : String) : Sh (List Char) := do
  let fs ← files
  let path := Path.ofString (Octets.toText name)
  match fs.stat path with
  | .ok (_, .file _ content _) => return Session.scriptText content
  | .ok _ => return []
  | .error e => fail (Redirect.complaint .read name e)

def runInput (run : Evaluator) : Sh Unit := do
  let octets ← readAll 0
  let _ ← Session.runFile run (Session.scriptText octets.toByteArray)

def runScript (run : Evaluator) (args : List String) : Sh Unit := do
  let i ← readFlags (args.length + 1) ⟨false, args⟩
  let readsInput ← hasFlag 's'
  if i.isCommand then
    match i.rest with
    | [] => fail "-c requires an argument"
    | text :: rest =>
        setArguments rest
        let _ ← Session.runText run ⟨false, !readsInput⟩ false text.toList
        if readsInput then runInput run
  else
    match i.rest with
    | [] =>
        Builtin.setFlag true 's'
        runInput run
    | file :: rest =>
        if readsInput then
          modifyProcess fun p => { p with args := i.rest }
          runInput run
        else
          let text ← scriptFile file
          setArguments (file :: rest)
          let _ ← Session.runFile run text
where
  setArguments (args : List String) : Sh Unit :=
    match args with
    | [] => pure ()
    | zero :: args => modifyProcess fun p => { p with zero, args }

def shell (run : Evaluator) (zero : String) (args : List String) : Sh Ending := do
  let fs ← files
  modifyProcess fun p => freshShell p fs zero
  let r ← ExceptT.lift (runScript run args).run
  Session.caught (Session.endingOf run r)

/-! ## Programs -/

/-- The program at a path; a file that is no program is a script for a shell. -/
def launchAt (fs : FileSystem) (path zero : String) (args : List String) :
    Except IoError Launch :=
  match Program.launch fs path zero args with
  | .error .execFormat => Program.launch fs "/bin/sh" "/bin/sh" (path :: args)
  | r => r

def searchLaunch (fs : FileSystem) (name : String) (args : List String) (last : IoError) :
    List (List Char) → Except IoError Launch
  | [] => .error last
  | dir :: rest =>
      match launchAt fs (Program.inDirectory dir name) name args with
      | .ok l => .ok l
      | .error e =>
          let isAbsence := e = .notFound || e = .notDirectory
          searchLaunch fs name args (if isAbsence then last else e) rest

def launch (fs : FileSystem) (path name : String) (args : List String) :
    Except IoError Launch :=
  if Program.hasSlash name then launchAt fs name name args
  else searchLaunch fs name args .notFound (Program.searchDirectories path)

structure Request where
  empties : Bool
  dropped : List String
  rest : List String

def envOptions : Bool → List String → List String → Except String Request
  | _, dropped, "-" :: rest | _, dropped, "-i" :: rest => envOptions true dropped rest
  | empties, dropped, "-u" :: name :: rest => envOptions empties (name :: dropped) rest
  | empties, dropped, "--" :: rest => .ok ⟨empties, dropped, rest⟩
  | empties, dropped, args =>
      match (args.headD "").toList with
      | '-' :: c :: _ => .error ("invalid option -- '" ++ String.singleton c ++ "'")
      | _ => .ok ⟨empties, dropped, args⟩

def envVariables : List String → List (String × String) × List String
  | [] => ([], [])
  | arg :: rest =>
      match Builtin.splitAssignment arg with
      | (name, some value) =>
          let (vars, rest) := envVariables rest
          ((name, value) :: vars, rest)
      | (_, none) => ([], arg :: rest)

def setExported (p : Process) (v : String × String) : Process :=
  p.putVariable v.1 ⟨some v.2, true, false⟩

def applyRequest (zero : String) (r : Request) : Sh Launch := do
  let (added, command) := envVariables r.rest
  let p ← process
  let kept :=
    if r.empties then [] else p.environment.filter fun (name, _) => !r.dropped.contains name
  let start := kept.foldl setExported { p with vars := [] }
  modifyProcess fun _ => added.foldl setExported start
  let vars := (← process).environment
  match command with
  | [] =>
      let lines := vars.map fun (name, value) => name ++ "=" ++ value ++ "\n"
      leave (.exit (← Native.output zero (String.join lines) 125))
  | name :: args =>
      let path := (vars.lookup "PATH").getD Program.standardSearchPath
      match launch (← files) path name args with
      | .ok l => return l
      | .error e =>
          let message := Native.inQuotes name ++ ": " ++ e.reason
          leave (.exit (← Native.complain zero message (if e = .notFound then 127 else 126)))

def launchLimit : Nat := 1000

def execute (run : Evaluator) : Nat → Launch → Sh Ending
  | 0, _ => throw .exhausted
  | fuel + 1, l => do
      match l.native with
      | "sh" => shell run l.zero l.args
      | "env" =>
          match envOptions false [] l.args with
          | .ok r => execute run fuel (← applyRequest l.zero r)
          | .error message =>
              let _ ← Native.complainUsage l.zero message
              return .exit 125
      | name =>
          match Native.run? name l.zero l.args with
          | some x => return .exit (← x)
          | none => return .exit 127

def isMissing (e : IoError) : Bool :=
  e = .notFound || e = .notDirectory || e = .tooManyLinks || e = .nameTooLong

def become (run : Evaluator) (path name : String) (args : List String) : Sh Unit := do
  match launch (← files) path name args with
  | .ok l => leave (← Session.caught (execute run launchLimit l))
  | .error e =>
      warn (name ++ ": " ++ Builtin.startReason e)
      setStatus (if isMissing e then 127 else 126)
      throw .done

end CacheUpkeep.Shell.Startup
