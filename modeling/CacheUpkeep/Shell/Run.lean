import CacheUpkeep.Shell.Evaluate

/-!
# Runs of programs

A program that starts on files with an environment, runs to its end, and leaves an
exit code, what it has written, and the files.
-/

namespace CacheUpkeep.Shell

structure Outcome where
  ending : Ending
  stdout : ByteArray
  stderr : ByteArray
  files : FileSystem

namespace Run

def firstProcess : Nat := 100

/-- How deep commands may be nested; a process that goes deeper is ended. -/
def depthLimit : Nat := 20000

def overflow : Nat := 11

def initialWorld (files : FileSystem) : World where
  files
  streams := #[.nowhere .reading, .outgoing ByteArray.empty, .outgoing ByteArray.empty]
  nextProcess := firstProcess + 1
  posted := []

def initialProcess (env : List (String × String)) : Process where
  vars := env.map fun (name, value) =>
    (Octets.ofText name, ⟨some (Octets.ofText value), true, false⟩)
  functions := []
  aliases := []
  documents := []
  nextDocument := 0
  args := []
  zero := ""
  commandName := none
  flags := []
  traps := []
  ignored := []
  signals := []
  descriptors := [(0, 0), (1, 1), (2, 2)]
  buffer := ""
  status := 0
  substituted := 0
  saved := none
  line := 0
  inputLine := 1
  functionDepth := 0
  loops := 0
  skip := none
  locals := []
  id := firstProcess
  mainId := firstProcess
  ancestors := []
  background := none
  jobs := []
  optionIndex := 1
  optionOffset := none
  directory := ""
  mask := 0o022
  tracing := false
  tracked := []

/-- The whole of a run: the program itself and what it leaves in the background. -/
def whole (l : Launch) : Sh Ending := do
  let run := Evaluate.evaluate depthLimit
  let ending ← Session.caught (Startup.execute run Startup.launchLimit l)
  Session.runJobs run Session.processLimit (← Sh.process).jobs.reverse
  return ending

end Run

def runProgram (files : FileSystem) (env : List (String × String)) (l : Launch) : Outcome :=
  let start : State := ⟨Run.initialWorld files, Run.initialProcess env⟩
  let (r, s) := (Run.whole l).outcome start
  let ending :=
    match r with
    | .ok ending => ending
    | .error _ => .signal Run.overflow
  ⟨ending, s.world.written 1, s.world.written 2, { s.world.files with here := files.here }⟩

end CacheUpkeep.Shell
