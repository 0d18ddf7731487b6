import CacheUpkeep.Action
import CacheUpkeep.FileSystem.Error
import CacheUpkeep.Path
import CacheUpkeep.Text.Blank
import CacheUpkeep.Text.Decimal

/-!
# Commands

A command is a program with arguments and added environment variables.  A
runner runs commands on some state; a checked run takes any ending but exit
code zero for a failure.
-/

namespace CacheUpkeep

open CacheUpkeep.Text

structure Command where
  program : String
  args : List String
  env : List (String × String)
deriving DecidableEq, Repr

def Command.line (c : Command) : String :=
  " ".intercalate (c.program :: c.args)

/-- A command without exit code was ended by a signal. -/
structure CommandOutput where
  code : Option Int
  stdout : String
  stderr : String
deriving DecidableEq, Repr

namespace CommandOutput

def success (stdout : String) : CommandOutput :=
  ⟨some 0, stdout, ""⟩

def failure (code : Int) (stderr : String) : CommandOutput :=
  ⟨some code, "", stderr⟩

def isSuccess (o : CommandOutput) : Bool :=
  o.code = some 0

end CommandOutput

inductive CommandError where
  | notFound (program : String)
  | spawn (line : String) (cause : IoError)
  | failed (line : String) (code : Option Int) (stderr : String)
deriving DecidableEq, Repr

def exitText : Option Int → String
  | some code =>
      "status " ++ (if code < 0 then "-" else "") ++ numeral code.natAbs
  | none => "a signal"

def CommandError.message : CommandError → String
  | .notFound program => "executable not found: " ++ program
  | .spawn line cause => "failed to spawn `" ++ line ++ "`: " ++ cause.message
  | .failed line code stderr =>
      "`" ++ line ++ "` exited with " ++ exitText code ++ ": " ++ stderr

structure CommandRunner (σ : Type) where
  run : Command → Action σ CommandError CommandOutput
  locate : String → σ → Option Path

namespace CommandRunner

def check (c : Command) (o : CommandOutput) : Except CommandError CommandOutput :=
  if o.isSuccess then .ok o
  else .error (.failed c.line o.code (trim o.stderr))

def runChecked {σ : Type} (runner : CommandRunner σ) (c : Command) :
    Action σ CommandError CommandOutput := do
  let o ← runner.run c
  ofExcept (check c o)
where
  ofExcept {σ ε α : Type} (r : Except ε α) : Action σ ε α :=
    Action.reading fun _ => r

def within {σ τ : Type} (part : σ → τ) (put : τ → σ → σ) (runner : CommandRunner τ) :
    CommandRunner σ where
  run c := Action.within part put (runner.run c)
  locate program s := runner.locate program (part s)

end CommandRunner

end CacheUpkeep
