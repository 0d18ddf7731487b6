import CacheUpkeep.CommandLine.Description
import CacheUpkeep.CommandLine.Run

/-!
# The program

Runs the command line on the machine that is described on standard input.
-/

open CacheUpkeep CacheUpkeep.CommandLine

def main (args : List String) : IO UInt32 := do
  let input ← (← IO.getStdin).readToEnd
  match Description.read input with
  | none =>
      IO.eprintln "standard input describes no machine"
      return 2
  | some d =>
      let (ending, _) := tool args d.vars d.now d.machine
      IO.print ending.stdout
      match ending.logged with
      | some message => IO.eprintln ("ERROR " ++ message)
      | none => pure ()
      return UInt32.ofNat ending.code
