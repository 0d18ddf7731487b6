import CacheUpkeep.Text.Decimal

/-!
# Signals

The signals of processes by number and name, and what they do to a process that has
no trap for them.
-/

namespace CacheUpkeep.Shell.Signal

open CacheUpkeep.Text

def names : List String :=
  ["HUP", "INT", "QUIT", "ILL", "TRAP", "ABRT", "BUS", "FPE", "KILL", "USR1", "SEGV", "USR2",
    "PIPE", "ALRM", "TERM", "16", "CHLD", "CONT", "STOP", "TSTP", "TTIN", "TTOU", "URG",
    "XCPU", "XFSZ", "VTALRM", "PROF", "WINCH", "IO", "PWR", "SYS", "32", "33", "RTMIN",
    "RTMIN+1", "RTMIN+2", "RTMIN+3", "RTMIN+4", "RTMIN+5", "RTMIN+6", "RTMIN+7", "RTMIN+8",
    "RTMIN+9", "RTMIN+10", "RTMIN+11", "RTMIN+12", "RTMIN+13", "RTMIN+14", "RTMIN+15",
    "RTMAX-14", "RTMAX-13", "RTMAX-12", "RTMAX-11", "RTMAX-10", "RTMAX-9", "RTMAX-8",
    "RTMAX-7", "RTMAX-6", "RTMAX-5", "RTMAX-4", "RTMAX-3", "RTMAX-2", "RTMAX-1", "RTMAX"]

def termination : Nat := 15

/-- The signal that a process gets when one that it started has ended. -/
def childEnded : Nat := 17

/-- The name of a signal; number zero is the end of the shell. -/
def name : Nat → String
  | 0 => "EXIT"
  | n + 1 => names.getD n (numeral (n + 1))

/-- The signal that a text names by number or, from the least one on, by name. -/
def read? (least : Nat) (text : String) : Option Nat :=
  let cs := text.toList
  if !cs.isEmpty && cs.all isDigit then
    let n := digitsValue cs
    if n ≤ names.length then some n else none
  else
    let upper := String.ofList (cs.map Char.toUpper)
    (List.range (names.length + 1)).find? fun n => least ≤ n && name n = upper

/-- The signals that no process can trap: `KILL` and `STOP`. -/
def isFinal (n : Nat) : Bool :=
  n = 9 || n = 19

/-- The signals that do nothing to a process: `CHLD`, `CONT`, `URG` and `WINCH`. -/
def isHarmless (n : Nat) : Bool :=
  n = 17 || n = 18 || n = 23 || n = 28

def description (n : Nat) : String :=
  match n with
  | 1 => "Hangup"
  | 2 => "Interrupt"
  | 3 => "Quit"
  | 4 => "Illegal instruction"
  | 5 => "Trace/breakpoint trap"
  | 6 => "Aborted"
  | 7 => "Bus error"
  | 8 => "Floating point exception"
  | 9 => "Killed"
  | 10 => "User defined signal 1"
  | 11 => "Segmentation fault"
  | 12 => "User defined signal 2"
  | 13 => "Broken pipe"
  | 14 => "Alarm clock"
  | 15 => "Terminated"
  | 24 => "CPU time limit exceeded"
  | 25 => "File size limit exceeded"
  | 26 => "Virtual timer expired"
  | 27 => "Profiling timer expired"
  | 29 => "I/O possible"
  | 30 => "Power failure"
  | 31 => "Bad system call"
  | n => "Real-time signal " ++ numeral (n - 34)

end CacheUpkeep.Shell.Signal
