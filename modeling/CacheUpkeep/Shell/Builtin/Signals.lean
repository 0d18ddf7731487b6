import CacheUpkeep.Shell.Builtin.Basic
import CacheUpkeep.Shell.Signal

/-!
# Traps and signals

A signal waits for its trap to be run or ends the process that it is sent to.  One that
is sent to a process further out stays posted until that process goes on.
-/

namespace CacheUpkeep.Shell.Builtin

open CacheUpkeep.Text Sh

/-! ## Traps -/

def showTraps : Sh Unit := do
  let sorted := (← process).traps.mergeSort fun a b => a.1 ≤ b.1
  sorted.forM fun (n, action) =>
    put ("trap -- " ++ quoted action ++ " " ++ Signal.name n ++ "\n")

def trapEach (action : Option String) : List String → Sh Nat
  | [] => return 0
  | text :: rest => do
      match Signal.read? 0 text with
      | none =>
          let _ ← writeTo 2 ("trap: " ++ text ++ ": bad trap\n")
          return 1
      | some n =>
          modifyProcess fun p =>
            let others := p.traps.filter fun (m, _) => m ≠ n
            { p with
              traps := match action with
                | some a => (n, a) :: others
                | none => others }
          trapEach action rest

def trap (args : List String) : Sh Nat := do
  match ← plainArguments args with
  | [] =>
      showTraps
      return 0
  | first :: rest =>
      if rest.isEmpty || first.toList.all isDigit && first ≠ "" then
        trapEach none (first :: rest)
      else trapEach (if first = "-" then none else some first) rest

/-! ## Signals -/

def jobNamed (text : String) : Sh Nat := do
  let ids := ((← process).jobs.map Prod.fst).reverse
  let name := text.toList.drop 1
  let found :=
    match name with
    | [] | ['%'] | ['+'] => ids.getLast?
    | ['-'] => ids.dropLast.getLast?
    | name => if name.all isDigit then ids[digitsValue name - 1]? else none
  match found with
  | some id => return id
  | none => fail ("No such job: " ++ text)

/-- Takes a signal: it waits for its trap, or ends the process if there is none. -/
def receive (signal : Nat) : Sh Unit := do
  let p ← process
  if Signal.isFinal signal then leave (.signal signal)
  else if p.ignored.contains signal then pure ()
  else
    match p.traps.lookup signal with
    | some "" => pure ()
    | some _ => modifyProcess fun p => { p with signals := signal :: p.signals }
    | none => if Signal.isHarmless signal then pure () else leave (.signal signal)

def receivePosted : Sh Unit := do
  let s ← get
  let (own, others) := s.world.posted.partition fun (id, _) => id = s.process.id
  MonadState.set { s with world := { s.world with posted := others } }
  own.forM fun (_, signal) => receive signal

def sendOne (signal : Nat) (text : String) : Sh Nat := do
  let negative := text.toList.head? = some '-'
  let id ←
    if text.toList.head? = some '%' then jobNamed text
    else number (if negative then String.ofList (text.toList.drop 1) else text)
  let p ← process
  if !negative && id = p.id then
    sendHere signal
  else if !negative && p.ancestors.contains id then
    if signal ≠ 0 then post id
    return 0
  else
    match p.jobs.lookup id with
    | some (.waiting _ _ _) =>
        if signal ≠ 0 && !Signal.isHarmless signal then endJob id
        return 0
    | some (.done _) => return 0
    | none =>
        warn "No such process\n"
        return 1
where
  sendHere (signal : Nat) : Sh Nat := do
    if signal ≠ 0 then receive signal
    return 0
  post (id : Nat) : Sh Unit :=
    modify fun s =>
      { s with world := { s.world with posted := s.world.posted ++ [(id, signal)] } }
  endJob (id : Nat) : Sh Unit :=
    modifyProcess fun p =>
      let endOne (job : Nat × JobState Process) : Nat × JobState Process :=
        if job.1 = id then (id, .done (.signal signal)) else job
      { p with jobs := p.jobs.map endOne }

def killUsage : String :=
  "Usage: kill [-s sigspec | -signum | -sigspec] [pid | job]... or\nkill -l [exitstatus]"

def listSignals (args : List String) : Sh Nat := do
  match args with
  | [] =>
      put "0\n"
      Signal.names.forM fun name => put (name ++ "\n")
      return 0
  | text :: _ =>
      let n ← number text
      let n := if 128 < n then n - 128 else n
      if 0 < n && n ≤ Signal.names.length then
        put (Signal.name n ++ "\n")
        return 0
      else fail ("invalid signal number or exit status: " ++ text)

def kill (args : List String) : Sh Nat := do
  match args with
  | [] => fail killUsage
  | first :: rest =>
      let direct :=
        match first.toList with
        | '-' :: name => Signal.read? 1 (String.ofList name)
        | _ => none
      let (signal, lists, targets) ←
        match direct with
        | some n => pure (some n, false, rest)
        | none => do
            let (flags, targets) ← flags [('l', false), ('s', true)] args
            let named := (flags.filter fun (c, _) => c = 's').getLast?
            let signal ←
              match named with
              | none => pure none
              | some (_, name) =>
                  match Signal.read? 1 name with
                  | some n => pure (some n)
                  | none => fail ("invalid signal number or name: " ++ name)
            pure (signal, flags.any fun (c, _) => c = 'l', targets)
      if lists then
        if signal.isSome then fail killUsage else listSignals targets
      else if targets.isEmpty then fail killUsage
      else
        let statuses ← targets.mapM (sendOne (signal.getD Signal.termination))
        return statuses.foldr max 0

end CacheUpkeep.Shell.Builtin
