import CacheUpkeep.Shell.Builtin.Basic

/-!
# Variables and flags

The built-in commands that show, set and mark the variables of the shell, and those
that set its flags and its arguments.
-/

namespace CacheUpkeep.Shell.Builtin

open CacheUpkeep.Text Sh

/-! ## Variables -/

def shownVariable (start name : String) (value : Option String) : String :=
  let start := if start = "" then "" else start ++ " "
  match value with
  | some text => start ++ name ++ "=" ++ quoted text ++ "\n"
  | none => start ++ name ++ "\n"

def showVariables (start : String) (kind : ShellVariable → Bool) : Sh Unit := do
  let vars := (← process).vars.filter fun (_, v) => kind v
  let sorted := vars.mergeSort fun a b => a.1 ≤ b.1
  sorted.forM fun (name, v) => put (shownVariable start name v.value)

def splitAssignment (text : String) : String × Option String :=
  match splitAtFirst '=' text.toList with
  | some (name, value) => (String.ofList name, some (String.ofList value))
  | none => (text, none)

def markOne (setting : Setting) (text : String) : Sh Unit := do
  match splitAssignment text with
  | (name, some value) =>
      checkName name
      setWith setting name (some value)
  | (name, none) =>
      match (← process).held? name with
      | some v =>
          modifyProcess fun p =>
            p.putVariable name
              { v with
                exported := v.exported || setting.exported
                readonly := v.readonly || setting.readonly }
      | none =>
          checkName name
          setWith setting name none

def mark (name : String) (setting : Setting) (args : List String) : Sh Nat := do
  let (flags, args) ← flags [('p', false)] args
  if flags.isEmpty && !args.isEmpty then args.forM (markOne setting)
  else
    showVariables name fun v => if setting.exported then v.exported else v.readonly
  return 0

def unset (args : List String) : Sh Nat := do
  let (flags, args) ← flags [('v', false), ('f', false)] args
  let functions := (flags.getLast?.map Prod.fst) = some 'f'
  args.forM fun name =>
    if functions then
      modifyProcess fun p => { p with functions := p.functions.filter fun (n, _) => n ≠ name }
    else unsetVariable name
  return 0

def localVariables (args : List String) : Sh Nat := do
  if (← process).locals.isEmpty then fail "not in a function"
  args.forM fun arg => do
    match splitAssignment arg with
    | (name, some value) =>
        keepLocal name
        setVariable name value
    | (name, none) => if name = "-" then keepFlags else keepName name
  return 0
where
  keepName (name : String) : Sh Unit := do
    checkName name
    keepLocal name

/-! ## Flags of the shell -/

def flagNames : List (String × Char) :=
  [("errexit", 'e'), ("noglob", 'f'), ("ignoreeof", 'I'), ("interactive", 'i'),
    ("monitor", 'm'), ("noexec", 'n'), ("stdin", 's'), ("xtrace", 'x'), ("verbose", 'v'),
    ("vi", 'V'), ("emacs", 'E'), ("noclobber", 'C'), ("allexport", 'a'), ("notify", 'b'),
    ("nounset", 'u'), ("privileged", 'p'), ("nolog", 'L'), ("debug", 'D')]

/-- The flags that are known by their names alone. -/
def nameOnly : List Char := ['L', 'D']

def setFlag (on : Bool) (flag : Char) : Sh Unit :=
  modifyProcess fun p =>
    let others := p.flags.filter (· ≠ flag)
    { p with flags := if on then flag :: others else others }

def setLetter (on : Bool) (letter : Char) : Sh Unit :=
  if (flagNames.any fun (_, c) => c = letter) && !nameOnly.contains letter then
    setFlag on letter
  else fail ("Illegal option -" ++ String.singleton letter)

def setName (on : Bool) (name : String) : Sh Unit :=
  match flagNames.lookup name with
  | some flag => setFlag on flag
  | none => fail ("Illegal option -o " ++ name)

def showFlags (on : Bool) : Sh Unit := do
  if on then put "Current option settings\n"
  let flags := (← process).flags
  flagNames.forM fun (name, c) =>
    if on then
      let padded := String.ofList (name.toList ++ List.replicate (16 - name.length) ' ')
      put (padded ++ (if flags.contains c then "on" else "off") ++ "\n")
    else put ("set " ++ (if flags.contains c then "-o " else "+o ") ++ name ++ "\n")

/-- Letters after a sign; `o` takes the next argument as a name. -/
def setLetters (on : Bool) : List Char → List String → Sh (List String)
  | [], args => return args
  | 'o' :: letters, [] => do
      showFlags on
      setLetters on letters []
  | 'o' :: letters, name :: args => do
      setName on name
      setLetters on letters args
  | letter :: letters, args => do
      setLetter on letter
      setLetters on letters args

def setArguments (args : List String) : Sh Unit :=
  modifyProcess fun p => { p with args, optionIndex := 1, optionOffset := none }

def setWithin : Nat → List String → Sh Unit
  | 0, _ => pure ()
  | fuel + 1, args => do
      match args with
      | [] => pure ()
      | arg :: rest =>
          match arg.toList with
          | ['-'] => do
              setFlag false 'x'
              setFlag false 'v'
              if !rest.isEmpty then setArguments rest
          | ['-', '-'] => setArguments rest
          | '-' :: letters => do setWithin fuel (← setLetters true letters rest)
          | '+' :: letters => do setWithin fuel (← setLetters false letters rest)
          | _ => setArguments args

def set (args : List String) : Sh Nat := do
  if args.isEmpty then showVariables "" fun v => v.value.isSome
  else setWithin (args.length + 1) args
  return 0

end CacheUpkeep.Shell.Builtin
