import CacheUpkeep.Shell.Condition
import CacheUpkeep.Shell.Format
import CacheUpkeep.Shell.Mask
import CacheUpkeep.Shell.State

/-!
# Native programs

The programs that are native to a machine and run no other one.  A program writes to
its descriptors at once, complains under the name that it was called by, and gives
its exit code.
-/

namespace CacheUpkeep.Shell.Native

open CacheUpkeep.Text Sh

/-! ## Complaints -/

def isSpecial (c : Char) : Bool :=
  "!\"$&'()*:;<=>?[\\^|\x60 ".toList.contains c || c.toNat < 32 || 126 < c.toNat

def needsQuotes (name : List Char) : Bool :=
  match name with
  | [] | ['\x7b'] | ['\x7d'] => true
  | c :: _ => c = '#' || c = '~' || name.any isSpecial

/-- The escape of an octet that is not shown. -/
def hiddenOctet? (c : Char) : Option (List Char) :=
  match c with
  | '\x07' => some ['\\', 'a']
  | '\x08' => some ['\\', 'b']
  | '\t' => some ['\\', 't']
  | '\n' => some ['\\', 'n']
  | '\x0b' => some ['\\', 'v']
  | '\x0c' => some ['\\', 'f']
  | '\x0d' => some ['\\', 'r']
  | c =>
      if c.toNat < 32 || 126 < c.toNat then
        some ('\\' :: (Nat.toDigits 8 c.toNat).leftpad 3 '0')
      else none

/-- The inside of single quotes, where hidden octets stand in quotes of their own. -/
def insideQuotes : Bool → List Char → List Char
  | _, [] => []
  | hidden, c :: rest =>
      match hiddenOctet? c with
      | some escape => (if hidden then [] else "'$'".toList) ++ escape ++ insideQuotes true rest
      | none =>
          (if hidden then "''".toList else []) ++
            (if c = '\'' then "'\\''".toList else [c]) ++ insideQuotes false rest

def inQuotes (name : String) : String :=
  let cs := name.toList
  let isPlain (c : Char) : Bool := c = ' ' || c = '\'' || !isSpecial c
  if cs.contains '\'' && cs.all isPlain then "\"" ++ name ++ "\""
  else "'" ++ String.ofList (insideQuotes false cs) ++ "'"

def shown (name : String) : String :=
  if needsQuotes name.toList then inQuotes name else name

def complain (zero message : String) (code : Nat) : Sh Nat := do
  let _ ← writeTo 2 (zero ++ ": " ++ message ++ "\n")
  return code

def complainUsage (zero message : String) : Sh Nat :=
  complain zero (message ++ "\nTry '" ++ zero ++ " --help' for more information.") 1

/-- Writes a text and gives zero, or complains and gives a code. -/
def output (zero text : String) (code : Nat) : Sh Nat := do
  if ← writeTo 1 text then return 0
  else complain zero "write error: Bad file descriptor" code

/-! ## Options -/

def options (known : List Char) : List String → Except String (List Char × List String)
  | [] => .ok ([], [])
  | arg :: rest => do
      match arg.toList with
      | ['-', '-'] => return ([], rest)
      | '-' :: '-' :: _ => throw ("unrecognized option '" ++ arg ++ "'")
      | '-' :: c :: cs =>
          match (c :: cs).find? fun c => !known.contains c with
          | some c => throw ("invalid option -- '" ++ String.singleton c ++ "'")
          | none =>
              let (flags, others) ← options known rest
              return (c :: cs ++ flags, others)
      | _ =>
          let (flags, others) ← options known rest
          return (flags, arg :: others)

def withOptions (zero : String) (known : List Char) (args : List String)
    (body : List Char → List String → Sh Nat) : Sh Nat :=
  match options known args with
  | .ok (flags, args) => body flags args
  | .error message => complainUsage zero message

/-- Does something for each argument; the code is one if any of it fails. -/
def forEach (args : List String) (body : String → Sh Nat) : Sh Nat := do
  return (← args.mapM body).foldr max 0

def pathOf (name : String) : Path :=
  Path.ofString (Octets.toText name)

def change (zero trouble name : String)
    (edit : FileSystem → Except IoError FileSystem) : Sh Nat := do
  match edit (← files) with
  | .ok fs =>
      modifyFiles fun _ => fs
      return 0
  | .error e => complain zero (trouble ++ " " ++ inQuotes name ++ ": " ++ e.reason) 1

/-! ## Programs -/

structure CopyStyle where
  numbers : Bool
  numbersBlank : Bool
  squeezes : Bool
  ends : Bool
  tabs : Bool
  hidden : Bool

/-- Where `cat` is: the lines it has numbered, and the blank lines right before. -/
structure CopyState where
  line : Nat
  atStart : Bool
  blanks : Nat

namespace CopyStyle

def ofFlags (flags : List Char) : CopyStyle :=
  let has (letters : String) : Bool := flags.any letters.toList.contains
  { numbers := has "nb", numbersBlank := !has "b", squeezes := has "s", ends := has "AEe"
    tabs := has "ATt", hidden := has "Avet" }

def isPlain (style : CopyStyle) : Bool :=
  !(style.numbers || style.squeezes || style.ends || style.tabs || style.hidden)

/-- An octet below 128 that may not be printable. -/
def shownLow (n : Nat) : List Char :=
  if n < 32 then ['^', Char.ofNat (n + 64)]
  else if n = 127 then ['^', '?']
  else [Char.ofNat n]

def shownOctet (style : CopyStyle) (c : Char) : List Char :=
  if c = '\t' then (if style.tabs then ['^', 'I'] else [c])
  else if !style.hidden then [c]
  else if c.toNat < 128 then shownLow c.toNat
  else 'M' :: '-' :: shownLow (c.toNat - 128)

def numbered (line : Nat) : List Char :=
  (digits line).leftpad 6 ' ' ++ ['\t']

def step (style : CopyStyle) (r : List Char × CopyState) (c : Char) : List Char × CopyState :=
  let (out, s) := r
  let isBlank := s.atStart && c = '\n'
  if isBlank && style.squeezes && 1 ≤ s.blanks then (out, s)
  else
    let counts := s.atStart && style.numbers && (style.numbersBlank || !isBlank)
    let line := if counts then s.line + 1 else s.line
    let start := if counts then numbered line else []
    let shown :=
      if c = '\n' then (if style.ends then ['$', c] else [c]) else style.shownOctet c
    let blanks := if isBlank then s.blanks + 1 else 0
    (shown.reverse ++ (start.reverse ++ out), ⟨line, c = '\n', blanks⟩)

/-- What is written for a text, and where that leads. -/
def render (style : CopyStyle) (s : CopyState) (text : String) : String × CopyState :=
  if style.isPlain then (text, s)
  else
    let (out, s) := text.toList.foldl style.step ([], s)
    (String.ofList out.reverse, s)

end CopyStyle

def copySource (zero name : String) : Sh (Option String) := do
  if name = "-" then
    if ((← process).descriptors.lookup 0).isSome then
      return some (Octets.ofBytes (← readAll 0).toByteArray)
    else
      let _ ← complain zero "-: Bad file descriptor" 1
      return none
  else
    match (← files).readBytes (pathOf name) with
    | .ok content => return some (Octets.ofBytes content)
    | .error e =>
        let _ ← complain zero (shown name ++ ": " ++ e.reason) 1
        return none

def copyEach (zero : String) (style : CopyStyle) : Nat → CopyState → List String → Sh Nat
  | code, _, [] => return code
  | code, s, name :: rest => do
      match ← copySource zero name with
      | none => copyEach zero style 1 s rest
      | some text =>
          let (out, s) := style.render s text
          if ← writeTo 1 out then copyEach zero style code s rest
          else complain zero "standard output: Bad file descriptor" 1

def cat (zero : String) (args : List String) : Sh Nat :=
  withOptions zero "AbeEnstTuv".toList args fun flags args => do
    let names := if args.isEmpty then ["-"] else args
    let code ← copyEach zero (.ofFlags flags) 0 ⟨0, true, 0⟩ names
    let isClosed := ((← process).descriptors.lookup 0).isNone
    if names.contains "-" && isClosed then
      complain zero "closing standard input: Bad file descriptor" 1
    else return code

/-- The flags of `echo` are the letters `n`, `e` and `E` and nothing else. -/
def echoFlags : List String → List Char × List String
  | [] => ([], [])
  | arg :: rest =>
      match arg.toList with
      | '-' :: c :: cs =>
          if (c :: cs).all ("neE".toList.contains ·) then
            let (flags, others) := echoFlags rest
            (c :: cs ++ flags, others)
          else ([], arg :: rest)
      | _ => ([], arg :: rest)

def octalEscape (n : Nat) : List Char :=
  '\\' :: '0' :: (Nat.toDigits 8 n).leftpad 3 '0'

def withoutHexadecimal : List Char → List Char
  | '\\' :: 'x' :: c :: d :: rest =>
      match Arithmetic.digitIn? 16 c, Arithmetic.digitIn? 16 d with
      | some m, some n => octalEscape (16 * m + n) ++ withoutHexadecimal rest
      | some m, none => octalEscape m ++ withoutHexadecimal (d :: rest)
      | none, _ => '\\' :: 'x' :: withoutHexadecimal (c :: d :: rest)
  | ['\\', 'x', c] =>
      match Arithmetic.digitIn? 16 c with
      | some m => octalEscape m
      | none => ['\\', 'x', c]
  | '\\' :: c :: rest => '\\' :: c :: withoutHexadecimal rest
  | c :: rest => c :: withoutHexadecimal rest
  | [] => []

def echo (zero : String) (args : List String) : Sh Nat :=
  let (flags, args) := echoFlags args
  let escapes := (flags.filter (· ≠ 'n')).getLast? = some 'e'
  let text := (" ".intercalate args).toList
  let u : Unescaped := if escapes then unescape (withoutHexadecimal text) else ⟨text, false⟩
  let newline := if flags.contains 'n' || u.stop then "" else "\n"
  output zero (String.ofList u.text ++ newline) 1

def printf (zero : String) (args : List String) : Sh Nat := do
  match args with
  | [] => complainUsage zero "missing operand"
  | format :: args =>
      let printed := Format.print format args
      for message in printed.complaints ++ printed.fault.toList do
        let _ ← complain zero message 1
      let code ← output zero (String.ofList printed.output.reverse) 1
      return if printed.complaints.isEmpty && printed.fault.isNone then code else 1

def test (zero : String) (args : List String) : Sh Nat := do
  match Condition.evaluate (← files) args with
  | .ok true => return 0
  | .ok false => return 1
  | .error message => complain zero message 2

def bracket (zero : String) (args : List String) : Sh Nat :=
  if args.getLast? = some "]" then test zero args.dropLast
  else complain zero "missing ']'" 2

def pwd (zero : String) : Sh Nat := do
  output zero (Octets.ofText ("/" ++ "/".intercalate (← files).here) ++ "\n") 1

def withoutEnd (path : List Char) : List Char :=
  (path.reverse.dropWhile (· = '/')).reverse

def lastPart (path : List Char) : List Char :=
  if path.isEmpty then []
  else
    match withoutEnd path with
    | [] => ['/']
    | path => (path.reverse.takeWhile (· ≠ '/')).reverse

def baseName (zero : String) (args : List String) : Sh Nat :=
  withOptions zero [] args fun _ args =>
    match args with
    | [] => complainUsage zero "missing operand"
    | path :: rest =>
        let name := lastPart path.toList
        let ending := (rest.headD "").toList
        let isProper := ending.isSuffixOf name && ending.length < name.length
        let name := if isProper then name.take (name.length - ending.length) else name
        output zero (String.ofList name ++ "\n") 1

def directoryName (zero : String) (args : List String) : Sh Nat :=
  withOptions zero [] args fun _ args =>
    if args.isEmpty then complainUsage zero "missing operand"
    else forEach args fun path => output zero (directory path.toList ++ "\n") 1
where
  directory (path : List Char) : String :=
    let before := ((withoutEnd path).reverse.dropWhile (· ≠ '/')).reverse
    if before.isEmpty then (if path.head? = some '/' then "/" else ".")
    else if (withoutEnd before).isEmpty then "/"
    else String.ofList (withoutEnd before)

def makeDirectory (zero : String) (args : List String) : Sh Nat :=
  withOptions zero ['p'] args fun flags args =>
    if args.isEmpty then complainUsage zero "missing operand"
    else
      forEach args fun name =>
        change zero "cannot create directory" name fun fs =>
          if flags.contains 'p' then
            match (FileSystem.makeDirectories (pathOf name)).outcome fs with
            | (.ok _, fs) => .ok fs
            | (.error e, _) => .error e
          else fs.makeDirectory (pathOf name)

def removeDirectory (zero : String) (args : List String) : Sh Nat :=
  withOptions zero [] args fun _ args =>
    if args.isEmpty then complainUsage zero "missing operand"
    else
      forEach args fun name => change zero "failed to remove" name fun fs => do
        match ← fs.linkStat (pathOf name) with
        | (location, .directory) =>
            if (fs.namesIn location).isEmpty then return fs.without location
            else throw (IoError.other "Directory not empty")
        | _ => throw .notDirectory

def remove (zero : String) (args : List String) : Sh Nat :=
  withOptions zero ['f', 'r', 'R'] args fun flags args =>
    let forced := flags.contains 'f'
    let all := flags.contains 'r' || flags.contains 'R'
    if args.isEmpty && !forced then complainUsage zero "missing operand"
    else
      forEach args fun name => change zero "cannot remove" name fun fs =>
        let edited := if all then removeAll fs (pathOf name) else fs.unlink (pathOf name)
        if forced && isAbsence edited then .ok fs else edited
where
  removeAll (fs : FileSystem) (path : Path) : Except IoError FileSystem := do
    return fs.without (← fs.linkStat path).1
  isAbsence (edited : Except IoError FileSystem) : Bool :=
    match edited with
    | .error .notFound | .error .notDirectory => true
    | _ => false

def touch (zero : String) (args : List String) : Sh Nat :=
  withOptions zero ['c'] args fun flags args =>
    if args.isEmpty then complainUsage zero "missing file operand"
    else
      forEach args fun name => change zero "cannot touch" name fun fs => do
        if fs.existsAt (pathOf name) || flags.contains 'c' then return fs
        else return (← fs.openFile (pathOf name)).2.2

/-- The rights of a file that is executable or not, under a usual mask. -/
def rightsOf (executable : Bool) : Nat :=
  if executable then 0o755 else 0o644

/-- Whether a file is executable after a change of its rights; `none` if that is none. -/
def changeRights? (mode : String) (executable : Bool) : Option Bool :=
  match Mask.changeRights (rightsOf executable) mode with
  | .ok rights => some ([6, 3, 0].any fun shift => Mask.rightsAt rights shift % 2 = 1)
  | .error _ => none

def changeMode (zero : String) (args : List String) : Sh Nat :=
  match args with
  | mode :: name :: names =>
      if (changeRights? mode true).isNone then
        complainUsage zero ("invalid mode: " ++ inQuotes mode)
      else
        forEach (name :: names) fun name => change zero "cannot access" name fun fs => do
          match ← fs.stat (pathOf name) with
          | (location, .file _ _ executable) =>
              return fs.setExecutable location ((changeRights? mode executable).getD executable)
          | _ => return fs
  | [mode] => complainUsage zero ("missing operand after " ++ inQuotes mode)
  | [] => complainUsage zero "missing operand"

/-- A number of seconds, minutes, hours or days; no time passes in a run. -/
def sleep (zero : String) (args : List String) : Sh Nat :=
  if args.isEmpty then complainUsage zero "missing operand"
  else
    match args.find? fun arg => !isInterval arg.toList with
    | some arg => complainUsage zero ("invalid time interval " ++ inQuotes arg)
    | none => return 0
where
  isInterval (text : List Char) : Bool :=
    let whole := text.takeWhile isDigit
    let rest := text.drop whole.length
    let fraction := if rest.head? = some '.' then (rest.drop 1).takeWhile isDigit else []
    let unit := if rest.head? = some '.' then rest.drop (fraction.length + 1) else rest
    !(whole ++ fraction).isEmpty && [[], ['s'], ['m'], ['h'], ['d']].contains unit

/-- Runs a native program; `none` if it is one that runs others. -/
def run? (name zero : String) (args : List String) : Option (Sh Nat) :=
  match name with
  | "true" => some (pure 0)
  | "false" => some (pure 1)
  | "cat" => some (cat zero args)
  | "echo" => some (echo zero args)
  | "printf" => some (printf zero args)
  | "test" => some (test zero args)
  | "[" => some (bracket zero args)
  | "pwd" => some (pwd zero)
  | "basename" => some (baseName zero args)
  | "dirname" => some (directoryName zero args)
  | "mkdir" => some (makeDirectory zero args)
  | "rmdir" => some (removeDirectory zero args)
  | "rm" => some (remove zero args)
  | "chmod" => some (changeMode zero args)
  | "touch" => some (touch zero args)
  | "sleep" => some (sleep zero args)
  | _ => none

end CacheUpkeep.Shell.Native
