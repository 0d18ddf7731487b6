import CacheUpkeep.Shell.Expand

/-!
# Redirections

Descriptors of a process are bound to files, to streams of other descriptors, and to
documents in the script.  What a descriptor was bound to before comes back when the
command ends.
-/

namespace CacheUpkeep.Shell

open CacheUpkeep.Text

/-- A redirection whose words have been expanded; a copy of nothing closes. -/
inductive Opening where
  | file (fd : Nat) (kind : RedirectKind) (name : String)
  | copy (fd : Nat) (source : Option Nat)
  | document (fd : Nat) (number : Nat)
deriving DecidableEq, Repr

namespace Opening

def fd : Opening → Nat
  | .file fd _ _ | .copy fd _ | .document fd _ => fd

/-- The descriptor that a text names, or `-` for none. -/
def source? (text : String) : Option (Option Nat) :=
  match text.toList with
  | ['-'] => some none
  | [c] => if isDigit c then some (some (digitValue c)) else none
  | _ => none

def ofRedirect (run : Expand.Substituter) : Redirect → Sh Opening
  | .file fd kind name => do
      return .file fd kind (← Expand.text run .single name)
  | .copy fd source => do
      match source? (← Expand.text run .single source) with
      | some source => return .copy fd source
      | none =>
          Sh.modifyProcess fun p => { p with line := p.inputLine }
          Sh.fail "Syntax error: Bad fd number"
  | .document fd number => return .document fd number

end Opening

namespace Redirect

def namedDescriptor? (name : String) : Option Nat :=
  match name with
  | "/dev/stdin" => some 0
  | "/dev/stdout" => some 1
  | "/dev/stderr" => some 2
  | _ => (afterDirectory "/dev/fd/").or (afterDirectory "/proc/self/fd/")
where
  afterDirectory (dir : String) : Option Nat :=
    let cs := name.toList.drop dir.length
    if dir.toList.isPrefixOf name.toList && !cs.isEmpty && cs.all isDigit then
      some (digitsValue cs)
    else none

def targetOf (node : Node) (access : Access) : Target :=
  match node with
  | .file id _ _ => .file id 0 access
  | _ => .nowhere access

def readTarget (fs : FileSystem) (path : Path) : Except IoError Target := do
  return targetOf (← fs.stat path).2 .reading

/-- Opens a file for writing, and empties it if `empties` says so. -/
def writeTarget (fs : FileSystem) (path : Path) (empties : Bool) (access : Access) :
    Except IoError (Target × FileSystem) := do
  let (_, location, fs) ← fs.openFile path
  let fs := if empties then fs.setContent location ByteArray.empty else fs
  let node := (fs.node? location).getD .directory
  return (targetOf node access, fs)

/-- Whether a regular file, or a link to nothing, must not be written over. -/
def isProtected (fs : FileSystem) (path : Path) : Bool :=
  match fs.stat path with
  | .ok (_, .file _ _ _) => true
  | .ok _ => false
  | .error _ => match fs.linkStat path with
    | .ok _ => true
    | .error _ => false

def target (fs : FileSystem) (protects : Bool) (kind : RedirectKind) (path : Path) :
    Except IoError (Target × FileSystem) :=
  match kind with
  | .read => do return (← readTarget fs path, fs)
  | .readWrite => writeTarget fs path false .both
  | .append => writeTarget fs path false .appending
  | .overwrite => writeTarget fs path true .writing
  | .write =>
      if protects && isProtected fs path then .error .exists
      else writeTarget fs path true .writing

def complaint (kind : RedirectKind) (name : String) (e : IoError) : String :=
  let isAbsent := e = .notFound || e = .notDirectory
  match kind with
  | .read => "cannot open " ++ name ++ ": " ++ if isAbsent then "No such file" else e.reason
  | _ =>
      "cannot create " ++ name ++ ": " ++
        if isAbsent then "Directory nonexistent" else e.reason

def addStream (t : Target) : Sh Nat := do
  let s ← get
  let (stream, world) := s.world.addStream t
  set { s with world }
  return stream

def bind (fd : Nat) (stream : Option Nat) : Sh Unit :=
  Sh.modifyProcess fun p =>
    let others := p.descriptors.filter fun (n, _) => n ≠ fd
    { p with
      descriptors := match stream with
        | some stream => (fd, stream) :: others
        | none => others }

def openStream (kind : RedirectKind) (name : String) : Sh Nat := do
  let p ← Sh.process
  match namedDescriptor? name with
  | some fd =>
      match p.descriptors.lookup fd with
      | some stream => return stream
      | none => Sh.fail (complaint kind name .notFound)
  | none =>
      let path := Path.ofString (Octets.toText name)
      match target (← Sh.files) (p.flags.contains 'C') kind path with
      | .ok (t, fs) =>
          Sh.modifyFiles fun _ => fs
          addStream t
      | .error e => Sh.fail (complaint kind name e)

def documentText (run : Expand.Substituter) (number : Nat) : Sh String := do
  match (← Sh.process).documents.lookup number with
  | some d =>
      if d.expands then Expand.text run .document d.body
      else return Atom.text (d.body.filterMap literal?)
  | none => return ""
where
  literal? : Piece → Option Atom
    | .char c | .escaped c => some (.char c true false)
    | _ => none

def apply (run : Expand.Substituter) : Opening → Sh Unit
  | .file fd kind name => do
      bind fd (some (← openStream kind name))
  | .copy fd none => bind fd none
  | .copy fd (some source) => do
      if source ≠ fd then
        match (← Sh.process).descriptors.lookup source with
        | some stream => bind fd (some stream)
        | none => Sh.fail (numeral source ++ ": Bad file descriptor")
  | .document fd number => do
      let octets := (Octets.toBytes (← documentText run number)).toList
      bind fd (some (← addStream (.incoming octets)))

/-- Binds the descriptors of redirections; false after a complaint. -/
def applySafely (run : Expand.Substituter) (openings : List Opening) : Sh Bool :=
  tryCatch (openings.forM (apply run) *> pure true) fun stop =>
    match stop with
    | .failure => pure false
    | stop => throw stop

def bindings (openings : List Opening) (p : Process) : List (Nat × Option Nat) :=
  openings.map fun o => (o.fd, p.descriptors.lookup o.fd)

def restore (before : List (Nat × Option Nat)) : Sh Unit :=
  before.forM fun (fd, stream) => bind fd stream

end Redirect

end CacheUpkeep.Shell
