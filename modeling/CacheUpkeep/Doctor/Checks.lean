import CacheUpkeep.Doctor.Issue
import CacheUpkeep.Json.Syntax
import CacheUpkeep.Text.Lines

/-!
# Checks of tools

Each check asks the tools of a machine and answers the issues that it finds; no
issues mean that all is well.
-/

namespace CacheUpkeep.Doctor

open CacheUpkeep.Text

variable {σ : Type}

def contains (text part : String) : Bool :=
  occursIn part.toList text.toList

def gitVersionIssues : Except CommandError CommandOutput → List Issue
  | .error e => [.gitQueryFailed e]
  | .ok o =>
      match Version.read o.stdout with
      | none => [.gitVersionUnknown (trim o.stdout)]
      | some v => if v.before leastGitVersion then [.gitTooOld] else []

def lfsIssues : Except CommandError CommandOutput → List Issue
  | .ok o => if contains o.stdout "filter.lfs" then [] else [.lfsNotConfigured]
  | .error _ => [.lfsNotConfigured]

def git (runner : CommandRunner σ) : StateM σ (List Issue) := do
  let hasGit := (runner.locate "git" (← get)).isSome
  let versionIssues ←
    if hasGit then
      gitVersionIssues <$> (runner.runChecked ⟨"git", ["--version"], []⟩).run
    else pure [.gitMissing]
  let hasLfs := (runner.locate "git-lfs" (← get)).isSome
  let configIssues ←
    if !hasLfs then pure [.lfsMissing]
    else if hasGit then
      lfsIssues <$> (runner.run ⟨"git", ["config", "--global", "--list"], []⟩).run
    else pure []
  return versionIssues ++ configIssues

def fieldIs (value : Json) (name text : String) : Bool :=
  match value.field? name with
  | some (.string t) => t = text
  | _ => false

def lists (remotes : Json) (remote : String) : Bool :=
  match remotes with
  | .array items => items.any fun r => fieldIs r "name" remote
  | _ => false

def loginEntry? (users : Json) (remote : String) : Option Json :=
  match users with
  | .array items => items.find? fun u => fieldIs u "name" remote || fieldIs u "remote" remote
  | .object members => Json.member? remote members
  | _ => none

/-- The user logged in to a remote, from a list of entries or an object keyed by remote. -/
def userName? (users : Json) (remote : String) : Option String := do
  let entry ← loginEntry? users remote
  let name ← (← entry.field? "user_name").string?
  if name = "" then none else some name

def query (runner : CommandRunner σ) (c : Command) : Action σ Issue Json := do
  let o ← Action.mapError Issue.conanQueryFailed (runner.runChecked c)
  match Json.read o.stdout with
  | some value => return value
  | none => throw (.unexpectedOutput c.line)

def remoteCommand (program verb : String) : Command :=
  ⟨program, ["remote", verb, "--format=json"], []⟩

def login (runner : CommandRunner σ) (program remote : String) : Action σ Issue Unit := do
  let located ← Action.reading fun s => .ok (runner.locate program s).isSome
  if !located then throw .conanMissing
  let remotes ← query runner (remoteCommand program "list")
  if !lists remotes remote then throw (.remoteUnknown remote)
  let users ← query runner (remoteCommand program "list-users")
  if (userName? users remote).isNone then throw (.notLoggedIn remote)

/-- Conan knows the remote, and a user is logged in to it. -/
def conanLogin (runner : CommandRunner σ) (program remote : String) :
    StateM σ (List Issue) := do
  match ← (login runner program remote).run with
  | .ok _ => return []
  | .error issue => return [issue]

end CacheUpkeep.Doctor
