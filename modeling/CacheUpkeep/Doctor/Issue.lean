import CacheUpkeep.Command.Basic
import CacheUpkeep.Doctor.Version

/-!
# Issues

What a check of the environment can find, and the advice for it.
-/

namespace CacheUpkeep.Doctor

open CacheUpkeep.Text

inductive ProjectFault where
  | io (cause : IoError)
  | toml
deriving DecidableEq, Repr

def ProjectFault.message : ProjectFault → String
  | .io cause => cause.message
  | .toml => "TOML parse error"

inductive Issue where
  | gitMissing
  | gitTooOld
  | gitVersionUnknown (output : String)
  | gitQueryFailed (e : CommandError)
  | lfsMissing
  | lfsNotConfigured
  | conanMissing
  | conanQueryFailed (e : CommandError)
  | unexpectedOutput (line : String)
  | remoteUnknown (remote : String)
  | notLoggedIn (remote : String)
  | noProject
  | projectUnreadable (path : Path) (fault : ProjectFault)
  | versionMismatch (pinned running : String)
deriving DecidableEq, Repr

def projectFileName : String := "cache-warden.toml"

def Issue.message : Issue → String
  | .gitMissing =>
      "Git executable has not been found, please install git and git-lfs."
  | .gitTooOld =>
      "Minimum git version required is " ++ leastGitVersion.text ++ ", please update."
  | .gitVersionUnknown output =>
      "Could not determine the git version from '" ++ output ++ "'."
  | .gitQueryFailed e => "Failed to query the git version: " ++ e.message
  | .lfsMissing => "Please install git-lfs from https://git-lfs.github.com/."
  | .lfsNotConfigured =>
      "git-lfs is installed but not configured. Run `git lfs install`."
  | .conanMissing =>
      "Conan executable has not been found, please install Conan 2."
  | .conanQueryFailed e => "Failed to query Conan remotes: " ++ e.message
  | .unexpectedOutput line => "Unexpected output from `" ++ line ++ "`: invalid JSON"
  | .remoteUnknown remote =>
      "You don't have '" ++ remote ++ "' in your list of Conan remotes. " ++
        "Run `conan remote add " ++ remote ++ " <url>`."
  | .notLoggedIn remote =>
      "You are not logged into '" ++ remote ++ "'. Run `conan remote login " ++
        remote ++ "`."
  | .noProject =>
      "cache-warden must be called inside of a project. It's identified by a '" ++
        projectFileName ++ "' file."
  | .projectUnreadable path fault =>
      "Could not read '" ++ path.text ++ "': " ++ fault.message
  | .versionMismatch pinned running =>
      "The '" ++ projectFileName ++ "' version of your project (" ++ pinned ++
        ") does not match the version of this 'cache-warden' binary (" ++ running ++
        "). Install the pinned release to fix this."

/-- The issues that a tool reports, numbered from one. -/
structure Diagnosis where
  tool : String
  items : List String
deriving DecidableEq, Repr

namespace Diagnosis

def numbered (start : Nat) : List String → List String
  | [] => []
  | item :: rest => (" " ++ numeral start ++ ". " ++ item ++ "\n") :: numbered (start + 1) rest

def text (d : Diagnosis) : String :=
  d.tool ++ " doctor found the following issues:\n" ++ String.join (numbered 1 d.items)

/-- The results of several checks together; none if all are healthy. -/
def ofResults (tool : String) (results : List (List String)) : Option Diagnosis :=
  let items := results.flatten
  if items.isEmpty then none else some ⟨tool, items⟩

end Diagnosis

end CacheUpkeep.Doctor
