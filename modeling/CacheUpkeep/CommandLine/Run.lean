import CacheUpkeep.Ci.Hooks
import CacheUpkeep.Command.Host
import CacheUpkeep.CommandLine.Arguments
import CacheUpkeep.CommandLine.LogFilter
import CacheUpkeep.CommandLine.LogText
import CacheUpkeep.Config.Effective
import CacheUpkeep.Doctor.Checks
import CacheUpkeep.Doctor.Project

/-!
# Running the command line

Loads the configuration, runs one subcommand on a machine and says what it
prints and how it ends.
-/

namespace CacheUpkeep.CommandLine

open CacheUpkeep.Calendar CacheUpkeep.Config CacheUpkeep.Text

variable {ρ : Type}

def toolName : String := "cache-warden"

def toolVersion : String := "0.1.0"

inductive Display where
  | lines (texts : List String)
  | capacity (table : Capacity.Table)
  | configuration (c : EffectiveConfig)

/-- Why a subcommand fails; the issues of the environment are a failure too. -/
inductive Failure where
  | missingConfig (path : Path)
  | config (e : ConfigError)
  | ci (e : CiError)
  | issues (items : List Doctor.Issue)

def Display.text : Display → String
  | .lines texts => String.join (texts.map (· ++ "\n"))
  | .capacity table => table.text ++ "\n"
  | .configuration c => c.text ++ "\n"

/-- The text of a failure that is logged; issues are printed instead. -/
def Failure.message? : Failure → Option String
  | .missingConfig path => some ("config file not found: " ++ path.text)
  | .config e => some e.message
  | .ci e => some e.message
  | .issues _ => none

/-! ## Configuration -/

def homeDirectory (vars : Variables) : Path :=
  ((nonEmpty? vars "HOME").map Path.ofString).getD (Path.ofString ".")

def configDirectory (vars : Variables) : Path :=
  match (vars.lookup "XDG_CONFIG_HOME").map Path.ofString with
  | some dir => if dir.isAbsolute then dir else (homeDirectory vars).child ".config"
  | none => (homeDirectory vars).child ".config"

def hostConfig (vars : Variables) : Path :=
  ((configDirectory vars).child toolName).child "config.toml"

def workingDirectory (fs : FileSystem) : Path :=
  ⟨"" :: if fs.here.isEmpty then [""] else fs.here⟩

def environmentOf (vars : Variables) (fs : FileSystem) : Environment :=
  .ofVariables .linux (homeDirectory vars) (workingDirectory fs) vars

/-- The layer of the options, if any of them sets a value. -/
def optionLayer (o : Options) : Option Json :=
  let members :=
    (o.lockTimeout.map fun n => ("lock_timeout_seconds", Json.natural n)).toList ++
      (o.retention.map fun w => ("retention", Json.string w.text)).toList
  if members.isEmpty then none else some (.object members)

/-- A file that is asked for must exist; otherwise the nearest project file is taken. -/
def projectConfig (o : Options) (vars : Variables) (fs : FileSystem) :
    Except Failure (Option Path) :=
  match o.config <|> (nonEmpty? vars "CACHE_WARDEN_CONFIG").map Path.ofString with
  | some path => if fs.isFile path then .ok (some path) else .error (.missingConfig path)
  | none => .ok (Doctor.findProjectFile fs (workingDirectory fs))

def loadConfig (o : Options) (vars : Variables) (now : Instant) (fs : FileSystem) :
    Except Failure EffectiveConfig := do
  let project ← projectConfig o vars fs
  match EffectiveConfig.build fs (some (hostConfig vars)) project (optionLayer o) now with
  | .ok c => .ok c
  | .error e => .error (.config e)

/-! ## Subcommands -/

def reportLines (r : Prune.Report) : List String :=
  r.text :: r.removed.map ("  " ++ ·)

/-- The issues of the project, of git and of the login to Conan, in this order. -/
def findIssues (ctx : Context) (runner : CommandRunner (Machine ρ)) :
    StateM (Machine ρ) (List Doctor.Issue) := do
  let project := Doctor.selfCheck (← get).files ctx.env.workingDir toolVersion
  let git ← Doctor.git runner
  let conan ← Doctor.conanLogin runner ctx.settings.tools.conan ctx.settings.doctor.remote
  return project ++ git ++ conan

def doctor (ctx : Context) (runner : CommandRunner (Machine ρ)) :
    Action (Machine ρ) Failure Display := do
  let issues ← ExceptT.lift (findIssues ctx runner)
  if issues.isEmpty then return .lines ["No issues found"]
  else throw (.issues issues)

def perform (ctx : Context) (c : EffectiveConfig) (runner : CommandRunner (Machine ρ))
    (now : Instant) : Subcommand → Action (Machine ρ) Failure Display
  | .doctor => doctor ctx runner
  | .configureCachePath => do
      let storage ← Action.mapError Failure.ci (Machine.onFiles (Ci.configureStorage ctx))
      return .lines (storage.toList.map fun p => "Conan cache path: " ++ p.text)
  | .ctcacheInfo => do
      let count ← Action.mapError Failure.ci
        (Action.reading fun m => Ci.ctcacheCount ctx m.files)
      return .lines
        ["Found " ++ numeral count ++ " cache entries in " ++ ctx.ctcacheDir.text]
  | .ctcachePrune dryRun => do
      let report ← Action.mapError Failure.ci (Ci.pruneCtcache ctx runner dryRun)
      return .lines (reportLines report)
  | .ctcacheUnlock => do
      let _ ← Action.mapError Failure.ci (Machine.onFiles (Ci.unlockCtcache ctx))
      return .lines []
  | .ciPre => .capacity <$> Action.mapError Failure.ci (Ci.beforeJob ctx runner)
  | .ciPost => .capacity <$> Action.mapError Failure.ci (Ci.afterJob ctx)
  | .ciPruneConanCache dryRun => do
      let reports ← Action.mapError Failure.ci (Ci.pruneConanCaches ctx runner dryRun)
      return .lines (reports.flatMap reportLines)
  | .pruneDir root dryRun => do
      let report ← Action.mapError Failure.ci (Ci.pruneDirectory ctx root now dryRun)
      return .lines (reportLines report)
  | .diskUsage paths =>
      Action.reading fun m => .ok (.capacity (Capacity.report m.files m.volume paths))
  | .showConfig => return .configuration c

def run (args : Arguments) (vars : Variables) (now : Instant) :
    Action (Machine ρ) Failure Display := do
  let c ← Action.reading fun m => loadConfig args.options vars now m.files
  let settings ← Action.reading fun _ => c.settings.mapError Failure.config
  let env ← Action.reading fun m => .ok (environmentOf vars m.files)
  let runner := (Host.runner ⟨vars⟩).within Machine.files fun files m => { m with files }
  perform ⟨settings, env⟩ c runner now args.subcommand

/-- The filter of the log; `none` if its text is torn. -/
def logFilter? (o : Options) (vars : Variables) : Option LogFilter :=
  LogFilter.ofSources o.logLevel (vars.lookup "CACHE_WARDEN_LOG")

def logsErrors (filter : LogFilter) : Bool :=
  filter.passes "cache_warden" ["message"] .error

def diagnosis (issues : List String) : String :=
  Doctor.Diagnosis.text ⟨toolName, issues⟩

/-! ## Endings -/

structure Ending where
  stdout : String
  logged : Option String
  code : Nat
deriving DecidableEq, Repr

def helpText : String :=
  "Usage: " ++ toolName ++ " [OPTIONS] <COMMAND>\n"

def Refusal.ending : Refusal → Ending
  | .help => ⟨helpText, none, 0⟩
  | .version => ⟨toolName ++ " " ++ toolVersion ++ "\n", none, 0⟩
  | .usage => ⟨"", none, 2⟩

/-- The tool breaks down before it does anything if its log filter is torn. -/
def breakdown : Ending :=
  ⟨"", none, 101⟩

def endingOf (filter : LogFilter) : Except Failure Display → Ending
  | .ok display => ⟨display.text, none, 0⟩
  | .error (.issues issues) => ⟨diagnosis (issues.map Doctor.Issue.message), none, 1⟩
  | .error failure =>
      ⟨"", if logsErrors filter then failure.message?.map loggedText else none, 1⟩

/-- The whole tool: arguments, variables and a machine to an ending. -/
def tool (texts : List String) (vars : Variables) (now : Instant) (m : Machine ρ) :
    Ending × Machine ρ :=
  match Arguments.read texts with
  | .error refusal => (refusal.ending, m)
  | .ok args =>
      match logFilter? args.options vars with
      | none => (breakdown, m)
      | some filter =>
          let (r, m) := (run args vars now).outcome m
          (endingOf filter r, m)

end CacheUpkeep.CommandLine
