import CacheUpkeep.Config.Settings
import CacheUpkeep.Platform
import CacheUpkeep.RunnerStorage

/-!
# Context of a run

The settings together with what the environment says.  A setting wins over an
environment variable, and that over the place in the home directory.
-/

namespace CacheUpkeep.Config

abbrev Variables := List (String × String)

def nonEmpty? (vars : Variables) (name : String) : Option String :=
  match vars.lookup name with
  | some value => if value = "" then none else some value
  | none => none

structure Environment where
  platform : Platform
  home : Path
  workingDir : Path
  runnerName : Option String
  ctcacheDir : Option Path
  conanHome : Option Path
deriving DecidableEq, Repr

def Environment.ofVariables (platform : Platform) (home workingDir : Path)
    (vars : Variables) : Environment where
  platform := platform
  home := home
  workingDir := workingDir
  runnerName := nonEmpty? vars "RUNNER_NAME"
  ctcacheDir := (nonEmpty? vars "CLANG_TIDY_CACHE_DIR").map Path.ofString
  conanHome := (nonEmpty? vars "CONAN_HOME").map Path.ofString

structure Context where
  settings : Settings
  env : Environment
deriving DecidableEq, Repr

namespace Context

def cacheBase (ctx : Context) : Path :=
  ctx.settings.cacheBase.getD (ctx.env.platform.cacheBase ctx.env.home)

def storage (ctx : Context) : RunnerStorage :=
  .ofBase ctx.cacheBase

def ctcacheDir (ctx : Context) : Path :=
  (ctx.settings.ctcacheDir.or ctx.env.ctcacheDir).getD (ctx.env.home.child ".ctcache")

def ctcacheLock (ctx : Context) : Path :=
  ctx.ctcacheDir.child "prune.lock"

def conanHome (ctx : Context) : Path :=
  (ctx.settings.conanHome.or ctx.env.conanHome).getD (ctx.env.home.child ".conan2")

def conanConf (ctx : Context) : Path :=
  ctx.conanHome.child "global.conf"

def lockWait (ctx : Context) : LockWait :=
  ctx.settings.lockWait

def retention (ctx : Context) : RetentionWindow :=
  ctx.settings.retention

def reportPaths (ctx : Context) : List Path :=
  match ctx.env.platform with
  | .macOs => [Path.ofString "."]
  | _ => [Path.ofString ".", ctx.cacheBase]

end Context

end CacheUpkeep.Config
