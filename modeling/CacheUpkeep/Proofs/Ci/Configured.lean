import CacheUpkeep.Proofs.Ci.Storages
import CacheUpkeep.Proofs.ConanConf.Update
import CacheUpkeep.Proofs.RunnerStorage.Discovery

/-!
# The configured storage directory

The directory that a machine is configured to use is pruned with those of the other
groups exactly if it is an entry of the root.  Nothing else is asked of the name of a
runner, so that the directory can be the root itself, lie deeper, or lie elsewhere.
-/

namespace CacheUpkeep.Ci

open CacheUpkeep.Config CacheUpkeep.FileSystem CacheUpkeep.Path CacheUpkeep.Prune

variable {ρ : Type} {ctx : Context} {runner : CommandRunner (Machine ρ)} {dryRun : Bool}
  {storage : Path} {dirs : List Path} {m : Machine ρ} {fs after : FileSystem} {name : String}

theorem configureStorage_eq_ok
    (h : (configureStorage ctx).outcome fs = (.ok (some storage), after)) :
    ∃ name, ctx.env.runnerName = some name ∧ storage = ctx.storage.storageFor name ∧
      (ConanConf.update ctx.conanConf [(storageKey, storage.text)]).outcome fs =
        (.ok (), after) := by
  unfold configureStorage at h
  split at h
  · cases h
  · cases hname : ctx.env.runnerName with
    | none =>
        rw [hname] at h
        cases h
    | some name =>
        rw [hname] at h
        obtain ⟨_, last, hupdate, hlast⟩ := Action.outcome_bind_eq_ok h
        cases hlast
        exact ⟨name, rfl, rfl, Action.outcome_mapError_eq_ok hupdate⟩

theorem configureStorage_of_update (hplatform : ctx.env.platform ≠ .macOs)
    (hname : ctx.env.runnerName = some name)
    (hupdate : (ConanConf.update ctx.conanConf
      [(storageKey, (ctx.storage.storageFor name).text)]).outcome fs = (.ok (), after)) :
    (configureStorage ctx).outcome fs = (.ok (some (ctx.storage.storageFor name)), after) := by
  unfold configureStorage
  rw [if_neg hplatform, hname]
  exact Action.outcome_bind_ok (Action.outcome_mapError_ok hupdate)

/--
The configured directory is found exactly if its path leads the same way as an entry of the
root, which a relative group does by one turn down.  A prune issues the commands of the
directories that are found, in their order, and those of all of them if it succeeds.
-/
theorem discovers_configured_iff
    (hconf : (configureStorage ctx).outcome fs = (.ok (some storage), after))
    (hfs : m.files.WellFormed) (hstorage : m.files.isDirectory storage = true)
    (hkeeps : runner.KeepsLocks) (dryRun : Bool) :
    (ctx.storage.Discovers m.files storage ↔ ∃ entry, ctx.storage.IsEntry storage entry) ∧
    (∃ name, ctx.env.runnerName = some name ∧
      ((ofString (runnerGroup name)).isAbsolute = false →
        ((∃ entry, ctx.storage.IsEntry storage entry) ↔
          ∃ entry, (ofString (runnerGroup name)).turns = [.down entry]))) ∧
    ∀ dirs, ctx.storage.discover m.files = .ok dirs →
      ∃ calls result last, Traced (pruneConanCaches ctx runner dryRun)
          (pruneConanCaches ctx runner.recorded dryRun) m result last calls ∧
        calls.map Call.command <+: dirs.flatMap (storageCommands ctx dryRun) ∧
        ∀ reports, result = .ok reports →
          calls.map Call.command = dirs.flatMap (storageCommands ctx dryRun) := by
  have hroot := isEmpty_root ctx
  obtain ⟨name, hname, rfl, -⟩ := configureStorage_eq_ok hconf
  refine ⟨RunnerStorage.discovers_iff hroot hfs hstorage, ⟨name, hname, fun hgroup =>
    RunnerStorage.exists_isEntry_iff hroot hgroup hstorage⟩, fun dirs hdirs => ?_⟩
  obtain ⟨visits, result, last, htraced, hvisits⟩ := pruneStorages_visits hkeeps ctx dryRun dirs m
  refine ⟨_, result, last, traced_pruneConanCaches hdirs htraced, ?_, ?_⟩
  · exact hvisits.ends.commands_prefix
  · rintro reports rfl
    exact hvisits.ends.commands_eq

namespace Sample

def contextOf (name : String) : Context :=
  { context with env := { context.env with runnerName := some name } }

def home : FileSystem :=
  ⟨[(["home"], .directory), (["home", ".conan2"], .directory),
    (["home", ".conan2", "global.conf"], .file 0 "".toUTF8 false)], 1, []⟩

theorem configureStorage_home (name : String) :
    ∃ after, (configureStorage (contextOf name)).outcome home =
      (.ok (some ((contextOf name).storage.storageFor name)), after) := by
  have hfind : home.find true (contextOf name).conanConf =
      .ok (["home", ".conan2", "global.conf"], .file 0 "".toUTF8 false) := rfl
  have hread : home.readText (contextOf name).conanConf = .ok "" :=
    (readText_of_file hfind).trans (by rw [fromUTF8?_toUTF8])
  obtain ⟨after, hupdate⟩ := ConanConf.update_of_readText hread _
  exact ⟨after, configureStorage_of_update (by simp [contextOf, context]) rfl hupdate⟩

end Sample

/-- The directory of a marked name is found, but the one of a name without a base is the root. -/
theorem discovers_configured_iff_sample :
    (Sample.machine.files.WellFormed ∧ Sample.conan.KeepsLocks) ∧
    ((∃ after, (configureStorage (Sample.contextOf "a-i-1")).outcome Sample.home =
        (.ok (some ⟨["cache", "conan2", "a"]⟩), after)) ∧
      Sample.machine.files.isDirectory ⟨["cache", "conan2", "a"]⟩ = true ∧
      (Sample.contextOf "a-i-1").storage.Discovers Sample.machine.files
        ⟨["cache", "conan2", "a"]⟩) ∧
    (∃ after, (configureStorage (Sample.contextOf "-i-1")).outcome Sample.home =
        (.ok (some ⟨["cache", "conan2", ""]⟩), after)) ∧
      Sample.machine.files.isDirectory ⟨["cache", "conan2", ""]⟩ = true ∧
      ¬ (Sample.contextOf "-i-1").storage.Discovers Sample.machine.files
        ⟨["cache", "conan2", ""]⟩ := by
  have hfs : Sample.machine.files.WellFormed := by decide
  have hkeeps : Sample.conan.KeepsLocks := CommandRunner.keepsLocks_within _
  obtain ⟨after, hconf⟩ := Sample.configureStorage_home "a-i-1"
  obtain ⟨after', hconf'⟩ := Sample.configureStorage_home "-i-1"
  have hstorage : Sample.machine.files.isDirectory ⟨["cache", "conan2", "a"]⟩ = true := by decide
  have hroot : Sample.machine.files.isDirectory ⟨["cache", "conan2", ""]⟩ = true := by decide
  refine ⟨⟨hfs, hkeeps⟩, ⟨⟨after, hconf⟩, hstorage, ?_⟩, ⟨after', hconf'⟩, hroot, ?_⟩
  · obtain ⟨hfound, ⟨name, hname, hturns⟩, -⟩ :=
      discovers_configured_iff hconf hfs hstorage hkeeps false
    cases hname
    exact hfound.mpr ((hturns (by decide)).mpr ⟨"a", by decide⟩)
  · obtain ⟨hfound, ⟨name, hname, hturns⟩, -⟩ :=
      discovers_configured_iff hconf' hfs hroot hkeeps false
    cases hname
    intro h
    obtain ⟨entry, hentry⟩ := (hturns (by decide)).mp (hfound.mp h)
    have hnone : (ofString (runnerGroup "-i-1")).turns = [] := by decide
    rw [hnone] at hentry
    cases hentry

end CacheUpkeep.Ci
