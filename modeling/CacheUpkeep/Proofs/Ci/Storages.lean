import CacheUpkeep.Ci.Hooks
import CacheUpkeep.Command.Scripted
import CacheUpkeep.Proofs.Lock.Bracket
import CacheUpkeep.Proofs.Prune.Conan
import CacheUpkeep.Proofs.RunnerStorage

/-!
# Prunes of the storage directories

The storage directories are visited in the order of their names, each under its own
lock.  The first command that fails, or the first lock that is not to be had, ends the
prunes; until then all commands of all visited directories are issued.
-/

namespace CacheUpkeep.Ci

open CacheUpkeep.Config CacheUpkeep.FileSystem CacheUpkeep.Prune

variable {ρ : Type} {ctx : Context} {runner : CommandRunner (Machine ρ)} {dryRun : Bool}
  {dir : Path} {dirs : List Path} {m after : Machine ρ} {calls calls' : List Call}
  {result : Except CiError (List Report)}

def storageCommands (ctx : Context) (dryRun : Bool) (dir : Path) : List Command :=
  conanCommands ctx.settings.tools.conan dir ⟨ctx.retention, dryRun⟩

def storageReport (ctx : Context) (dryRun : Bool) (dir : Path) : Report :=
  conanReport ctx.settings.tools.conan dir ⟨ctx.retention, dryRun⟩

structure Visit where
  dir : Path
  file : Nat
  calls : List Call

/-- The calls are for the directory, and under its lock and no other one than those held before. -/
structure IsVisit (ctx : Context) (dryRun : Bool) (held : List Nat) (visit : Visit) : Prop where
  aimed : visit.calls.map Call.command <+: storageCommands ctx dryRun visit.dir
  locked : ∀ call ∈ visit.calls, call.locked = visit.file :: held
  own : ∀ call ∈ visit.calls.head?, Opens call.files (ctx.storage.lockFor visit.dir) visit.file

/-- How the prunes of storage directories end, with the calls that they have issued. -/
inductive Ends (ctx : Context) (dryRun : Bool) (dirs : List Path) (calls : List Call) :
    Except CiError (List Report) → Machine ρ → Prop
  | completes {after : Machine ρ}
      (hissues : Issues (dirs.flatMap (storageCommands ctx dryRun)) calls none) :
      Ends ctx dryRun dirs calls (.ok (dirs.map (storageReport ctx dryRun))) after
  | fails {after : Machine ρ} {e : CommandError}
      (hissues : Issues (dirs.flatMap (storageCommands ctx dryRun)) calls (some e)) :
      Ends ctx dryRun dirs calls (.error (.prune (.command e))) after
  | lockedOut (before : List Path) {rest : List Path} {dir : Path} {state after : Machine ρ}
      {e : LockError}
      (hdirs : dirs = before ++ dir :: rest)
      (hissues : Issues (before.flatMap (storageCommands ctx dryRun)) calls none)
      (hlock : (Lock.acquire (ctx.storage.lockFor dir) ctx.lockWait).outcome state =
        (.error e, after)) :
      Ends ctx dryRun dirs calls (.error (.prune (.lock e))) after

structure AreVisits (ctx : Context) (dryRun : Bool) (dirs : List Path) (m : Machine ρ)
    (visits : List Visit) (result : Except CiError (List Report)) (after : Machine ρ) : Prop where
  inOrder : visits.map Visit.dir <+: dirs
  each : ∀ visit ∈ visits, IsVisit ctx dryRun m.locks.held visit
  ends : Ends ctx dryRun dirs (visits.flatMap Visit.calls) result after
  unlocked : after.locks = m.locks

/-! ## One directory -/

def visitStorage (ctx : Context) (runner : CommandRunner (Machine ρ)) (dryRun : Bool)
    (dir : Path) : Action (Machine ρ) CiError Report :=
  Action.mapError CiError.prune
    (pruneLocked (ConanCache.backend ⟨ctx.settings.tools.conan, some dir⟩ runner)
      (policy ctx dryRun) (ctx.storage.lockFor dir) ctx.lockWait)

theorem visitStorage_cases (hkeeps : runner.KeepsLocks) (ctx : Context) (dryRun : Bool)
    (dir : Path) (m : Machine ρ) :
    (∃ e after, Traced (visitStorage ctx runner dryRun dir)
        (visitStorage ctx runner.recorded dryRun dir) m (.error (.prune (.lock e))) after [] ∧
      (Lock.acquire (ctx.storage.lockFor dir) ctx.lockWait).outcome m = (.error e, after) ∧
      after.locks = m.locks) ∨
    ∃ file calls failure after, Traced (visitStorage ctx runner dryRun dir)
        (visitStorage ctx runner.recorded dryRun dir) m
        (planned (fun e => .prune (.command e)) (storageReport ctx dryRun dir) failure) after
        calls ∧
      Issues (storageCommands ctx dryRun dir) calls failure ∧
      IsVisit ctx dryRun m.locks.held ⟨dir, file, calls⟩ ∧ after.locks = m.locks := by
  rcases Lock.traced_acquire (ctx.storage.lockFor dir) ctx.lockWait m with
    ⟨e, after, hmissed, hlocks⟩ | ⟨file, opened, htaken, hopens, hlocks⟩
  · exact .inl ⟨e, after,
      (Lock.traced_withLock_error PruneError.lock hmissed).mapError_error CiError.prune,
      hmissed.plain, hlocks⟩
  · obtain ⟨calls, failure, after, htraced, hissued⟩ :=
      follows_conanPrune hkeeps ctx.settings.tools.conan dir (policy ctx dryRun) opened
    have hlocked := Lock.traced_withLock_ok PruneError.lock htaken htraced
    refine .inr ⟨file, calls, failure, Lock.release ⟨ctx.storage.lockFor dir, file⟩ after, ?_,
      hissued.issues, ⟨hissued.issues.commands_prefix, ?_, ?_⟩, ?_⟩
    · cases failure with
      | none => exact hlocked.mapError_ok CiError.prune
      | some e => exact hlocked.mapError_error CiError.prune
    · intro call hcall
      rw [hissued.locked call hcall, hlocks]
    · intro call hcall
      rw [hissued.first call hcall]
      exact hopens
    · simp [Lock.release, LockTable.release, hissued.kept, hlocks]

/-! ## All directories -/

theorem pruneStorages_cons (ctx : Context) (runner : CommandRunner (Machine ρ)) (dryRun : Bool)
    (dir : Path) (rest : List Path) :
    pruneStorages ctx runner dryRun (dir :: rest) = (do
      let report ← visitStorage ctx runner dryRun dir
      let reports ← pruneStorages ctx runner dryRun rest
      return report :: reports) := rfl

theorem Ends.cons (hissues : Issues (storageCommands ctx dryRun dir) calls none)
    (h : Ends ctx dryRun dirs calls' result after) :
    Ends ctx dryRun (dir :: dirs) (calls ++ calls')
      (result.map (storageReport ctx dryRun dir :: ·)) after := by
  cases h with
  | completes hrest =>
      exact .completes (by rw [List.flatMap_cons]; exact hissues.append hrest)
  | fails hrest => exact .fails (by rw [List.flatMap_cons]; exact hissues.append hrest)
  | lockedOut before hdirs hrest hlock =>
      refine .lockedOut (dir :: before) (by rw [hdirs, List.cons_append]) ?_ hlock
      rw [List.flatMap_cons]
      exact hissues.append hrest

theorem Ends.commands_prefix (h : Ends ctx dryRun dirs calls result after) :
    calls.map Call.command <+: dirs.flatMap (storageCommands ctx dryRun) := by
  cases h with
  | completes hissues => exact hissues.commands_prefix
  | fails hissues => exact hissues.commands_prefix
  | lockedOut before hdirs hissues hlock =>
      rw [hdirs, List.flatMap_append]
      exact hissues.commands_prefix.trans (List.prefix_append _ _)

theorem Ends.commands_eq {reports : List Report}
    (h : Ends ctx dryRun dirs calls (.ok reports) after) :
    calls.map Call.command = dirs.flatMap (storageCommands ctx dryRun) := by
  cases h with
  | completes hissues => exact hissues.commands_eq

theorem pruneStorages_visits (hkeeps : runner.KeepsLocks) (ctx : Context) (dryRun : Bool)
    (dirs : List Path) (m : Machine ρ) :
    ∃ visits result after, Traced (pruneStorages ctx runner dryRun dirs)
        (pruneStorages ctx runner.recorded dryRun dirs) m result after
        (visits.flatMap Visit.calls) ∧
      AreVisits ctx dryRun dirs m visits result after := by
  induction dirs generalizing m with
  | nil =>
      exact ⟨[], .ok [], m, .pure [] m, ⟨List.prefix_rfl, by simp, .completes .done, rfl⟩⟩
  | cons dir rest ih =>
      rw [pruneStorages_cons, pruneStorages_cons]
      rcases visitStorage_cases hkeeps ctx dryRun dir m with
        ⟨e, after, htraced, hlock, hlocks⟩ |
        ⟨file, calls, failure, after, htraced, hissues, hvisit, hlocks⟩
      · exact ⟨[], _, after, htraced.bind_error, List.nil_prefix, by simp,
          .lockedOut [] rfl .done hlock, hlocks⟩
      · cases failure with
        | some e =>
            refine ⟨[⟨dir, file, calls⟩], .error (.prune (.command e)), after, ?_, ⟨rest, rfl⟩,
              by simpa using hvisit, ?_, hlocks⟩
            · simpa using htraced.bind_error
            · exact .fails (by simpa using hissues.append_fails _)
        | none =>
            obtain ⟨visits, result, last, hrest, hvisits⟩ := ih after
            refine ⟨⟨dir, file, calls⟩ :: visits,
              result.map (storageReport ctx dryRun dir :: ·), last, ?_, ?_, ?_, ?_, ?_⟩
            · rw [List.flatMap_cons]
              refine htraced.bind_ok ?_
              cases result with
              | ok reports =>
                  rw [← List.append_nil (visits.flatMap Visit.calls)]
                  exact hrest.bind_ok (.pure _ last)
              | error e => exact hrest.bind_error
            · exact (List.prefix_cons_inj _).mpr hvisits.inOrder
            · intro visit hvisit'
              rcases List.mem_cons.mp hvisit' with rfl | hmem
              · exact hvisit
              · -- The first visit has given its lock back before the others begin.
                exact hlocks ▸ hvisits.each visit hmem
            · rw [List.flatMap_cons]
              exact hvisits.ends.cons hissues
            · exact hvisits.unlocked.trans hlocks

theorem pruneConanCaches_outcome (hdirs : ctx.storage.discover m.files = .ok dirs)
    (runner : CommandRunner (Machine ρ)) (dryRun : Bool) :
    (pruneConanCaches ctx runner dryRun).outcome m =
      (pruneStorages ctx runner dryRun dirs).outcome m := by
  unfold pruneConanCaches
  refine Action.outcome_bind_ok ?_
  rw [Action.outcome_reading, hdirs]

theorem traced_pruneConanCaches (hdirs : ctx.storage.discover m.files = .ok dirs)
    (h : Traced (pruneStorages ctx runner dryRun dirs)
      (pruneStorages ctx runner.recorded dryRun dirs) m result after calls) :
    Traced (pruneConanCaches ctx runner dryRun) (pruneConanCaches ctx runner.recorded dryRun) m
      result after calls where
  plain := (pruneConanCaches_outcome hdirs runner dryRun).trans h.plain
  recorded log := by
    have hlogged : ctx.storage.discover (m.withLog log).files = .ok dirs := hdirs
    rw [pruneConanCaches_outcome hlogged, h.recorded]

theorem isEmpty_root (ctx : Context) : ctx.storage.root.isEmpty = false :=
  RunnerStorage.isEmpty_root_ofBase ctx.cacheBase

theorem pairwise_lockFor (hfs : m.files.WellFormed)
    (hdirs : ctx.storage.discover m.files = .ok dirs) :
    dirs.Pairwise fun dir other => ctx.storage.lockFor dir ≠ ctx.storage.lockFor other := by
  obtain ⟨names, rfl, hlisted⟩ := RunnerStorage.discover_eq_ok hfs hdirs
  rw [List.pairwise_map]
  refine hlisted.sorted.imp_of_mem fun {name other} hname hother hlt hsame => ?_
  have heq := RunnerStorage.lockFor_injOn (isEmpty_root ctx) (hlisted.named name hname)
    (hlisted.named other hother) hsame
  exact absurd hlt (heq ▸ String.lt_irrefl name)

/--
The Conan caches are pruned in the order of their names, each under its own lock alone, by
the commands of all of them one after the other up to the first one that fails.
-/
theorem pruneConanCaches_trace (hfs : m.files.WellFormed) (hkeeps : runner.KeepsLocks)
    (hdirs : ctx.storage.discover m.files = .ok dirs) (dryRun : Bool) :
    (∃ names, dirs = names.map ctx.storage.root.child ∧
      RunnerStorage.IsListed ctx.storage m.files names) ∧
    (dirs.Pairwise fun dir other => ctx.storage.lockFor dir ≠ ctx.storage.lockFor other) ∧
    ∃ visits result after, Traced (pruneConanCaches ctx runner dryRun)
        (pruneConanCaches ctx runner.recorded dryRun) m result after
        (visits.flatMap Visit.calls) ∧
      AreVisits ctx dryRun dirs m visits result after := by
  obtain ⟨visits, result, after, htraced, hvisits⟩ :=
    pruneStorages_visits hkeeps ctx dryRun dirs m
  exact ⟨RunnerStorage.discover_eq_ok hfs hdirs, pairwise_lockFor hfs hdirs, visits, result, after,
    traced_pruneConanCaches hdirs htraced, hvisits⟩

namespace Sample

def files : FileSystem :=
  ⟨[(["cache"], .directory), (["cache", "conan2"], .directory),
    (["cache", "conan2", "a"], .directory), (["cache", "conan2", "b"], .directory)], 0, []⟩

def script : CommandScript :=
  CommandScript.empty.respond
    "conan remove * -c --lru=2w --core-conf=core.cache:storage_path=cache/conan2/b"
    (.failure 1 "locked")

def machine : Machine CommandScript :=
  ⟨files, LockTable.empty, ⟨0, 0, 0⟩, script⟩

def conan : CommandRunner (Machine CommandScript) :=
  CommandScript.runner.within Machine.runner fun script m => { m with runner := script }

def context : Context where
  settings := { Settings.standard with cacheBase := some ⟨["cache"]⟩ }
  env := ⟨.linux, ⟨["home"]⟩, ⟨["work"]⟩, none, none, none⟩

def groups : List Path :=
  [⟨["cache", "conan2", "a"]⟩, ⟨["cache", "conan2", "b"]⟩]

theorem discover_files : context.storage.discover files = .ok groups := by
  have hlist : files.list context.storage.root = .ok ["a", "b"] := by decide
  exact RunnerStorage.discover_of_sorted hlist (by decide) (by decide)

def signalMachine : Machine CommandScript :=
  { machine with
    runner := CommandScript.empty.respond
      "conan remove *:* -c --lru=2w --core-conf=core.cache:storage_path=cache/conan2/a"
      ⟨none, "", "killed"⟩ }

def bareMachine : Machine CommandScript :=
  { machine with runner := CommandScript.empty.markMissing "conan" }

def twoDays : RetentionWindow :=
  { RetentionWindow.standard with unit := .days }

def dayContext : Context :=
  { context with settings := { context.settings with retention := twoDays } }

/-- The conditions for a trace of the prunes of both directories, the trace, and its lines. -/
structure IsTraced (ctx : Context) (dryRun : Bool) (m : Machine CommandScript)
    (result : Except CiError (List Report)) (lines : List String) : Prop where
  conditions : m.files.WellFormed ∧ conan.KeepsLocks ∧ ctx.storage.discover m.files = .ok groups
  trace : ∃ visits after, Traced (pruneConanCaches ctx conan dryRun)
      (pruneConanCaches ctx conan.recorded dryRun) m result after
      (visits.flatMap Visit.calls) ∧
    AreVisits ctx dryRun groups m visits result after ∧
    (visits.flatMap Visit.calls).map (fun call => call.command.line) = lines

def recordedRun (ctx : Context) (dryRun : Bool) (m : Machine CommandScript) :
    Except CiError (List Report) × List String :=
  let (result, after) := (pruneStorages ctx conan.recorded dryRun groups).outcome (m.withLog [])
  (result, after.runner.2.map fun call => call.command.line)

theorem recordedRun_of_traced {ctx : Context} {dryRun : Bool} {m after : Machine CommandScript}
    {result : Except CiError (List Report)} {calls : List Call}
    (hdirs : ctx.storage.discover m.files = .ok groups)
    (h : Traced (pruneConanCaches ctx conan dryRun) (pruneConanCaches ctx conan.recorded dryRun)
      m result after calls) :
    recordedRun ctx dryRun m = (result, calls.map fun call => call.command.line) := by
  have hlogged : ctx.storage.discover (m.withLog []).files = .ok groups := hdirs
  have hrecorded := h.recorded []
  rw [pruneConanCaches_outcome hlogged, List.nil_append] at hrecorded
  rw [recordedRun, hrecorded]
  rfl

end Sample

/-- Runs that end by an exit code, by a signal and for want of a program, and a dry run. -/
theorem pruneConanCaches_trace_sample :
    Sample.IsTraced Sample.context false Sample.machine
      (.error (.prune (.command (.failed
        "conan remove * -c --lru=2w --core-conf=core.cache:storage_path=cache/conan2/b" (some 1)
        "locked"))))
      ["conan cache clean * --core-conf=core.cache:storage_path=cache/conan2/a",
        "conan remove *:* -c --lru=2w --core-conf=core.cache:storage_path=cache/conan2/a",
        "conan remove * -c --lru=2w --core-conf=core.cache:storage_path=cache/conan2/a",
        "conan cache clean * --core-conf=core.cache:storage_path=cache/conan2/b",
        "conan remove *:* -c --lru=2w --core-conf=core.cache:storage_path=cache/conan2/b",
        "conan remove * -c --lru=2w --core-conf=core.cache:storage_path=cache/conan2/b"] ∧
    Sample.IsTraced Sample.context false Sample.signalMachine
      (.error (.prune (.command (.failed
        "conan remove *:* -c --lru=2w --core-conf=core.cache:storage_path=cache/conan2/a" none
        "killed"))))
      ["conan cache clean * --core-conf=core.cache:storage_path=cache/conan2/a",
        "conan remove *:* -c --lru=2w --core-conf=core.cache:storage_path=cache/conan2/a"] ∧
    Sample.IsTraced Sample.context false Sample.bareMachine
      (.error (.prune (.command (.notFound "conan"))))
      ["conan cache clean * --core-conf=core.cache:storage_path=cache/conan2/a"] ∧
    Sample.IsTraced Sample.dayContext true Sample.machine
      (.ok (Sample.groups.map (storageReport Sample.dayContext true)))
      ["conan remove *:* -c --lru=2d --dry-run --core-conf=core.cache:storage_path=cache/conan2/a",
        "conan remove * -c --lru=2d --dry-run --core-conf=core.cache:storage_path=cache/conan2/a",
        "conan remove *:* -c --lru=2d --dry-run --core-conf=core.cache:storage_path=cache/conan2/b",
        "conan remove * -c --lru=2d --dry-run --core-conf=core.cache:storage_path=cache/conan2/b"
      ] := by
  have htraced : ∀ ctx dryRun m result lines, m.files = Sample.files →
      ctx.storage = Sample.context.storage →
      Sample.recordedRun ctx dryRun m = (result, lines) →
      Sample.IsTraced ctx dryRun m result lines := by
    intro ctx dryRun m result lines hfiles hstorage hrun
    have hfs : m.files.WellFormed := by
      rw [hfiles]
      decide
    have hkeeps : Sample.conan.KeepsLocks := CommandRunner.keepsLocks_within _
    have hdirs : ctx.storage.discover m.files = .ok Sample.groups := by
      rw [hfiles, hstorage, Sample.discover_files]
    obtain ⟨-, -, visits, found, after, htraced, hvisits⟩ :=
      pruneConanCaches_trace hfs hkeeps hdirs dryRun
    have hrecorded := Sample.recordedRun_of_traced hdirs htraced
    rw [hrun] at hrecorded
    cases hrecorded
    exact ⟨⟨hfs, hkeeps, hdirs⟩, visits, after, htraced, hvisits, rfl⟩
  refine ⟨htraced _ _ _ _ _ rfl rfl ?_, htraced _ _ _ _ _ rfl rfl ?_,
    htraced _ _ _ _ _ rfl rfl ?_, htraced _ _ _ _ _ rfl rfl ?_⟩ <;> decide +kernel

/-! ## Directories that the prunes pass over -/

namespace Sample

/-- The storage directory of the runner `a/b` lies in the one of the runner `a`. -/
def nestedMachine : Machine CommandScript :=
  ⟨⟨[(["cache"], .directory), (["cache", "conan2"], .directory),
    (["cache", "conan2", "a"], .directory), (["cache", "conan2", "a", "b"], .directory)], 0, []⟩,
    LockTable.empty, ⟨0, 0, 0⟩, CommandScript.empty⟩

theorem discover_nestedMachine :
    context.storage.discover nestedMachine.files = .ok [⟨["cache", "conan2", "a"]⟩] := by
  have hlist : nestedMachine.files.list context.storage.root = .ok ["a"] := by decide
  exact RunnerStorage.discover_of_sorted hlist (by decide) (by decide)

end Sample

/--
There are no commands for a storage directory that lies in another one, and the lock and the
commands of a directory whose name is not UTF-8 are those of another one as well.
-/
theorem pruneConanCaches_passes_over :
    (Sample.nestedMachine.files.isDirectory (Sample.context.storage.storageFor "a/b") = true ∧
      let run := (pruneConanCaches Sample.context Sample.conan false).outcome Sample.nestedMachine
      run.1 = .ok [storageReport Sample.context false ⟨["cache", "conan2", "a"]⟩] ∧
      run.2.runner.calls =
        (storageCommands Sample.context false ⟨["cache", "conan2", "a"]⟩).map Command.line) ∧
    ∀ name ∈ [(⟨#[0x61, 0xFF]⟩ : ByteArray), ⟨#[0x61, 0xFE]⟩],
      RunnerStorage.lockName name = "a\uFFFD.lock" ∧
        storageOption ("cache/conan2/".toUTF8 ++ name) =
          "--core-conf=core.cache:storage_path=cache/conan2/a\uFFFD" := by
  refine ⟨⟨by decide, ?_⟩, by decide +kernel⟩
  rw [pruneConanCaches_outcome Sample.discover_nestedMachine]
  decide +kernel

end CacheUpkeep.Ci
