import CacheUpkeep.Proofs.Ci.Storages
import CacheUpkeep.Proofs.Lock.Free
import CacheUpkeep.Proofs.RunnerStorage.Discovery

/-!
# Locks that clash with storage directories

The lock of a storage directory stands beside it, under its name with `.lock` at the end.
No two directories have one lock, but another directory can have the name of the lock, which
then can not be opened.  That aside all locks can be taken one after the other.
-/

namespace CacheUpkeep.Ci

open CacheUpkeep.Config CacheUpkeep.FileSystem CacheUpkeep.Path CacheUpkeep.Prune

variable {ρ : Type} {ctx : Context} {runner : CommandRunner (Machine ρ)} {dryRun : Bool}
  {dirs : List Path} {m : Machine ρ} {names lockNames : List String} {name : String}

theorem visitStorage_areFree (hkeeps : runner.KeepsLocks)
    (hentries : runner.KeepsEntries ctx.storage.root)
    (hfree : AreFree m.files m.locks.held ctx.storage.root lockNames) (dryRun : Bool)
    (hname : IsName name) (hlock : name ++ ".lock" ∈ lockNames) :
    (∀ e, ((visitStorage ctx runner dryRun (ctx.storage.root.child name)).outcome m).1 ≠
      .error (.prune (.lock e))) ∧
    AreFree ((visitStorage ctx runner dryRun (ctx.storage.root.child name)).outcome m).2.files
      ((visitStorage ctx runner dryRun (ctx.storage.root.child name)).outcome m).2.locks.held
      ctx.storage.root lockNames := by
  have hroot := isEmpty_root ctx
  obtain ⟨lock, opened, hacquire, -, hopened⟩ :=
    Lock.acquire_of_areFree hfree hlock ctx.lockWait
  rw [← RunnerStorage.lockFor_child hroot hname] at hacquire
  -- Free is what was not held before the visit, so that the lock of the visit itself stays free.
  have hbody : Action.Preserves
      (fun m' => AreFree m'.files m.locks.held ctx.storage.root lockNames)
      (prune (ConanCache.backend ⟨ctx.settings.tools.conan, some (ctx.storage.root.child name)⟩
        runner) (policy ctx dryRun)) :=
    preserves_conanPrune (fun c m' hm' => hm'.of_sameEntries (hentries c m')) _ _
  rcases visitStorage_cases hkeeps ctx dryRun (ctx.storage.root.child name) m with
    ⟨e, after, -, hmissed, -⟩ | ⟨file, calls, failure, after, htraced, -, -, hlocks⟩
  · rw [hacquire] at hmissed
    cases hmissed
  · have houtcome := htraced.plain
    have hfiles : AreFree ((visitStorage ctx runner dryRun
        (ctx.storage.root.child name)).outcome m).2.files m.locks.held ctx.storage.root
        lockNames := by
      rw [visitStorage, Action.outcome_mapError_snd, pruneLocked, Lock.withLock_outcome hacquire]
      exact hbody opened hopened
    rw [houtcome] at hfiles ⊢
    refine ⟨fun e heq => ?_, hlocks ▸ hfiles⟩
    cases failure with
    | none => cases heq
    | some e => cases heq

theorem pruneStorages_areFree (hkeeps : runner.KeepsLocks)
    (hentries : runner.KeepsEntries ctx.storage.root)
    (hfree : AreFree m.files m.locks.held ctx.storage.root lockNames)
    (hnames : ∀ name ∈ names, IsName name ∧ name ++ ".lock" ∈ lockNames) (e : LockError) :
    ((pruneStorages ctx runner dryRun (names.map ctx.storage.root.child)).outcome m).1 ≠
      .error (.prune (.lock e)) := by
  induction names generalizing m with
  | nil => exact nofun
  | cons name rest ih =>
      obtain ⟨hname, hlock⟩ := hnames name List.mem_cons_self
      obtain ⟨hresult, hafter⟩ := visitStorage_areFree hkeeps hentries hfree dryRun hname hlock
      rw [List.map_cons, pruneStorages_cons]
      cases hvisit : (visitStorage ctx runner dryRun (ctx.storage.root.child name)).outcome m with
      | mk result after =>
          rw [hvisit] at hresult hafter
          cases result with
          | error e' =>
              rw [Action.outcome_bind_error hvisit]
              exact fun heq => hresult e (congrArg _ (Except.error.inj heq))
          | ok report =>
              rw [Action.outcome_bind_ok hvisit]
              have hrest := ih hafter fun name hmem => hnames name (List.mem_cons_of_mem _ hmem)
              rw [Action.outcome_bind_pure_fst]
              exact fun heq => hrest (map_eq_error heq)

structure HasDirectory (root : Path) (name : String) (m : Machine ρ) : Prop where
  isThere : ∃ dir, m.files.directoryAt? root = some dir
  entry : m.files.isDirectory (root.child name) = true

theorem HasDirectory.of_accrues {root : Path} (h : HasDirectory root name m) {after : Machine ρ}
    (haccrues : Accrues m.files after.files) : HasDirectory root name after where
  isThere := by
    obtain ⟨dir, hdir⟩ := h.isThere
    exact ⟨dir, directoryAt?_mono haccrues.keeps hdir⟩
  entry := by
    obtain ⟨dir, hdir⟩ := isDirectory_iff.mp h.entry
    exact isDirectory_iff.mpr ⟨dir, directoryAt?_mono haccrues.keeps hdir⟩

theorem HasDirectory.of_sameEntries {root : Path} (h : HasDirectory root name m)
    (hname : IsName name) {after : Machine ρ} (hsame : SameEntries root m.files after.files) :
    HasDirectory root name after := by
  obtain ⟨dir, hdir⟩ := h.isThere
  have hslash := endsWithSlash_child (directoryAt?_walk hdir).1.2.1 hname
  refine ⟨⟨dir, hsame.directoryAt?.trans hdir⟩, ?_⟩
  rw [isDirectory_iff_place hslash, hsame.place name hname, ← isDirectory_iff_place hslash]
  exact h.entry

theorem preserves_visitStorage {root : Path} (hentries : runner.KeepsEntries root)
    (hname : IsName name) (ctx : Context) (dryRun : Bool) (dir : Path) :
    Action.Preserves (HasDirectory root name) (visitStorage ctx runner dryRun dir) := by
  have hacquire : Action.Preserves (HasDirectory (ρ := ρ) root name)
      (Lock.acquire (ctx.storage.lockFor dir) ctx.lockWait) := fun m hm =>
    hm.of_accrues (Lock.acquire_accrues _ _ m)
  have hbody := preserves_conanPrune (K := HasDirectory root name)
    (fun c m hm => hm.of_sameEntries hname (hentries c m))
    ⟨ctx.settings.tools.conan, some dir⟩ (policy ctx dryRun)
  have hrelease : ∀ lock (m : Machine ρ), HasDirectory root name m →
      HasDirectory root name (Lock.release lock m) := fun _ _ hm => ⟨hm.isThere, hm.entry⟩
  have hlocked := (hacquire.mapError PruneError.lock).bind fun lock =>
    hbody.thenAlways (hrelease lock)
  exact hlocked.mapError CiError.prune

theorem visitStorage_of_clash (hname : IsName name)
    (hlock : HasDirectory ctx.storage.root (name ++ ".lock") m) :
    (visitStorage ctx runner dryRun (ctx.storage.root.child name)).outcome m =
      (.error (.prune (.lock (.io (ctx.storage.lockFor (ctx.storage.root.child name))
        .isDirectory))), m) := by
  have hroot := isEmpty_root ctx
  obtain ⟨dir, hdir⟩ := hlock.isThere
  have hmissed := Lock.acquire_of_isDirectory hdir (RunnerStorage.isName_lock hname) hlock.entry
    ctx.lockWait
  rw [← RunnerStorage.lockFor_child hroot hname] at hmissed
  exact Action.outcome_mapError_error (Action.outcome_bind_error
    (Action.outcome_mapError_error hmissed))

theorem pruneStorages_of_clash (hentries : runner.KeepsEntries ctx.storage.root)
    (hname : IsName name) (hmem : name ∈ names)
    (hlock : HasDirectory ctx.storage.root (name ++ ".lock") m) (reports : List Report) :
    ((pruneStorages ctx runner dryRun (names.map ctx.storage.root.child)).outcome m).1 ≠
      .ok reports := by
  induction names generalizing m reports with
  | nil => cases hmem
  | cons first rest ih =>
      rw [List.map_cons, pruneStorages_cons]
      cases hvisit : (visitStorage ctx runner dryRun
          (ctx.storage.root.child first)).outcome m with
      | mk result after =>
          cases result with
          | error e =>
              rw [Action.outcome_bind_error hvisit]
              exact nofun
          | ok report =>
              rw [Action.outcome_bind_ok hvisit, Action.outcome_bind_pure_fst]
              rcases List.mem_cons.mp hmem with rfl | hmem
              · rw [visitStorage_of_clash hname hlock] at hvisit
                cases hvisit
              · have hafter := preserves_visitStorage hentries
                  (RunnerStorage.isName_lock hname) ctx dryRun
                  (ctx.storage.root.child first) m hlock
                rw [hvisit] at hafter
                intro heq
                obtain ⟨others, hothers, -⟩ := map_eq_ok heq
                exact ih hmem hafter others hothers

/-! ## All directories that are found -/

theorem leadsToFree_lock_iff (hfs : m.files.WellFormed)
    (hlisted : RunnerStorage.IsListed ctx.storage m.files names) (hname : IsName name)
    (hfree : ∀ id, Opens m.files (ctx.storage.lockFor (ctx.storage.root.child name)) id →
      id ∉ m.locks.held) :
    LeadsToFree m.files m.locks.held (ctx.storage.lockFor (ctx.storage.root.child name)) ↔
      name ++ ".lock" ∉ names ∧
        IsReachable m.files (ctx.storage.lockFor (ctx.storage.root.child name)) := by
  have hroot := isEmpty_root ctx
  have hlockName := RunnerStorage.isName_lock hname
  rw [RunnerStorage.lockFor_child hroot hname] at hfree ⊢
  rw [leadsToFree_iff (endsWithSlash_child hroot hlockName),
    hlisted.mem_iff_isDirectory hfs hroot hlockName, Bool.not_eq_true]
  tauto

/--
No two storage directories have one lock, and the lock of one is another one exactly if that
has its name with `.lock` at the end.  While nobody holds them, the locks of all directories
can be taken exactly if there is no such other directory and all their paths lead somewhere.
Then prunes do not fail to take a lock, and where there is such a directory they do not succeed.
-/
theorem pruneConanCaches_locks (hfs : m.files.WellFormed)
    (hdirs : ctx.storage.discover m.files = .ok dirs)
    (hheld : ∀ id ∈ m.locks.held, id < m.files.nextFile)
    (hfree : ∀ dir ∈ dirs, ∀ id, Opens m.files (ctx.storage.lockFor dir) id → id ∉ m.locks.held)
    (hkeeps : runner.KeepsLocks) (hentries : runner.KeepsEntries ctx.storage.root)
    (dryRun : Bool) :
    ∃ names, dirs = names.map ctx.storage.root.child ∧
      RunnerStorage.IsListed ctx.storage m.files names ∧
      (∀ name ∈ names, ∀ other ∈ names,
        ((ctx.storage.lockFor (ctx.storage.root.child name)).SameWay
          (ctx.storage.lockFor (ctx.storage.root.child other)) ↔ name = other) ∧
        ((ctx.storage.lockFor (ctx.storage.root.child name)).SameWay
          (ctx.storage.root.child other) ↔ other = name ++ ".lock")) ∧
      ((∀ dir ∈ dirs, ∃ lock opened,
          (Lock.acquire (ctx.storage.lockFor dir) ctx.lockWait).outcome m = (.ok lock, opened)) ↔
        ∀ name ∈ names, name ++ ".lock" ∉ names ∧
          IsReachable m.files (ctx.storage.lockFor (ctx.storage.root.child name))) ∧
      ((∀ name ∈ names, name ++ ".lock" ∉ names ∧
          IsReachable m.files (ctx.storage.lockFor (ctx.storage.root.child name))) →
        ∀ e, ((pruneConanCaches ctx runner dryRun).outcome m).1 ≠ .error (.prune (.lock e))) ∧
      ∀ name ∈ names, name ++ ".lock" ∈ names →
        ∀ reports, ((pruneConanCaches ctx runner dryRun).outcome m).1 ≠ .ok reports := by
  have hroot := isEmpty_root ctx
  obtain ⟨names, rfl, hlisted⟩ := RunnerStorage.discover_eq_ok hfs hdirs
  have hthere : ∀ name ∈ names, ∃ dir, m.files.directoryAt? ctx.storage.root = some dir :=
    fun name hname => by
      obtain ⟨_, hlist, -, -⟩ := (hlisted.mem_iff name).mp hname
      exact directoryAt?_of_list hlist
  have hiff : ∀ name ∈ names,
      LeadsToFree m.files m.locks.held (ctx.storage.lockFor (ctx.storage.root.child name)) ↔ _ :=
    fun name hname => leadsToFree_lock_iff hfs hlisted (hlisted.named name hname)
      (hfree _ (List.mem_map_of_mem hname))
  rw [pruneConanCaches_outcome hdirs]
  refine ⟨names, rfl, hlisted, fun name hname other hother => ⟨?_, ?_⟩, ?_, fun hall e => ?_,
    fun name hname hlock reports => ?_⟩
  · exact RunnerStorage.lockFor_sameWay_lockFor_iff hroot (hlisted.named name hname)
      (hlisted.named other hother)
  · exact RunnerStorage.lockFor_sameWay_child_iff hroot (hlisted.named name hname)
  · rw [List.forall_mem_map]
    refine forall₂_congr fun name hname => ?_
    obtain ⟨dir, hdir⟩ := hthere name hname
    have hnamed := hlisted.named name hname
    rw [← hiff name hname, RunnerStorage.lockFor_child hroot hnamed]
    exact Lock.exists_acquire_iff hdir (RunnerStorage.isName_lock hnamed) hheld ctx.lockWait
  · cases names with
    | nil =>
        exact nofun
    | cons first rest =>
        have hareFree : AreFree m.files m.locks.held ctx.storage.root
            ((first :: rest).map fun name => name ++ ".lock") := by
          refine ⟨hthere first List.mem_cons_self, ?_, hheld, ?_⟩
          · rw [List.forall_mem_map]
            exact fun name hname => RunnerStorage.isName_lock (hlisted.named name hname)
          · rw [List.forall_mem_map]
            intro name hname
            rw [← RunnerStorage.lockFor_child hroot (hlisted.named name hname)]
            exact (hiff name hname).mpr (hall name hname)
        exact pruneStorages_areFree hkeeps hentries hareFree (fun name hname =>
          ⟨hlisted.named name hname, List.mem_map_of_mem hname⟩) e
  · have hnamed := hlisted.named name hname
    exact pruneStorages_of_clash hentries hnamed hname ⟨hthere name hname,
      (hlisted.mem_iff_isDirectory hfs hroot (RunnerStorage.isName_lock hnamed)).mp hlock⟩ reports

namespace Sample

def clashing : FileSystem :=
  ⟨[(["cache"], .directory), (["cache", "conan2"], .directory),
    (["cache", "conan2", "a"], .directory), (["cache", "conan2", "a.lock"], .directory)], 0, []⟩

theorem discover_clashing :
    context.storage.discover clashing = .ok (["a", "a.lock"].map context.storage.root.child) :=
  RunnerStorage.discover_of_sorted (by decide) (by decide) (by decide)

theorem reachable_files : ∀ name ∈ ["a", "b"], name ++ ".lock" ∉ ["a", "b"] ∧
    IsReachable files (context.storage.lockFor (context.storage.root.child name)) := by
  have hdir : files.directoryAt? context.storage.root = some ["cache", "conan2"] := by decide
  have hnames : ∀ name ∈ ["a", "b"], IsName name ∧ name ++ ".lock" ∉ ["a", "b"] ∧
      files.node? (["cache", "conan2"] ++ [name ++ ".lock"]) = none ∧
      isTooLong (context.storage.root.child (name ++ ".lock")) = false ∧
      (name ++ ".lock").utf8ByteSize ≤ nameLimit := by
    decide
  intro name hname
  obtain ⟨hnamed, hother, hnode, hshort, hsize⟩ := hnames name hname
  have hroot := isEmpty_root context
  refine ⟨hother, ?_⟩
  rw [RunnerStorage.lockFor_child hroot hnamed]
  refine (isReachable_child_iff hdir (RunnerStorage.isName_lock hnamed) ?_).mpr
    ⟨hshort, fun _ => hsize⟩
  rw [hnode]
  exact nofun

end Sample

/-- The locks of `a` and `b` can be taken; where that of `a` is a directory no prune succeeds. -/
theorem pruneConanCaches_locks_sample :
    (Sample.conan.KeepsLocks ∧ Sample.conan.KeepsEntries Sample.context.storage.root) ∧
    (Sample.files.WellFormed ∧
      Sample.context.storage.discover Sample.files =
        .ok (["a", "b"].map Sample.context.storage.root.child) ∧
      ∀ e, ((pruneConanCaches Sample.context Sample.conan false).outcome Sample.machine).1 ≠
        .error (.prune (.lock e))) ∧
    Sample.clashing.WellFormed ∧
      Sample.context.storage.discover Sample.clashing =
        .ok (["a", "a.lock"].map Sample.context.storage.root.child) ∧
      ∀ reports, ((pruneConanCaches Sample.context Sample.conan false).outcome
        { Sample.machine with files := Sample.clashing }).1 ≠ .ok reports := by
  have hkeeps : Sample.conan.KeepsLocks := CommandRunner.keepsLocks_within _
  have hentries : Sample.conan.KeepsEntries Sample.context.storage.root :=
    CommandRunner.keepsEntries_within _ _
  have hroot := isEmpty_root Sample.context
  have hfs : Sample.files.WellFormed := by decide
  have hfs' : Sample.clashing.WellFormed := by decide
  obtain ⟨names, hnames, -, -, -, hfree, -⟩ := pruneConanCaches_locks (m := Sample.machine) hfs
    Sample.discover_files nofun (fun _ _ _ _ => nofun) hkeeps hentries false
  obtain ⟨names', hnames', -, -, -, -, hclash⟩ :=
    pruneConanCaches_locks (m := { Sample.machine with files := Sample.clashing }) hfs'
      Sample.discover_clashing nofun (fun _ _ _ _ => nofun) hkeeps hentries false
  obtain rfl := List.map_injective_iff.mpr (child_injective hroot) hnames'
  have hlisted : [⟨["cache", "conan2", "a"]⟩, ⟨["cache", "conan2", "b"]⟩] =
      ["a", "b"].map Sample.context.storage.root.child := rfl
  obtain rfl := List.map_injective_iff.mpr (child_injective hroot) (hlisted.symm.trans hnames)
  exact ⟨⟨hkeeps, hentries⟩, ⟨hfs, Sample.discover_files, hfree Sample.reachable_files⟩, hfs',
    Sample.discover_clashing, hclash "a" (by decide) (by decide)⟩

end CacheUpkeep.Ci
