import CacheUpkeep.Proofs.Store.LockFile

/-!
# Locked prunes of one store

Prunes of one store under its lock, at times and with policies of their own, come to the
same as one after the other in the order in which they have got the lock.  The path of the
store has to name it also without what the prunes may remove: opening the lock file by a
path through a scratch directory makes that directory again.
-/

namespace CacheUpkeep.Store

open CacheUpkeep.Calendar CacheUpkeep.FileSystem CacheUpkeep.Lock CacheUpkeep.Prune

/-- A prune of a store under its lock.  It breaks off after `limit` pieces, if there is a limit. -/
structure LockedPrune where
  now : Instant
  policy : Policy
  remove : Remover
  wait : LockWait
  limit : Option Nat

variable {ρ ι : Type} {root : Path} {store : Location} {m : Machine ρ} {p : LockedPrune}
  {runs : ι → LockedPrune}

namespace LockedPrune

def job (root : Path) (p : LockedPrune) : Job (Option (Except PruneError Report)) :=
  ⟨p.wait, (prunePieces p.remove root p.now p.policy).cut p.limit⟩

def inContext (ctx : Config.Context) (now : Instant) (dryRun : Bool) : LockedPrune :=
  ⟨now, ⟨ctx.retention, dryRun⟩, removeTree, ctx.lockWait, none⟩

def backend (root : Path) (p : LockedPrune) : Backend (Machine ρ) :=
  (LocalStore.backendWith p.remove ⟨root, p.now⟩).within Machine.files
    fun files m => { m with files }

def answerOf :
    Except LockError (Option (Except PruneError Report)) → Option (Except PruneError Report)
  | .ok result => result
  | .error e => some (.error (.lock e))

end LockedPrune

/-! ## A locked prune in one go -/

theorem onFiles_bind {ε α β : Type} (x : Action FileSystem ε α) (f : α → Action FileSystem ε β) :
    (Machine.onFiles (x >>= f) : Action (Machine ρ) ε β) =
      Machine.onFiles x >>= fun a => Machine.onFiles (f a) := by
  have houtcome : ∀ m : Machine ρ, (Machine.onFiles (x >>= f)).outcome m =
      (Machine.onFiles x >>= fun a => Machine.onFiles (f a)).outcome m := by
    intro m
    cases hx : x.outcome m.files with
    | mk result files =>
        have hfirst : (Machine.onFiles x).outcome m = (result, { m with files }) := by
          rw [onFiles_outcome, hx]
        cases result with
        | ok a =>
            rw [Action.outcome_bind_ok hfirst, onFiles_outcome, onFiles_outcome,
              Action.outcome_bind_ok hx]
        | error e =>
            rw [Action.outcome_bind_error hfirst, onFiles_outcome, Action.outcome_bind_error hx]
  exact funext houtcome

theorem prune_backend (root : Path) (p : LockedPrune) :
    prune (p.backend root : Backend (Machine ρ)) p.policy =
      Machine.onFiles (prune (LocalStore.backendWith p.remove ⟨root, p.now⟩) p.policy) := by
  simp only [prune, onFiles_bind]
  rfl

theorem withLock_outcome {ε α : Type} (wrap : LockError → ε) (path : Path) (wait : LockWait)
    (body : Action (Machine ρ) ε α) (m : Machine ρ) :
    (withLock wrap path wait body).outcome m =
      match (acquire path wait).outcome m with
      | (.ok lock, opened) =>
          ((body.outcome opened).1, release lock (body.outcome opened).2)
      | (.error e, left) => (.error (wrap e), left) := by
  cases hacquire : (acquire path wait).outcome m with
  | mk result opened =>
      cases result with
      | ok lock =>
          exact Action.outcome_bind_ok (Action.outcome_mapError_ok hacquire)
      | error e =>
          exact Action.outcome_bind_error (Action.outcome_mapError_error hacquire)

theorem run_job (hlimit : p.limit = none) (fs : FileSystem) :
    (p.job root).work.run fs =
      (some ((prune (LocalStore.backendWith p.remove ⟨root, p.now⟩) p.policy).outcome fs).1,
        ((prune (LocalStore.backendWith p.remove ⟨root, p.now⟩) p.policy).outcome fs).2) := by
  rw [LockedPrune.job, hlimit, Pieces.run_cut_none, performs_prunePieces]

theorem alone_answers (hlimit : p.limit = none) (m : Machine ρ) :
    LockedPrune.answerOf ((p.job root).alone (lockPath root) m).1 =
        some ((pruneLocked (p.backend root) p.policy (lockPath root) p.wait).outcome m).1 ∧
      ((p.job root).alone (lockPath root) m).2 =
        ((pruneLocked (p.backend root) p.policy (lockPath root) p.wait).outcome m).2 := by
  have hwait : (p.job root).wait = p.wait := rfl
  rw [pruneLocked, withLock_outcome, prune_backend, Job.alone, hwait]
  cases hacquire : (acquire (lockPath root) p.wait).outcome m with
  | mk result opened =>
      cases result with
      | error e => exact ⟨rfl, rfl⟩
      | ok lock =>
          simp [run_job hlimit, onFiles_outcome, LockedPrune.answerOf]

theorem pruneDirectory_outcome (ctx : Config.Context) (now : Instant) (dryRun : Bool)
    (hroot : m.files.isDirectory root = true) :
    (Ci.pruneDirectory ctx root now dryRun).outcome m =
      (Action.mapError CiError.prune
        (pruneLocked ((LockedPrune.inContext ctx now dryRun).backend root)
          ⟨ctx.retention, dryRun⟩ (lockPath root) ctx.lockWait)).outcome m := by
  have hread : (Action.reading fun m : Machine ρ =>
      (.ok (m.files.isDirectory root) : Except CiError Bool)).outcome m = (.ok true, m) := by
    rw [Action.outcome_reading, hroot]
  exact Action.outcome_bind_ok hread

/-! ## Any order of moves -/

/-- The times and windows of the runs that do not only predict. -/
def Prunes (runs : ι → LockedPrune) (now : Instant) (window : RetentionWindow) : Prop :=
  ∃ job, (runs job).now = now ∧ (runs job).policy = ⟨window, false⟩

variable [DecidableEq ι]

def crewAfter (root : Path) (runs : ι → LockedPrune) (m : Machine ρ) (schedule : List (Move ι)) :
    Crew ρ ι (Option (Except PruneError Report)) :=
  Crew.after (lockPath root) (fun job => (runs job).job root) schedule (Crew.start m)

/--
The runs have come to what they come to one after the other, each as a locked prune on its
own, such as a job makes of a directory.  Who was refused the lock has not begun to work, and
the lock file has stayed.
-/
structure AreSerialised (root : Path) (runs : ι → LockedPrune) (m : Machine ρ)
    (schedule : List (Move ι)) : Prop where
  serial : IsSerial (lockPath root) (fun job => (runs job).job root) m
    (crewAfter root runs m schedule)
  alone : ∀ job, (runs job).limit = none → ∀ left : Machine ρ,
    LockedPrune.answerOf (((runs job).job root).alone (lockPath root) left).1 =
        some ((pruneLocked ((runs job).backend root) (runs job).policy (lockPath root)
          (runs job).wait).outcome left).1 ∧
      (((runs job).job root).alone (lockPath root) left).2 =
        ((pruneLocked ((runs job).backend root) (runs job).policy (lockPath root)
          (runs job).wait).outcome left).2
  inContext : ∀ (ctx : Config.Context) (now : Instant) (dryRun : Bool) (left : Machine ρ),
    left.files.isDirectory root = true →
      (Ci.pruneDirectory ctx root now dryRun).outcome left =
        (Action.mapError CiError.prune
          (pruneLocked ((LockedPrune.inContext ctx now dryRun).backend root)
            ⟨ctx.retention, dryRun⟩ (lockPath root) ctx.lockWait)).outcome left
  refused : ∀ front, front <+: schedule → ∀ job e,
    (crewAfter root runs m schedule).stage job = .refused e →
      ¬ ((crewAfter root runs m front).stage job).IsWorking
  lockFile : ∀ front, front <+: schedule → ∀ number,
    Opens (crewAfter root runs m front).machine.files (lockPath root) number →
      Opens (crewAfter root runs m schedule).machine.files (lockPath root) number

/-- Locked prunes of one store are serialised, whatever the order of their moves. -/
theorem lockedPrunes_areSerialised (hs : IsStore m.files root store)
    (hdir : m.files.node? store = some .directory)
    (hnames : NamesWithout m.files root store (IsExpendable m.files store (Prunes runs)))
    (hremove : ∀ job, RemovesStepwise (runs job).remove) (hfree : m.locks = .empty)
    (schedule : List (Move ι)) : AreSerialised root runs m schedule := by
  have hreliable := isReliable hs hdir hnames
  have hkeeps : ∀ number job,
      ((runs job).job root).work.Keeps (IsGuarded m.files root store (Prunes runs) number) := by
    intro number job
    refine (keeps_isGuarded hs hdir hnames (hremove job) _ _ fun hreal => ⟨job, rfl, ?_⟩).cut _
    rw [← hreal]
  refine ⟨crew_isSerial hreliable hkeeps hfree schedule, fun job hlimit => alone_answers hlimit,
    fun ctx now dryRun _ => pruneDirectory_outcome ctx now dryRun, ?_, ?_⟩
  · rintro front ⟨rest, rfl⟩ job e
    exact not_isWorking_of_refused hreliable hkeeps hfree front rest
  · rintro front ⟨rest, rfl⟩ number
    exact opens_after hreliable hkeeps hfree front rest

namespace Sample

def machine : Machine Unit :=
  ⟨files, .empty, ⟨0, 0, 0⟩, ()⟩

def twoRuns : Bool → LockedPrune
  | true => ⟨clock, ⟨.standard, false⟩, removeTree, .forever, none⟩
  | false => ⟨clock, ⟨.standard, true⟩, removeTree, .timeout 1, none⟩

theorem removesStepwise_twoRuns (job : Bool) : RemovesStepwise (twoRuns job).remove := by
  cases job <;> exact removesStepwise_removeTree

theorem namesWithout_twoRuns : NamesWithout files ⟨["store"]⟩ ["store"]
    (IsExpendable files ["store"] (Prunes twoRuns)) :=
  namesWithout fun _ h => h.ne_nil

def jobs (root : Path) (job : Bool) : Job (Option (Except PruneError Report)) :=
  (twoRuns job).job root

theorem exists_reopened : ∃ file opened result left,
    (openLockFile (lockPath ⟨["store"]⟩)).outcome files = (.ok file, opened) ∧
      (jobs ⟨["store"]⟩ true).work.run opened = (result, left) ∧
      (openLockFile (lockPath ⟨["store"]⟩)).outcome left = (.ok file, left) := by
  obtain ⟨file, opened, hopen⟩ : ∃ file opened,
      (openLockFile (lockPath ⟨["store"]⟩)).outcome files = (.ok file, opened) := ⟨_, _, rfl⟩
  have hreliable := isReliable isStore rfl namesWithout_twoRuns
  have hkeeps : (jobs ⟨["store"]⟩ true).work.Keeps
      (IsGuarded files ⟨["store"]⟩ ["store"] (Prunes twoRuns) file) :=
    (keeps_isGuarded isStore rfl namesWithout_twoRuns removesStepwise_removeTree clock
      ⟨.standard, false⟩ fun _ => ⟨true, rfl, rfl⟩).cut none
  exact ⟨file, opened, _, _, hopen, rfl, hreliable.again (hkeeps.run (hreliable.opens hopen))⟩

theorem exists_over {c : Crew Unit Bool (Option (Except PruneError Report))} {order : List Bool}
    (h : ∃ schedule, crewAfter ⟨["store"]⟩ twoRuns machine schedule = c) (horder : c.order = order)
    (hprune : (c.stage true).IsOver) (hpredict : (c.stage false).IsOver) : ∃ schedule,
    (crewAfter ⟨["store"]⟩ twoRuns machine schedule).order = order ∧
      ∀ job, ((crewAfter ⟨["store"]⟩ twoRuns machine schedule).stage job).IsOver := by
  obtain ⟨schedule, rfl⟩ := h
  refine ⟨schedule, horder, fun job => ?_⟩
  cases job with
  | true => exact hprune
  | false => exact hpredict

theorem exists_inTurn : ∃ schedule,
    (crewAfter ⟨["store"]⟩ twoRuns machine schedule).order = [true, false] ∧
      ∀ job, ((crewAfter ⟨["store"]⟩ twoRuns machine schedule).stage job).IsOver := by
  obtain ⟨file, opened, result, left, hopen, hrun, hagain⟩ := exists_reopened
  obtain ⟨result', last, hrun'⟩ : ∃ result' last,
      (jobs ⟨["store"]⟩ false).work.run left = (result', last) := ⟨_, _, rfl⟩
  exact exists_over (Crew.exists_succession Bool.false_ne_true rfl hopen hrun hagain hrun') rfl
    (.inr ⟨_, rfl⟩) (.inr ⟨_, rfl⟩)

theorem exists_refused : ∃ schedule,
    (crewAfter ⟨["store"]⟩ twoRuns machine schedule).order = [true] ∧
      ∀ job, ((crewAfter ⟨["store"]⟩ twoRuns machine schedule).stage job).IsOver := by
  obtain ⟨file, opened, result, left, hopen, hrun, hagain⟩ := exists_reopened
  exact exists_over (Crew.exists_overlap Bool.false_ne_true rfl hopen hrun hagain rfl) rfl
    (.inr ⟨_, rfl⟩) (.inl ⟨_, rfl⟩)

end Sample

/-- The conditions hold of two prunes, which both get the lock or one of which gives up. -/
theorem lockedPrunes_areSerialised_sample :
    (IsStore Sample.machine.files ⟨["store"]⟩ ["store"] ∧
      Sample.machine.files.node? ["store"] = some .directory ∧
      NamesWithout Sample.machine.files ⟨["store"]⟩ ["store"]
        (IsExpendable Sample.machine.files ["store"] (Prunes Sample.twoRuns)) ∧
      (∀ job, RemovesStepwise (Sample.twoRuns job).remove) ∧
      Sample.machine.locks = .empty) ∧
    (∃ schedule, AreSerialised ⟨["store"]⟩ Sample.twoRuns Sample.machine schedule ∧
      (crewAfter ⟨["store"]⟩ Sample.twoRuns Sample.machine schedule).order = [true, false] ∧
      ∀ job, ((crewAfter ⟨["store"]⟩ Sample.twoRuns Sample.machine schedule).stage job).IsOver) ∧
    ∃ schedule, AreSerialised ⟨["store"]⟩ Sample.twoRuns Sample.machine schedule ∧
      (crewAfter ⟨["store"]⟩ Sample.twoRuns Sample.machine schedule).order = [true] ∧
      ∀ job, ((crewAfter ⟨["store"]⟩ Sample.twoRuns Sample.machine schedule).stage job).IsOver := by
  have hserialised : ∀ schedule,
      AreSerialised ⟨["store"]⟩ Sample.twoRuns Sample.machine schedule :=
    lockedPrunes_areSerialised Sample.isStore rfl Sample.namesWithout_twoRuns
      Sample.removesStepwise_twoRuns rfl
  obtain ⟨both, hboth⟩ := Sample.exists_inTurn
  obtain ⟨one, hone⟩ := Sample.exists_refused
  exact ⟨⟨Sample.isStore, rfl, Sample.namesWithout_twoRuns, Sample.removesStepwise_twoRuns, rfl⟩,
    ⟨both, hserialised both, hboth⟩, one, hserialised one, hone⟩

/-! ## A lock file reached through a scratch directory -/

namespace Sample

def lockedFiles : FileSystem :=
  ⟨[(["store"], .directory), (["store", "tmp"], .directory),
    (["store", ".prune.lock"], .file 0 ByteArray.empty false)], 1, []⟩

def lockedMachine : Machine Unit :=
  ⟨lockedFiles, .empty, ⟨0, 0, 0⟩, ()⟩

theorem wellFormed_lockedFiles : lockedFiles.WellFormed := by
  decide

theorem isStore_lockedFiles : IsStore lockedFiles throughScratch ["store"] :=
  ⟨wellFormed_lockedFiles,
    hasNoLinks_of_entries wellFormed_lockedFiles (by simp [lockedFiles]) _, by decide⟩

theorem scan_lockedFiles : scan lockedFiles throughScratch =
    .ok ⟨[.scratch "tmp" (throughScratch.child "tmp")]⟩ := by
  have hnames : ((lockedFiles.namesIn ["store"]).filter fun name =>
      lockedFiles.isDirectory (throughScratch.child name)) = ["tmp"] := by
    decide
  exact scan_of_sorted isStore_lockedFiles.named hnames (by decide)
    (.cons (eq_ok_of_toOption (by decide)) .nil)

def unscratchedFiles : FileSystem :=
  withoutPlaces lockedFiles ["store"] [["tmp"]]

theorem prune_lockedFiles :
    (prune (LocalStore.backend ⟨throughScratch, clock⟩) ⟨.standard, false⟩).outcome lockedFiles =
      (.ok ⟨"local", ⟨.standard, false⟩,
        outcomeOf [candidateAt lockedFiles throughScratch ["tmp"]], Outcome.none, Outcome.none⟩,
        unscratchedFiles) := by
  have hgone : unscratchedFiles.isDirectory throughScratch = false := by
    decide
  have hfirst : (selectAndRemove removeTree throughScratch false transientCandidates).outcome
      lockedFiles = (.ok (outcomeOf [candidateAt lockedFiles throughScratch ["tmp"]]),
        unscratchedFiles) := by
    have hplaces : (⟨[.scratch "tmp" (throughScratch.child "tmp")]⟩ : Layout).scratchPlaces =
        [["tmp"]] := rfl
    rw [selectAndRemove_eq scan_lockedFiles,
      transientCandidates_eq isStore_lockedFiles scan_lockedFiles, hplaces]
    exact removeEach_single isStore_lockedFiles (by simp) ⟨rfl, by decide⟩
  exact prune_of_steps hfirst (selectAndRemove_missing hgone staleCandidates_nil)
    (selectAndRemove_missing hgone rfl)

theorem open_lockedFiles :
    (openLockFile (lockPath throughScratch)).outcome lockedFiles = (.ok 0, lockedFiles) := by
  rfl

theorem open_unscratchedFiles : ∃ files,
    (openLockFile (lockPath throughScratch)).outcome unscratchedFiles = (.ok 0, files) ∧
      files.node? ["store", "tmp"] = some .directory :=
  ⟨_, rfl, by decide⟩

theorem run_jobs : ((jobs throughScratch true).work.run lockedFiles).2 = unscratchedFiles := by
  rw [jobs, run_job rfl]
  exact congrArg Prod.snd prune_lockedFiles

end Sample

/-- By a path through a scratch directory, who is refused the lock leaves a trace. -/
theorem lockedPrunes_not_serialised_through_scratch :
    (IsStore Sample.lockedMachine.files Sample.throughScratch ["store"] ∧
      Sample.lockedMachine.files.node? ["store"] = some .directory ∧
      (∀ job, RemovesStepwise (Sample.twoRuns job).remove) ∧
      Sample.lockedMachine.locks = .empty) ∧
    ¬ ∀ schedule, AreSerialised Sample.throughScratch Sample.twoRuns Sample.lockedMachine
      schedule := by
  refine ⟨⟨Sample.isStore_lockedFiles, rfl, Sample.removesStepwise_twoRuns, rfl⟩, fun h => ?_⟩
  obtain ⟨files, hagain, htmp⟩ := Sample.open_unscratchedFiles
  have hopen : (openLockFile (lockPath Sample.throughScratch)).outcome Sample.lockedMachine.files =
      (.ok 0, Sample.lockedFiles) := Sample.open_lockedFiles
  obtain ⟨result, hrun⟩ : ∃ result,
      (Sample.jobs Sample.throughScratch true).work.run Sample.lockedFiles =
        (result, Sample.unscratchedFiles) := ⟨_, Prod.ext rfl Sample.run_jobs⟩
  obtain ⟨schedule, hafter⟩ := Crew.exists_overlap Bool.false_ne_true rfl hopen hrun hagain rfl
  have hcrew : crewAfter Sample.throughScratch Sample.twoRuns Sample.lockedMachine schedule = _ :=
    hafter
  have hover : ∀ job, ((crewAfter Sample.throughScratch Sample.twoRuns Sample.lockedMachine
      schedule).stage job).IsOver := by
    rw [hcrew]
    intro job
    cases job with
    | true => exact .inr ⟨_, rfl⟩
    | false => exact .inl ⟨_, rfl⟩
  have hmachine := ((h schedule).serial.serial fun job => .inr (hover job)).1
  rw [hcrew] at hmachine
  have hsingle : (inTurn (lockPath Sample.throughScratch) (Sample.jobs Sample.throughScratch) [true]
      Sample.lockedMachine).2.files = Sample.unscratchedFiles := by
    have halone := Job.alone_of_free (Sample.jobs Sample.throughScratch true) hopen rfl
    rw [hrun] at halone
    exact congrArg (fun outcome => outcome.2.files) halone
  have hfiles : files = Sample.unscratchedFiles := (congrArg Machine.files hmachine).trans hsingle
  rw [hfiles] at htmp
  revert htmp
  decide

end CacheUpkeep.Store
