import CacheUpkeep.Proofs.Lock.Crew
import Mathlib.Data.List.Forall2

/-!
# Jobs under a lock come one after the other

Whatever the order of their moves, the jobs that get the lock leave the files and have
the results as if each had run alone, in the order in which they have got it.  That
rests on a lock file that stays: what the jobs do under the lock keeps it, so opening it
again changes nothing.
-/

namespace CacheUpkeep.Lock

open CacheUpkeep.FileSystem

variable {ρ ι β : Type} {path : Path} {jobs : ι → Job β} {m base : Machine ρ} {c : Crew ρ ι β}
  {job other : ι} {file : Nat} {files : FileSystem} {rest : Pieces FileSystem β} {stage : Stage β}
  {front order : List ι} {Kept : Nat → FileSystem → Prop}

/-! ## One job at a time -/

/-- A job from its start to its end, while no other one makes a move. -/
def Job.alone (path : Path) (job : Job β) (m : Machine ρ) : Except LockError β × Machine ρ :=
  match (acquire path job.wait).outcome m with
  | (.error e, left) => (.error e, left)
  | (.ok lock, opened) =>
      let (result, files) := job.work.run opened.files
      (.ok result, release lock { opened with files })

def inTurn (path : Path) (jobs : ι → Job β) :
    List ι → Machine ρ → List (Except LockError β) × Machine ρ
  | [], m => ([], m)
  | job :: rest, m =>
      let (result, left) := (jobs job).alone path m
      let (results, left) := inTurn path jobs rest left
      (result :: results, left)

theorem inTurn_append_single (path : Path) (jobs : ι → Job β) (front : List ι) (job : ι)
    (m : Machine ρ) :
    inTurn path jobs (front ++ [job]) m =
      ((inTurn path jobs front m).1 ++ [((jobs job).alone path (inTurn path jobs front m).2).1],
        ((jobs job).alone path (inTurn path jobs front m).2).2) := by
  induction front generalizing m with
  | nil => rfl
  | cons first front ih => simp only [List.cons_append, inTurn, ih]

/--
A lock file that can be opened from the start on: either opening fails and changes
nothing, or what is kept from then on lets the file be opened again as it is.
-/
structure IsReliable (path : Path) (start : FileSystem) (Kept : Nat → FileSystem → Prop) :
    Prop where
  fails : ∀ {e left}, (openLockFile path).outcome start = (.error e, left) → left = start
  opens : ∀ {file base}, (openLockFile path).outcome start = (.ok file, base) → Kept file base
  again : ∀ {file fs}, Kept file fs → (openLockFile path).outcome fs = (.ok file, fs)

theorem acquire_of_free {m : Machine ρ} (wait : LockWait)
    (hopen : (openLockFile path).outcome m.files = (.ok file, files)) (hfree : m.locks = .empty) :
    (acquire path wait).outcome m =
      (.ok ⟨path, file⟩, { m with files, locks := ⟨[file]⟩ }) := by
  have hopened : (Machine.onFiles (openLockFile path)).outcome m =
      (.ok file, { m with files }) := by rw [onFiles_outcome, hopen]
  rw [acquire, Action.outcome_bind_ok hopened, takeOpened, Action.outcome_ofOutcome, hfree]
  rfl

theorem Job.alone_of_free (work : Job β)
    (hopen : (openLockFile path).outcome m.files = (.ok file, files)) (hfree : m.locks = .empty) :
    work.alone path m =
      (.ok (work.work.run files).1, { m with files := (work.work.run files).2 }) := by
  have hreleased : (⟨[file]⟩ : LockTable).release file = m.locks := by
    rw [hfree]
    simp [LockTable.release, LockTable.empty]
  rw [Job.alone, acquire_of_free work.wait hopen hfree]
  simp only [release, hreleased]

section Kept

variable (hreliable : IsReliable path m.files Kept)
  (hkeeps : ∀ job, (jobs job).work.Keeps (Kept file))

include hreliable

theorem alone_of_kept (work : Job β) (hkept : Kept file base.files) (hfree : base.locks = .empty) :
    work.alone path base = (.ok (work.work.run base.files).1,
      { base with files := (work.work.run base.files).2 }) :=
  work.alone_of_free (hreliable.again hkept) hfree

theorem inTurn_eq (hopen : (openLockFile path).outcome m.files = (.ok file, files))
    (hfree : m.locks = .empty) (hne : order ≠ []) :
    inTurn path jobs order m = inTurn path jobs order { m with files } := by
  obtain ⟨job, rest, rfl⟩ := List.exists_cons_of_ne_nil hne
  have hkept : Kept file ({ m with files } : Machine ρ).files := hreliable.opens hopen
  have halone : (jobs job).alone path { m with files } = (jobs job).alone path m := by
    rw [(jobs job).alone_of_free hopen hfree, alone_of_kept hreliable (jobs job) hkept hfree]
  simp only [inTurn, halone]

include hkeeps

theorem inTurn_keeps (hkept : Kept file base.files) (hfree : base.locks = .empty)
    (order : List ι) : Kept file (inTurn path jobs order base).2.files ∧
      (inTurn path jobs order base).2.locks = .empty := by
  induction order generalizing base with
  | nil => exact ⟨hkept, hfree⟩
  | cons job rest ih =>
      simp only [inTurn, alone_of_kept hreliable (jobs job) hkept hfree]
      exact ih ((hkeeps job).run hkept) hfree

end Kept

/-! ## Any order of moves -/

def Stage.HasResult (stage : Stage β) (result : Except LockError β) : Prop :=
  ∃ b, result = .ok b ∧ stage = .ended b

structure IsResting (path : Path) (jobs : ι → Job β) (base : Machine ρ) (c : Crew ρ ι β) :
    Prop where
  nobody : ∀ job, ¬ (c.stage job).IsWorking
  results : List.Forall₂ (fun job result => (c.stage job).HasResult result) c.order
    (inTurn path jobs c.order base).1
  machine : c.machine = (inTurn path jobs c.order base).2

/-- One job works where those before it have left off, and will end as if it had run alone. -/
structure IsBusy (path : Path) (jobs : ι → Job β) (Kept : Nat → FileSystem → Prop)
    (base : Machine ρ) (file : Nat) (c : Crew ρ ι β) (front : List ι) (job : ι)
    (rest : Pieces FileSystem β) : Prop where
  working : c.stage job = .working ⟨path, file⟩ rest
  others : ∀ other, other ≠ job → ¬ (c.stage other).IsWorking
  order : c.order = front ++ [job]
  results : List.Forall₂ (fun job result => (c.stage job).HasResult result) front
    (inTurn path jobs front base).1
  machine : c.machine = { (inTurn path jobs front base).2 with
    files := c.machine.files, locks := ⟨[file]⟩ }
  resumes : rest.run c.machine.files = (jobs job).work.run (inTurn path jobs front base).2.files
  keeps : rest.Keeps (Kept file)

structure IsStanding (path : Path) (jobs : ι → Job β) (file : Nat) (c : Crew ρ ι β) : Prop where
  begun : ∃ job, c.stage job ≠ .idle
  waiting : ∀ job number, c.stage job = .waiting number → number = file
  refused : ∀ job e, c.stage job = .refused e → c.order ≠ [] ∧
    ∃ limit, (jobs job).wait = .timeout limit ∧ e = .timedOut path limit
  mem_order : ∀ job, job ∈ c.order ↔ (c.stage job).IsServed
  nodup : c.order.Nodup

structure IsOpened (path : Path) (jobs : ι → Job β) (Kept : Nat → FileSystem → Prop)
    (base : Machine ρ) (file : Nat) (c : Crew ρ ι β) : Prop where
  standing : IsStanding path jobs file c
  kept : Kept file c.machine.files
  state : IsResting path jobs base c ∨
    ∃ front job rest, IsBusy path jobs Kept base file c front job rest

theorem not_isServed_idle : ¬ (Stage.idle : Stage β).IsServed := by
  rintro (⟨lock, rest, h⟩ | ⟨result, h⟩) <;> cases h

theorem not_isServed_waiting : ¬ (Stage.waiting file : Stage β).IsServed := by
  rintro (⟨lock, rest, h⟩ | ⟨result, h⟩) <;> cases h

theorem not_isServed_refused {error : LockError} : ¬ (Stage.refused error : Stage β).IsServed := by
  rintro (⟨lock, rest, h⟩ | ⟨result, h⟩) <;> cases h

def Crew.AgreesBut (c c' : Crew ρ ι β) (job : ι) : Prop :=
  ∀ other, other ≠ job → c'.stage other = c.stage other

variable {c' : Crew ρ ι β}

theorem agreesBut_update [DecidableEq ι] (c : Crew ρ ι β) (m : Machine ρ) (job : ι)
    (stage : Stage β) (order : List ι) :
    c.AgreesBut ⟨m, Function.update c.stage job stage, order⟩ job :=
  fun _ hother => Function.update_of_ne hother ..

theorem Crew.AgreesBut.hasResults {results : List (Except LockError β)}
    (hagree : c.AgreesBut c' job) (hjob : job ∉ order)
    (h : List.Forall₂ (fun job result => (c.stage job).HasResult result) order results) :
    List.Forall₂ (fun job result => (c'.stage job).HasResult result) order results := by
  induction h with
  | nil => exact .nil
  | @cons other result others results hresult _ ih =>
      have hother : other ≠ job := by
        rintro rfl
        exact hjob List.mem_cons_self
      exact .cons (hagree other hother ▸ hresult)
        (ih fun hmem => hjob (List.mem_cons_of_mem _ hmem))

theorem IsStanding.of_agreesBut (h : IsStanding path jobs file c) (hagree : c.AgreesBut c' job)
    (hidle : c'.stage job ≠ .idle)
    (hwaiting : ∀ number, c'.stage job = .waiting number → number = file)
    (hrefused : ∀ e, c'.stage job = .refused e → c.order ≠ [] ∧
      ∃ limit, (jobs job).wait = .timeout limit ∧ e = .timedOut path limit)
    (hserved : job ∈ c'.order ↔ (c'.stage job).IsServed) (hnodup : c'.order.Nodup)
    (horder : c'.order = c.order ∨ c'.order = c.order ++ [job]) :
    IsStanding path jobs file c' := by
  have hlonger : c.order ≠ [] → c'.order ≠ [] := by
    rcases horder with horder | horder <;> simp [horder]
  have hothers : ∀ other, other ≠ job → (other ∈ c'.order ↔ other ∈ c.order) := by
    rcases horder with horder | horder <;> simp +contextual [horder]
  refine ⟨⟨job, hidle⟩, fun other number hnumber => ?_, fun other e he => ?_, fun other => ?_,
    hnodup⟩
  · by_cases hother : other = job
    · exact hwaiting number (hother ▸ hnumber)
    · exact h.waiting other number (hagree other hother ▸ hnumber)
  · by_cases hother : other = job
    · subst hother
      exact ⟨hlonger (hrefused e he).1, (hrefused e he).2⟩
    · obtain ⟨hne, htimeout⟩ := h.refused other e (hagree other hother ▸ he)
      exact ⟨hlonger hne, htimeout⟩
  · by_cases hother : other = job
    · rw [hother, hserved]
    · rw [hothers other hother, hagree other hother, h.mem_order other]

theorem IsStanding.order_ne_nil (h : IsStanding path jobs file c)
    (hover : ∀ job, c.stage job = .idle ∨ (c.stage job).IsOver) : c.order ≠ [] := by
  obtain ⟨job, hjob⟩ := h.begun
  rcases hover job with hidle | ⟨e, hrefused⟩ | ⟨result, hended⟩
  · exact absurd hidle hjob
  · exact (h.refused job e hrefused).1
  · exact List.ne_nil_of_mem ((h.mem_order job).mpr (.inr ⟨result, hended⟩))

namespace IsOpened

theorem of_unserved (h : IsOpened path jobs Kept base file c) (hagree : c.AgreesBut c' job)
    (hmachine : c'.machine = c.machine) (horder : c'.order = c.order)
    (hbefore : ¬ (c.stage job).IsServed) (hafter : ¬ (c'.stage job).IsServed)
    (hstanding : IsStanding path jobs file c') : IsOpened path jobs Kept base file c' := by
  have hjob : job ∉ c.order := fun hmem => hbefore ((h.standing.mem_order job).mp hmem)
  refine ⟨hstanding, hmachine ▸ h.kept, ?_⟩
  rcases h.state with hresting | ⟨front, worker, rest, hbusy⟩
  · refine .inl ⟨fun other hworking => ?_, ?_, ?_⟩
    · by_cases hother : other = job
      · exact hafter (hother ▸ .inl hworking)
      · exact hresting.nobody other (hagree other hother ▸ hworking)
    · rw [horder]
      exact hagree.hasResults hjob hresting.results
    · rw [hmachine, horder, hresting.machine]
  · have hne : worker ≠ job := by
      rintro rfl
      exact hbefore (.inl ⟨_, _, hbusy.working⟩)
    have hfront : job ∉ front := fun hmem => hjob (by simp [hbusy.order, hmem])
    refine .inr ⟨front, worker, rest, (hagree worker hne).trans hbusy.working,
      fun other hother hworking => ?_, horder.trans hbusy.order,
      hagree.hasResults hfront hbusy.results, hmachine ▸ hbusy.machine, hmachine ▸ hbusy.resumes,
      hbusy.keeps⟩
    by_cases hjob' : other = job
    · exact hafter (hjob' ▸ .inl hworking)
    · exact hbusy.others other hother (hagree other hjob' ▸ hworking)

theorem of_locked (h : IsOpened path jobs Kept base file c) (hagree : c.AgreesBut c' job)
    (hmachine : c'.machine = { c.machine with locks := ⟨file :: c.machine.locks.held⟩ })
    (horder : c'.order = c.order ++ [job]) (hbefore : ¬ (c.stage job).IsServed)
    (hafter : c'.stage job = .working ⟨path, file⟩ (jobs job).work)
    (hheld : file ∉ c.machine.locks.held) (hkeeps : (jobs job).work.Keeps (Kept file))
    (hfree : (inTurn path jobs c.order base).2.locks = .empty) :
    IsOpened path jobs Kept base file c' := by
  have hjob : job ∉ c.order := fun hmem => hbefore ((h.standing.mem_order job).mp hmem)
  have hnodup : c'.order.Nodup := by
    rw [horder, List.nodup_append]
    refine ⟨h.standing.nodup, by simp, fun other hmem _ hother heq => hjob ?_⟩
    rwa [← List.mem_singleton.mp hother, ← heq]
  refine ⟨h.standing.of_agreesBut hagree (by simp [hafter]) (by simp [hafter]) (by simp [hafter])
    (iff_of_true (by simp [horder]) (.inl ⟨_, _, hafter⟩)) hnodup (.inr horder),
    by simpa [hmachine] using h.kept, ?_⟩
  rcases h.state with hresting | ⟨front, worker, rest, hbusy⟩
  · refine .inr ⟨c.order, job, (jobs job).work, hafter, fun other hother hworking => ?_, horder,
      hagree.hasResults hjob hresting.results, ?_, ?_, hkeeps⟩
    · exact hresting.nobody other (hagree other hother ▸ hworking)
    · rw [hmachine, hresting.machine, hfree]
      rfl
    · rw [hmachine, hresting.machine]
  · have hlocks := congrArg Machine.locks hbusy.machine
    rw [hlocks] at hheld
    exact absurd (List.mem_singleton_self file) hheld

theorem exists_isBusy (h : IsOpened path jobs Kept base file c) {lock : CacheLock}
    (hworking : c.stage job = .working lock rest) :
    lock = ⟨path, file⟩ ∧
      ∃ front, IsBusy path jobs Kept base file c front job rest ∧ job ∉ front := by
  rcases h.state with hresting | ⟨front, worker, rest', hbusy⟩
  · exact absurd ⟨_, _, hworking⟩ (hresting.nobody job)
  · obtain rfl : job = worker := by
      by_contra hne
      exact hbusy.others job hne ⟨_, _, hworking⟩
    have hsame := hbusy.working
    rw [hworking] at hsame
    cases hsame
    have hnodup := h.standing.nodup
    rw [hbusy.order, List.nodup_append] at hnodup
    exact ⟨rfl, front, hbusy, fun hfront => hnodup.2.2 job hfront job (by simp) rfl⟩

theorem of_worked (h : IsOpened path jobs Kept base file c) (hagree : c.AgreesBut c' job)
    {lock : CacheLock} {change : FileSystem → FileSystem}
    {next : FileSystem → Pieces FileSystem β}
    (hmachine : c'.machine = { c.machine with files := change c.machine.files })
    (horder : c'.order = c.order) (hbefore : c.stage job = .working lock (.piece change next))
    (hafter : c'.stage job = .working lock (next c.machine.files)) :
    IsOpened path jobs Kept base file c' := by
  obtain ⟨rfl, front, hbusy, hjob⟩ := h.exists_isBusy hbefore
  obtain ⟨hkept, hkeeps⟩ := hbusy.keeps c.machine.files h.kept
  have hmem : job ∈ c'.order := horder ▸ (h.standing.mem_order job).mpr (.inl ⟨_, _, hbefore⟩)
  refine ⟨h.standing.of_agreesBut hagree (by simp [hafter]) (by simp [hafter]) (by simp [hafter])
    (iff_of_true hmem (.inl ⟨_, _, hafter⟩)) (horder ▸ h.standing.nodup) (.inl horder),
    by simpa [hmachine] using hkept, ?_⟩
  refine .inr ⟨front, job, next c.machine.files, hafter, fun other hother hworking => ?_,
    horder.trans hbusy.order, hagree.hasResults hjob hbusy.results, ?_, ?_, hkeeps⟩
  · exact hbusy.others other hother (hagree other hother ▸ hworking)
  · rw [hmachine]
    exact congrArg (fun m : Machine ρ => { m with files := change c.machine.files }) hbusy.machine
  · rw [hmachine]
    exact hbusy.resumes

theorem of_released (h : IsOpened path jobs Kept base file c) (hagree : c.AgreesBut c' job)
    {lock : CacheLock} {result : β} (hmachine : c'.machine = release lock c.machine)
    (horder : c'.order = c.order) (hbefore : c.stage job = .working lock (.done result))
    (hafter : c'.stage job = .ended result)
    (hreliable : IsReliable path m.files Kept)
    (hturns : ∀ order, Kept file (inTurn path jobs order base).2.files ∧
      (inTurn path jobs order base).2.locks = .empty) : IsOpened path jobs Kept base file c' := by
  obtain ⟨rfl, front, hbusy, hjob⟩ := h.exists_isBusy hbefore
  have hmem : job ∈ c'.order := horder ▸ (h.standing.mem_order job).mpr (.inl ⟨_, _, hbefore⟩)
  refine ⟨h.standing.of_agreesBut hagree (by simp [hafter]) (by simp [hafter]) (by simp [hafter])
    (iff_of_true hmem (.inr ⟨_, hafter⟩)) (horder ▸ h.standing.nodup) (.inl horder),
    by simpa [hmachine, release] using h.kept, ?_⟩
  have hrun : (jobs job).work.run (inTurn path jobs front base).2.files =
      (result, c.machine.files) := hbusy.resumes.symm
  obtain ⟨hkept, hfree⟩ := hturns front
  have halone := alone_of_kept hreliable (jobs job) hkept hfree
  rw [hrun] at halone
  refine .inl ⟨fun other hworking => ?_, ?_, ?_⟩
  · by_cases hother : other = job
    · obtain ⟨_, _, hworking⟩ := hworking
      rw [hother, hafter] at hworking
      cases hworking
    · exact hbusy.others other hother (hagree other hother ▸ hworking)
  · rw [horder, hbusy.order, inTurn_append_single, halone]
    exact List.rel_append (hagree.hasResults hjob hbusy.results) (.cons ⟨result, rfl, hafter⟩ .nil)
  · rw [hmachine, horder, hbusy.order, inTurn_append_single, halone,
      congrArg (release ⟨path, file⟩) hbusy.machine]
    simp [release, LockTable.release, hfree, LockTable.empty]

variable [DecidableEq ι]

theorem move (h : IsOpened path jobs Kept base file c) (hreliable : IsReliable path m.files Kept)
    (hkeeps : ∀ job, (jobs job).work.Keeps (Kept file))
    (hturns : ∀ order, Kept file (inTurn path jobs order base).2.files ∧
      (inTurn path jobs order base).2.locks = .empty) (move : Move ι) :
    IsOpened path jobs Kept base file (c.move path jobs move) := by
  have hmoves := c.move_moves path jobs move
  generalize c.move path jobs move = c' at hmoves ⊢
  have hagain := hreliable.again h.kept
  cases hmoves with
  | stays => exact h
  | @opens job number files hidle hopen =>
      rw [hagain] at hopen
      cases hopen
      have hbefore : ¬ (c.stage job).IsServed := by rw [hidle]; exact not_isServed_idle
      have hjob : job ∉ c.order := fun hmem => hbefore ((h.standing.mem_order job).mp hmem)
      have hagree := agreesBut_update c c.machine job (.waiting file) c.order
      have hafter : ¬ (Function.update c.stage job (.waiting file) job).IsServed := by
        rw [Function.update_self]
        exact not_isServed_waiting
      exact h.of_unserved hagree rfl rfl hbefore hafter (h.standing.of_agreesBut hagree (by simp)
        (by simp) (by simp) (iff_of_false hjob hafter) h.standing.nodup (.inl rfl))
  | fails hidle hopen =>
      rw [hagain] at hopen
      cases hopen
  | @locks job number hwaiting hheld =>
      obtain rfl := h.standing.waiting job number hwaiting
      have hbefore : ¬ (c.stage job).IsServed := by rw [hwaiting]; exact not_isServed_waiting
      exact h.of_locked (agreesBut_update c _ _ _ _) rfl rfl hbefore (Function.update_self ..) hheld
        (hkeeps job) (hturns c.order).2
  | @givesUp job number limit hwaiting hlimit hheld =>
      have hbefore : ¬ (c.stage job).IsServed := by rw [hwaiting]; exact not_isServed_waiting
      have hjob : job ∉ c.order := fun hmem => hbefore ((h.standing.mem_order job).mp hmem)
      have hagree := agreesBut_update c c.machine job (.refused (.timedOut path limit)) c.order
      have hafter :
          ¬ (Function.update c.stage job (.refused (.timedOut path limit)) job).IsServed := by
        rw [Function.update_self]
        exact not_isServed_refused
      have hnonempty : c.order ≠ [] := by
        rcases h.state with hresting | ⟨front, worker, rest, hbusy⟩
        · rw [hresting.machine, (hturns c.order).2] at hheld
          cases hheld
        · simp [hbusy.order]
      refine h.of_unserved hagree rfl rfl hbefore hafter (h.standing.of_agreesBut hagree (by simp)
        (by simp) ?_ (iff_of_false hjob hafter) h.standing.nodup (.inl rfl))
      intro e he
      simp only [Function.update_self] at he
      cases he
      exact ⟨hnonempty, limit, hlimit, rfl⟩
  | works hworking =>
      exact h.of_worked (agreesBut_update c _ _ _ _) rfl rfl hworking (Function.update_self ..)
  | releases hworking =>
      exact h.of_released (agreesBut_update c _ _ _ _) rfl rfl hworking (Function.update_self ..)
        hreliable hturns

end IsOpened

/-! ## Whole schedules -/

inductive HasProgress (path : Path) (jobs : ι → Job β) (Kept : Nat → FileSystem → Prop)
    (m : Machine ρ) (c : Crew ρ ι β) : Prop where
  | untouched (hmachine : c.machine = m) (horder : c.order = [])
      (hstage : ∀ job, c.stage job = .idle ∨ ∃ e, c.stage job = .refused e ∧
        (openLockFile path).outcome m.files = (.error e, m.files))
  | opened {file : Nat} {files : FileSystem}
      (hopen : (openLockFile path).outcome m.files = (.ok file, files))
      (hopened : IsOpened path jobs Kept { m with files } file c)

theorem isOpened_of_first (hfirst : c.stage job = .waiting file)
    (hothers : ∀ other, other ≠ job → c.stage other = .idle) (horder : c.order = [])
    (hmachine : c.machine = base) (hkept : Kept file base.files) :
    IsOpened path jobs Kept base file c := by
  have hstage : ∀ other, c.stage other = .idle ∨ c.stage other = .waiting file := by
    intro other
    by_cases hother : other = job
    · exact .inr (hother ▸ hfirst)
    · exact .inl (hothers other hother)
  have hunserved : ∀ other, ¬ (c.stage other).IsServed := by
    intro other
    rcases hstage other with h | h
    · exact h ▸ not_isServed_idle
    · exact h ▸ not_isServed_waiting
  refine ⟨⟨⟨job, by simp [hfirst]⟩, fun other number hnumber => ?_, fun other e he => ?_,
    fun other => iff_of_false (by simp [horder]) (hunserved other), by simp [horder]⟩,
    hmachine ▸ hkept, .inl ⟨fun other hworking => hunserved other (.inl hworking), ?_, ?_⟩⟩
  · rcases hstage other with h | h <;> rw [h] at hnumber <;> cases hnumber
    rfl
  · rcases hstage other with h | h <;> rw [h] at he <;> cases he
  · rw [horder]
    exact .nil
  · rw [horder]
    exact hmachine

theorem hasProgress_start : HasProgress path jobs Kept m (Crew.start m : Crew ρ ι β) :=
  .untouched rfl rfl fun _ => .inl rfl

theorem order_prefix_move [DecidableEq ι] (path : Path) (jobs : ι → Job β) (c : Crew ρ ι β)
    (move : Move ι) : c.order <+: (c.move path jobs move).order := by
  have hmoves := c.move_moves path jobs move
  generalize c.move path jobs move = c' at hmoves ⊢
  cases hmoves with
  | locks => exact List.prefix_append _ _
  | _ => exact List.prefix_rfl

theorem order_prefix_after [DecidableEq ι] (path : Path) (jobs : ι → Job β)
    (schedule : List (Move ι)) (c : Crew ρ ι β) :
    c.order <+: (Crew.after path jobs schedule c).order := by
  induction schedule generalizing c with
  | nil => exact List.prefix_rfl
  | cons move rest ih => exact (order_prefix_move path jobs c move).trans (ih _)

/-- What the jobs of a crew come to, at any time. -/
structure IsSerial (path : Path) (jobs : ι → Job β) (m : Machine ρ) (c : Crew ρ ι β) : Prop where
  nodup : c.order.Nodup
  mem_order : ∀ job, job ∈ c.order ↔ (c.stage job).IsServed
  exclusive : ∀ job other, (c.stage job).IsWorking → (c.stage other).IsWorking → job = other
  held : ∀ job lock rest, c.stage job = .working lock rest → c.machine.locks.held = [lock.file]
  free : (∀ job, ¬ (c.stage job).IsWorking) → c.machine.locks = .empty
  serial : (∀ job, c.stage job = .idle ∨ (c.stage job).IsOver) →
    c.machine = (inTurn path jobs c.order m).2 ∧
      List.Forall₂ (fun job result => (c.stage job).HasResult result) c.order
        (inTurn path jobs c.order m).1
  refused : ∀ job e, c.stage job = .refused e →
    (openLockFile path).outcome m.files = (.error e, m.files) ∨
      ∃ limit, (jobs job).wait = .timeout limit ∧ e = .timedOut path limit

section Schedules

variable [DecidableEq ι] (hreliable : IsReliable path m.files Kept)
  (hkeeps : ∀ file job, (jobs job).work.Keeps (Kept file)) (hfree : m.locks = .empty)

include hreliable hkeeps hfree

theorem HasProgress.move (h : HasProgress path jobs Kept m c) (move : Move ι) :
    HasProgress path jobs Kept m (c.move path jobs move) := by
  cases h with
  | @opened file files hopen hopened =>
      exact .opened hopen (hopened.move hreliable (hkeeps file)
        (inTurn_keeps hreliable (hkeeps file) (hreliable.opens hopen) hfree) move)
  | untouched hmachine horder hstage =>
      have hmoves := c.move_moves path jobs move
      generalize c.move path jobs move = c' at hmoves ⊢
      cases hmoves with
      | stays => exact .untouched hmachine horder hstage
      | @opens job file files hidle hopen =>
          rw [hmachine] at hopen
          have hagree := agreesBut_update c { c.machine with files } job (.waiting file) c.order
          have hothers : ∀ other, other ≠ job →
              Function.update c.stage job (.waiting file) other = .idle := by
            intro other hother
            rcases hstage other with hidle' | ⟨e, -, hfails⟩
            · rw [← hidle']
              exact hagree other hother
            · rw [hopen] at hfails
              cases hfails
          -- Nobody was refused while the file could be opened, so all others are idle still.
          exact .opened hopen (isOpened_of_first (Function.update_self ..) hothers horder
            (by simp [hmachine]) (hreliable.opens hopen))
      | @fails job e files hidle hopen =>
          rw [hmachine] at hopen
          obtain rfl := hreliable.fails hopen
          refine .untouched (by simp [hmachine]) horder fun other => ?_
          by_cases hother : other = job
          · exact .inr ⟨e, by simp [hother], hopen⟩
          · simpa [Function.update_of_ne hother] using hstage other
      | @locks job file hwaiting | @givesUp job file limit hwaiting
        | @works job lock change next hwaiting | @releases job lock result hwaiting =>
          rcases hstage job with hidle | ⟨e, hrefused, -⟩
          · rw [hidle] at hwaiting
            cases hwaiting
          · rw [hrefused] at hwaiting
            cases hwaiting

theorem hasProgress_after (schedule : List (Move ι)) :
    HasProgress path jobs Kept m (Crew.after path jobs schedule (Crew.start m)) := by
  suffices h : ∀ c : Crew ρ ι β, HasProgress path jobs Kept m c →
      HasProgress path jobs Kept m (Crew.after path jobs schedule c) from h _ hasProgress_start
  induction schedule with
  | nil => exact fun c hc => hc
  | cons move rest ih => exact fun c hc => ih _ (hc.move hreliable hkeeps hfree move)

omit [DecidableEq ι] hreliable hkeeps in
theorem isSerial_of_untouched (hmachine : c.machine = m) (horder : c.order = [])
    (hstage : ∀ job, c.stage job = .idle ∨ ∃ e, c.stage job = .refused e ∧
      (openLockFile path).outcome m.files = (.error e, m.files)) :
    IsSerial path jobs m c := by
  have hunserved : ∀ job, ¬ (c.stage job).IsServed := by
    intro job
    rcases hstage job with h | ⟨e, h, -⟩
    · exact h ▸ not_isServed_idle
    · exact h ▸ not_isServed_refused
  exact {
    nodup := by simp [horder]
    mem_order := fun job => iff_of_false (by simp [horder]) (hunserved job)
    exclusive := fun job _ hworking => absurd (.inl hworking) (hunserved job)
    held := fun job lock rest hworking => absurd (.inl ⟨_, _, hworking⟩) (hunserved job)
    free := fun _ => by rw [hmachine, hfree]
    serial := fun _ => ⟨by rw [hmachine, horder]; rfl, by rw [horder]; exact .nil⟩
    refused := by
      intro job e he
      rcases hstage job with h | ⟨e', h, hopen⟩
      · rw [h] at he
        cases he
      · rw [h] at he
        cases he
        exact .inl hopen }

omit [DecidableEq ι] in
theorem IsOpened.isSerial {file : Nat} {files : FileSystem}
    (hopened : IsOpened path jobs Kept { m with files } file c)
    (hopen : (openLockFile path).outcome m.files = (.ok file, files)) :
    IsSerial path jobs m c where
  nodup := hopened.standing.nodup
  mem_order := hopened.standing.mem_order
  exclusive := by
    rintro job other ⟨lock, rest, hjob⟩ ⟨lock', rest', hother⟩
    obtain ⟨-, front, hbusy, -⟩ := hopened.exists_isBusy hjob
    by_contra hne
    exact hbusy.others other (Ne.symm hne) ⟨_, _, hother⟩
  held := by
    intro job lock rest hworking
    obtain ⟨rfl, front, hbusy, -⟩ := hopened.exists_isBusy hworking
    rw [hbusy.machine]
  free := by
    intro hnobody
    rcases hopened.state with hresting | ⟨front, job, rest, hbusy⟩
    · have hkept : Kept file ({ m with files } : Machine ρ).files := hreliable.opens hopen
      rw [hresting.machine, (inTurn_keeps hreliable (hkeeps file) hkept hfree c.order).2]
    · exact absurd ⟨_, _, hbusy.working⟩ (hnobody job)
  serial := by
    intro hover
    have hnobody : ∀ job, ¬ (c.stage job).IsWorking := by
      rintro job ⟨lock, rest, hworking⟩
      rcases hover job with h | ⟨e, h⟩ | ⟨result, h⟩ <;> rw [hworking] at h <;> cases h
    rcases hopened.state with hresting | ⟨front, job, rest, hbusy⟩
    · -- Whoever came first has opened the lock file, so `inTurn` may find it open already.
      rw [inTurn_eq hreliable hopen hfree (hopened.standing.order_ne_nil hover)]
      exact ⟨hresting.machine, hresting.results⟩
    · exact absurd ⟨_, _, hbusy.working⟩ (hnobody job)
  refused := fun job e he => .inr (hopened.standing.refused job e he).2

/-- At any time the jobs that have got the lock have run one after the other. -/
theorem crew_isSerial (schedule : List (Move ι)) :
    IsSerial path jobs m (Crew.after path jobs schedule (Crew.start m)) := by
  have hprogress := hasProgress_after hreliable hkeeps hfree schedule
  generalize Crew.after path jobs schedule (Crew.start m) = c at hprogress
  cases hprogress with
  | untouched hmachine horder hstage => exact isSerial_of_untouched hfree hmachine horder hstage
  | opened hopen hopened => exact hopened.isSerial hreliable hkeeps hfree hopen

theorem HasProgress.opens_move (h : HasProgress path jobs Kept m c) {number : Nat}
    (hopens : Opens c.machine.files path number) (move : Move ι) :
    Opens (c.move path jobs move).machine.files path number := by
  cases h with
  | @opened file files hopen hopened =>
      have hkept : Kept file ({ m with files } : Machine ρ).files := hreliable.opens hopen
      have hturns := inTurn_keeps hreliable (hkeeps file) hkept hfree
      have hmoved := hopened.move hreliable (hkeeps file) hturns move
      obtain rfl := hopens.unique (openLockFile_opens (hreliable.again hopened.kept))
      exact openLockFile_opens (hreliable.again hmoved.kept)
  | untouched hmachine horder hstage =>
      have hmoves := c.move_moves path jobs move
      generalize c.move path jobs move = c' at hmoves ⊢
      cases hmoves with
      | opens hidle hopen => exact hopens.of_accrues (openLockFile_accrues hopen)
      | fails hidle hopen => exact hopens.of_accrues (openLockFile_accrues hopen)
      | @works job lock change next hworking =>
          rcases hstage job with hidle | ⟨e, hrefused, -⟩
          · rw [hidle] at hworking
            cases hworking
          · rw [hrefused] at hworking
            cases hworking
      | _ => exact hopens

theorem opens_after (front rest : List (Move ι)) {number : Nat}
    (hopens : Opens (Crew.after path jobs front (Crew.start m)).machine.files path number) :
    Opens (Crew.after path jobs (front ++ rest) (Crew.start m)).machine.files path number := by
  have hprogress := hasProgress_after hreliable hkeeps hfree front
  rw [Crew.after_append]
  generalize Crew.after path jobs front (Crew.start m) = c at hopens hprogress
  induction rest generalizing c with
  | nil => exact hopens
  | cons move rest ih =>
      exact ih _ (hprogress.opens_move hreliable hkeeps hfree hopens move)
        (hprogress.move hreliable hkeeps hfree move)

theorem not_isWorking_of_refused (front rest : List (Move ι)) {error : LockError}
    (h : (Crew.after path jobs (front ++ rest) (Crew.start m)).stage job = .refused error) :
    ¬ ((Crew.after path jobs front (Crew.start m)).stage job).IsWorking := by
  intro hworking
  have hbefore := crew_isSerial hreliable hkeeps hfree front
  have hafter := crew_isSerial hreliable hkeeps hfree (front ++ rest)
  have hmem := (hbefore.mem_order job).mpr (.inl hworking)
  have hlonger := order_prefix_after path jobs rest (Crew.after path jobs front (Crew.start m))
  rw [← Crew.after_append] at hlonger
  have hserved := (hafter.mem_order job).mp (hlonger.subset hmem)
  rw [h] at hserved
  exact not_isServed_refused hserved

end Schedules

end CacheUpkeep.Lock
