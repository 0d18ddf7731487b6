import CacheUpkeep.Proofs.Lock.Jobs
import CacheUpkeep.Proofs.Pieces

/-!
# Jobs that work under a lock

Jobs of one machine open a lock file, lock it, do their work piece by piece and release
the lock, in any order of moves.  A job that has not got the lock in time gives up.
-/

namespace CacheUpkeep.Lock

open CacheUpkeep.FileSystem

/-- How long a job waits for the lock, and what it does under it. -/
structure Job (β : Type) where
  wait : LockWait
  work : Pieces FileSystem β

inductive Stage (β : Type) where
  | idle
  | waiting (file : Nat)
  | working (lock : CacheLock) (rest : Pieces FileSystem β)
  | refused (error : LockError)
  | ended (result : β)

/-- A machine, where its jobs stand, and those that have got the lock, in that order. -/
structure Crew (ρ ι β : Type) where
  machine : Machine ρ
  stage : ι → Stage β
  order : List ι

inductive Move (ι : Type) where
  | openFile (job : ι)
  | lockFile (job : ι)
  | giveUp (job : ι)
  | work (job : ι)
  | release (job : ι)
deriving DecidableEq, Repr

variable {ρ ι β : Type} {path : Path} {jobs : ι → Job β} {m : Machine ρ} {c : Crew ρ ι β}
  {job other : ι} {file : Nat} {lock : CacheLock} {error : LockError} {result : β}
  {rest : Pieces FileSystem β}

def Stage.IsWorking (stage : Stage β) : Prop :=
  ∃ lock rest, stage = .working lock rest

/-- The job has got the lock, and may have released it. -/
def Stage.IsServed (stage : Stage β) : Prop :=
  stage.IsWorking ∨ ∃ result, stage = .ended result

/-- The job makes no more moves. -/
def Stage.IsOver (stage : Stage β) : Prop :=
  (∃ error, stage = .refused error) ∨ ∃ result, stage = .ended result

namespace Crew

def start (m : Machine ρ) : Crew ρ ι β :=
  ⟨m, fun _ => .idle, []⟩

variable [DecidableEq ι]

/-- One move; a job that can not make it stays where it stands. -/
def move (path : Path) (jobs : ι → Job β) (c : Crew ρ ι β) : Move ι → Crew ρ ι β
  | .openFile job =>
      match c.stage job with
      | .idle =>
          match (Machine.onFiles (openLockFile path)).outcome c.machine with
          | (.ok file, machine) => ⟨machine, Function.update c.stage job (.waiting file), c.order⟩
          | (.error e, machine) => ⟨machine, Function.update c.stage job (.refused e), c.order⟩
      | _ => c
  | .lockFile job =>
      match c.stage job with
      | .waiting file =>
          match c.machine.locks.take? file with
          | some locks =>
              ⟨{ c.machine with locks },
                Function.update c.stage job (.working ⟨path, file⟩ (jobs job).work),
                c.order ++ [job]⟩
          | none => c
      | _ => c
  | .giveUp job =>
      match c.stage job, (jobs job).wait with
      | .waiting file, .timeout limit =>
          if c.machine.locks.isHeld file then
            ⟨c.machine, Function.update c.stage job (.refused (.timedOut path limit)), c.order⟩
          else c
      | _, _ => c
  | .work job =>
      match c.stage job with
      | .working lock (.piece change next) =>
          ⟨{ c.machine with files := change c.machine.files },
            Function.update c.stage job (.working lock (next c.machine.files)), c.order⟩
      | _ => c
  | .release job =>
      match c.stage job with
      | .working lock (.done result) =>
          ⟨Lock.release lock c.machine, Function.update c.stage job (.ended result), c.order⟩
      | _ => c

def after (path : Path) (jobs : ι → Job β) (schedule : List (Move ι)) (c : Crew ρ ι β) :
    Crew ρ ι β :=
  schedule.foldl (move path jobs) c

theorem after_append (path : Path) (jobs : ι → Job β) (front rest : List (Move ι))
    (c : Crew ρ ι β) :
    after path jobs (front ++ rest) c = after path jobs rest (after path jobs front c) :=
  List.foldl_append

/-! ## Moves that are made -/

section Made

variable {places : ι → Stage β} {order : List ι}

theorem move_openFile {files : FileSystem} (hidle : places job = .idle)
    (hopen : (openLockFile path).outcome m.files = (.ok file, files)) :
    move path jobs ⟨m, places, order⟩ (.openFile job) =
      ⟨{ m with files }, Function.update places job (.waiting file), order⟩ := by
  simp only [move, hidle, onFiles_outcome, hopen]

theorem move_lockFile (hwaiting : places job = .waiting file) (hfree : file ∉ m.locks.held) :
    move path jobs ⟨m, places, order⟩ (.lockFile job) =
      ⟨{ m with locks := ⟨file :: m.locks.held⟩ },
        Function.update places job (.working ⟨path, file⟩ (jobs job).work), order ++ [job]⟩ := by
  simp only [move, hwaiting, take?_of_not_mem hfree]

theorem move_giveUp {limit : Nat} (hwaiting : places job = .waiting file)
    (hlimit : (jobs job).wait = .timeout limit) (hheld : file ∈ m.locks.held) :
    move path jobs ⟨m, places, order⟩ (.giveUp job) =
      ⟨m, Function.update places job (.refused (.timedOut path limit)), order⟩ := by
  simp [move, hwaiting, hlimit, LockTable.isHeld, hheld]

theorem move_work {change : FileSystem → FileSystem} {next : FileSystem → Pieces FileSystem β}
    (hworking : places job = .working lock (.piece change next)) :
    move path jobs ⟨m, places, order⟩ (.work job) =
      ⟨{ m with files := change m.files },
        Function.update places job (.working lock (next m.files)), order⟩ := by
  simp only [move, hworking]

theorem move_release (hworking : places job = .working lock (.done result)) :
    move path jobs ⟨m, places, order⟩ (.release job) =
      ⟨Lock.release lock m, Function.update places job (.ended result), order⟩ := by
  simp only [move, hworking]

theorem exists_worked (path : Path) (jobs : ι → Job β) (m : Machine ρ) (order : List ι)
    (hworking : places job = .working lock rest) :
    ∃ pieces, after path jobs (List.replicate pieces (.work job)) ⟨m, places, order⟩ =
      ⟨{ m with files := (rest.run m.files).2 },
        Function.update places job (.working lock (.done (rest.run m.files).1)), order⟩ := by
  induction rest generalizing m places with
  | done result =>
      refine ⟨0, ?_⟩
      simp only [List.replicate_zero, after, List.foldl_nil, Pieces.run, ← hworking,
        Function.update_eq_self]
  | piece change next ih =>
      obtain ⟨pieces, hafter⟩ := ih m.files { m with files := change m.files }
        (Function.update_self job (.working lock (next m.files)) places)
      refine ⟨pieces + 1, ?_⟩
      rw [List.replicate_succ, after, List.foldl_cons, move_work hworking]
      rw [after] at hafter
      rw [hafter]
      simp only [Function.update_idem, Pieces.run]

theorem exists_workDone {files left : FileSystem} (hfree : m.locks = .empty)
    (hopen : (openLockFile path).outcome m.files = (.ok file, files))
    (hrun : (jobs job).work.run files = (result, left)) :
    ∃ schedule, after path jobs schedule (start m) =
      ⟨{ m with files := left, locks := ⟨[file]⟩ },
        Function.update (fun _ => .idle) job (.working ⟨path, file⟩ (.done result)), [job]⟩ := by
  have hnotHeld : file ∉ ({ m with files } : Machine ρ).locks.held := by
    simp [hfree, LockTable.empty]
  have hlocked : after path jobs [.openFile job, .lockFile job] (start m) =
      ⟨{ m with files, locks := ⟨[file]⟩ },
        Function.update (fun _ => .idle) job (.working ⟨path, file⟩ (jobs job).work), [job]⟩ := by
    rw [start, after, List.foldl_cons, move_openFile rfl hopen, List.foldl_cons,
      move_lockFile (Function.update_self ..) hnotHeld, List.foldl_nil, Function.update_idem]
    simp [hfree, LockTable.empty]
  obtain ⟨pieces, hworked⟩ := exists_worked path jobs
    ({ m with files, locks := ⟨[file]⟩ } : Machine ρ) [job]
    (Function.update_self job (Stage.working ⟨path, file⟩ (jobs job).work) fun _ => Stage.idle)
  refine ⟨[.openFile job, .lockFile job] ++ List.replicate pieces (.work job), ?_⟩
  rw [after_append, hlocked, hworked, hrun, Function.update_idem]

/-- A job opens the lock file when another one has done its work, and gives up. -/
theorem exists_overlap {files left big : FileSystem} {limit : Nat} (hne : other ≠ job)
    (hfree : m.locks = .empty) (hopen : (openLockFile path).outcome m.files = (.ok file, files))
    (hrun : (jobs job).work.run files = (result, left))
    (hagain : (openLockFile path).outcome left = (.ok file, big))
    (hlimit : (jobs other).wait = .timeout limit) :
    ∃ schedule, after path jobs schedule (start m) =
      ⟨{ m with files := big }, Function.update (Function.update (fun _ => .idle) other
        (.refused (.timedOut path limit))) job (.ended result), [job]⟩ := by
  obtain ⟨schedule, hdone⟩ := exists_workDone hfree hopen hrun
  refine ⟨schedule ++ [.openFile other, .giveUp other, .release job], ?_⟩
  rw [after_append, hdone, after, List.foldl_cons,
    move_openFile (Function.update_of_ne hne ..) hagain, List.foldl_cons,
    move_giveUp (Function.update_self ..) hlimit (by simp), Function.update_idem, List.foldl_cons,
    Function.update_comm hne.symm, move_release (Function.update_self ..), List.foldl_nil,
    Function.update_idem]
  simp [Lock.release, LockTable.release, hfree, LockTable.empty]

/-- A job opens the lock file when another one has done its work, and locks it after that one. -/
theorem exists_succession {files left last : FileSystem} {result' : β} (hne : other ≠ job)
    (hfree : m.locks = .empty) (hopen : (openLockFile path).outcome m.files = (.ok file, files))
    (hrun : (jobs job).work.run files = (result, left))
    (hagain : (openLockFile path).outcome left = (.ok file, left))
    (hrun' : (jobs other).work.run left = (result', last)) :
    ∃ schedule, after path jobs schedule (start m) =
      ⟨{ m with files := last }, Function.update (Function.update (fun _ => .idle) job
        (.ended result)) other (.ended result'), [job, other]⟩ := by
  obtain ⟨schedule, hdone⟩ := exists_workDone hfree hopen hrun
  have hlocked : after path jobs [.openFile other, .release job, .lockFile other]
      ⟨{ m with files := left, locks := ⟨[file]⟩ },
        Function.update (fun _ => .idle) job (.working ⟨path, file⟩ (.done result)), [job]⟩ =
      ⟨{ m with files := left, locks := ⟨[file]⟩ },
        Function.update (Function.update (fun _ => .idle) job (.ended result)) other
          (.working ⟨path, file⟩ (jobs other).work), [job, other]⟩ := by
    rw [after, List.foldl_cons, move_openFile (Function.update_of_ne hne ..) hagain,
      List.foldl_cons, Function.update_comm hne.symm, move_release (Function.update_self ..),
      Function.update_idem, Function.update_comm hne, List.foldl_cons,
      move_lockFile (Function.update_self ..) (by simp [Lock.release, LockTable.release]),
      List.foldl_nil, Function.update_idem]
    simp [Lock.release, LockTable.release]
  obtain ⟨pieces, hworked⟩ := exists_worked path jobs
    ({ m with files := left, locks := ⟨[file]⟩ } : Machine ρ) [job, other]
    (Function.update_self other (Stage.working ⟨path, file⟩ (jobs other).work)
      (Function.update (fun _ => Stage.idle) job (Stage.ended result)))
  refine ⟨schedule ++ ([.openFile other, .release job, .lockFile other] ++
    (List.replicate pieces (.work other) ++ [.release other])), ?_⟩
  rw [after_append, after_append, after_append, hdone, hlocked, hworked, hrun',
    Function.update_idem, after, List.foldl_cons, move_release (Function.update_self ..),
    List.foldl_nil, Function.update_idem]
  simp [Lock.release, LockTable.release, hfree, LockTable.empty]

end Made

/-! ## What a move can do -/

inductive Moves (path : Path) (jobs : ι → Job β) (c : Crew ρ ι β) : Crew ρ ι β → Prop where
  | stays : Moves path jobs c c
  | opens {job : ι} {file : Nat} {files : FileSystem} (hidle : c.stage job = .idle)
      (hopen : (openLockFile path).outcome c.machine.files = (.ok file, files)) :
      Moves path jobs c
        ⟨{ c.machine with files }, Function.update c.stage job (.waiting file), c.order⟩
  | fails {job : ι} {error : LockError} {files : FileSystem} (hidle : c.stage job = .idle)
      (hopen : (openLockFile path).outcome c.machine.files = (.error error, files)) :
      Moves path jobs c
        ⟨{ c.machine with files }, Function.update c.stage job (.refused error), c.order⟩
  | locks {job : ι} {file : Nat} (hwaiting : c.stage job = .waiting file)
      (hfree : file ∉ c.machine.locks.held) :
      Moves path jobs c
        ⟨{ c.machine with locks := ⟨file :: c.machine.locks.held⟩ },
          Function.update c.stage job (.working ⟨path, file⟩ (jobs job).work), c.order ++ [job]⟩
  | givesUp {job : ι} {file limit : Nat} (hwaiting : c.stage job = .waiting file)
      (hlimit : (jobs job).wait = .timeout limit) (hheld : file ∈ c.machine.locks.held) :
      Moves path jobs c
        ⟨c.machine, Function.update c.stage job (.refused (.timedOut path limit)), c.order⟩
  | works {job : ι} {lock : CacheLock} {change : FileSystem → FileSystem}
      {next : FileSystem → Pieces FileSystem β}
      (hworking : c.stage job = .working lock (.piece change next)) :
      Moves path jobs c
        ⟨{ c.machine with files := change c.machine.files },
          Function.update c.stage job (.working lock (next c.machine.files)), c.order⟩
  | releases {job : ι} {lock : CacheLock} {result : β}
      (hworking : c.stage job = .working lock (.done result)) :
      Moves path jobs c
        ⟨Lock.release lock c.machine, Function.update c.stage job (.ended result), c.order⟩

theorem move_moves (path : Path) (jobs : ι → Job β) (c : Crew ρ ι β) (move : Move ι) :
    Moves path jobs c (c.move path jobs move) := by
  cases move with
  | openFile job =>
      simp only [Crew.move]
      split
      · next hidle =>
          rw [onFiles_outcome]
          cases hopen : (openLockFile path).outcome c.machine.files with
          | mk result files =>
              cases result with
              | ok file => exact .opens hidle hopen
              | error error => exact .fails hidle hopen
      · exact .stays
  | lockFile job =>
      simp only [Crew.move]
      split
      · next file hwaiting =>
          by_cases hheld : file ∈ c.machine.locks.held
          · simp only [take?_of_mem hheld]
            exact .stays
          · simp only [take?_of_not_mem hheld]
            exact .locks hwaiting hheld
      · exact .stays
  | giveUp job =>
      simp only [Crew.move]
      split
      · next file limit hwaiting hlimit =>
          split
          · next hheld =>
              exact .givesUp hwaiting hlimit (by simpa [LockTable.isHeld] using hheld)
          · exact .stays
      · exact .stays
  | work job =>
      simp only [Crew.move]
      split
      · next hworking => exact .works hworking
      · exact .stays
  | release job =>
      simp only [Crew.move]
      split
      · next hworking => exact .releases hworking
      · exact .stays

end Crew

end CacheUpkeep.Lock
