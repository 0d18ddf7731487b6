import CacheUpkeep.Command.Basic
import CacheUpkeep.Machine
import CacheUpkeep.Proofs.Outcome

/-!
# Calls of commands

A recorded runner keeps a list of all commands that are run, each with what came of
it and with what it was run on.  An action is traced if it does the same on a machine
with such a list as on one without and adds its calls to the list.  An action that
follows a plan of commands runs one after the other until one fails.
-/

namespace CacheUpkeep

open CacheUpkeep.Text

/-- A command with what came of it, the files that it found and the files that were locked. -/
structure Call where
  command : Command
  result : Except CommandError CommandOutput
  files : FileSystem
  locked : List Nat

/-- A call fails without an output, or if its command did not end with exit code zero. -/
def Call.failure? (call : Call) : Option CommandError :=
  match call.result with
  | .error e => some e
  | .ok o =>
      if o.code = some 0 then none
      else some (.failed call.command.line o.code (trim o.stderr))

theorem Call.failure?_of_ok {call : Call} {o : CommandOutput}
    (h : call.result.bind (CommandRunner.check call.command) = .ok o) : call.failure? = none := by
  obtain ⟨command, result, files, locked⟩ := call
  cases result with
  | error e => cases h
  | ok found =>
      have hcode : found.code = some 0 := by
        by_contra hcode
        simp [Except.bind, CommandRunner.check, CommandOutput.isSuccess, hcode] at h
      exact if_pos hcode

theorem Call.failure?_of_error {call : Call} {e : CommandError}
    (h : call.result.bind (CommandRunner.check call.command) = .error e) :
    call.failure? = some e := by
  obtain ⟨command, result, files, locked⟩ := call
  cases result with
  | error e' =>
      cases h
      rfl
  | ok found =>
      by_cases hcode : found.code = some 0
      · simp [Except.bind, CommandRunner.check, CommandOutput.isSuccess, hcode] at h
      · simp only [Except.bind, CommandRunner.check, CommandOutput.isSuccess, hcode,
          decide_false, Bool.false_eq_true, if_false, Except.error.injEq] at h
        rw [← h]
        exact if_neg hcode

variable {ρ ε δ α β : Type}

def Machine.withLog (m : Machine ρ) (log : List Call) : Machine (ρ × List Call) :=
  { m with runner := (m.runner, log) }

def Machine.withoutLog (m : Machine (ρ × List Call)) : Machine ρ :=
  { m with runner := m.runner.1 }

/-- The runner that keeps a list of its calls, also of those that fail. -/
def CommandRunner.recorded (runner : CommandRunner (Machine ρ)) :
    CommandRunner (Machine (ρ × List Call)) where
  run c := Action.ofOutcome fun m =>
    let (r, after) := (runner.run c).outcome m.withoutLog
    (r, after.withLog (m.runner.2 ++ [⟨c, r, m.files, m.locks.held⟩]))
  locate program m := runner.locate program m.withoutLog

/-- No command takes or releases a lock of the machine. -/
def CommandRunner.KeepsLocks (runner : CommandRunner (Machine ρ)) : Prop :=
  ∀ c m, ((runner.run c).outcome m).2.locks = m.locks

variable {runner : CommandRunner (Machine ρ)} {m after last : Machine ρ}
  {plan plan' : List Command} {calls calls' : List Call} {failure : Option CommandError}

theorem CommandRunner.keepsLocks_within (runner : CommandRunner ρ) :
    (runner.within Machine.runner fun r (m : Machine ρ) => { m with runner := r }).KeepsLocks :=
  fun _ _ => rfl

/-! ## Traced actions -/

/-- `y` on a recorded machine does what `x` does on a plain one, and adds the calls. -/
structure Traced (x : Action (Machine ρ) ε α) (y : Action (Machine (ρ × List Call)) ε α)
    (m : Machine ρ) (r : Except ε α) (after : Machine ρ) (calls : List Call) : Prop where
  plain : x.outcome m = (r, after)
  recorded : ∀ log, y.outcome (m.withLog log) = (r, after.withLog (log ++ calls))

namespace Traced

variable {x : Action (Machine ρ) ε α} {y : Action (Machine (ρ × List Call)) ε α}
  {f : α → Action (Machine ρ) ε β} {g : α → Action (Machine (ρ × List Call)) ε β}
  {r : Except ε β} {a : α} {e : ε}

theorem pure (a : α) (m : Machine ρ) :
    Traced (Pure.pure a : Action (Machine ρ) ε α) (Pure.pure a) m (.ok a) m [] where
  plain := rfl
  recorded log := by rw [List.append_nil, Action.outcome_pure]

theorem bind_ok (h : Traced x y m (.ok a) after calls)
    (hnext : Traced (f a) (g a) after r last calls') :
    Traced (x >>= f) (y >>= g) m r last (calls ++ calls') where
  plain := by rw [Action.outcome_bind_ok h.plain, hnext.plain]
  recorded log := by
    rw [Action.outcome_bind_ok (h.recorded log), hnext.recorded, List.append_assoc]

theorem bind_error (h : Traced x y m (.error e) after calls) :
    Traced (x >>= f) (y >>= g) m (.error e) after calls where
  plain := Action.outcome_bind_error h.plain
  recorded log := Action.outcome_bind_error (h.recorded log)

theorem mapError_ok (wrap : ε → δ) (h : Traced x y m (.ok a) after calls) :
    Traced (Action.mapError wrap x) (Action.mapError wrap y) m (.ok a) after calls where
  plain := Action.outcome_mapError_ok h.plain
  recorded log := Action.outcome_mapError_ok (h.recorded log)

theorem mapError_error (wrap : ε → δ) (h : Traced x y m (.error e) after calls) :
    Traced (Action.mapError wrap x) (Action.mapError wrap y) m (.error (wrap e)) after calls where
  plain := Action.outcome_mapError_error h.plain
  recorded log := Action.outcome_mapError_error (h.recorded log)

end Traced

/-! ## Plans -/

/-- The calls are those of the commands in order, up to the first one that fails. -/
inductive Issues : List Command → List Call → Option CommandError → Prop
  | done : Issues [] [] none
  | fails (plan : List Command) {call : Call} {e : CommandError}
      (hfails : call.failure? = some e) : Issues (call.command :: plan) [call] (some e)
  | next {plan : List Command} {call : Call} {calls : List Call} {failure : Option CommandError}
      (hsucceeds : call.failure? = none) (hrest : Issues plan calls failure) :
      Issues (call.command :: plan) (call :: calls) failure

namespace Issues

theorem append (h : Issues plan calls none) (h' : Issues plan' calls' failure) :
    Issues (plan ++ plan') (calls ++ calls') failure := by
  generalize hnone : (none : Option CommandError) = success at h
  induction h with
  | done => exact h'
  | fails _ _ => cases hnone
  | next hsucceeds _ ih => exact .next hsucceeds (ih hnone)

theorem append_fails {e : CommandError} (h : Issues plan calls (some e)) (plan' : List Command) :
    Issues (plan ++ plan') calls (some e) := by
  generalize hsome : some e = failure at h
  induction h with
  | done => cases hsome
  | fails plan hfails =>
      cases hsome
      exact .fails _ hfails
  | next hsucceeds _ ih => exact .next hsucceeds (ih hsome)

theorem commands_prefix (h : Issues plan calls failure) : calls.map Call.command <+: plan := by
  induction h with
  | done => exact List.prefix_rfl
  | fails plan _ => exact ⟨plan, rfl⟩
  | next _ _ ih => exact (List.prefix_cons_inj _).mpr ih

theorem commands_eq (h : Issues plan calls none) : calls.map Call.command = plan := by
  generalize hnone : (none : Option CommandError) = success at h
  induction h with
  | done => rfl
  | fails _ _ => cases hnone
  | next _ _ ih => exact congrArg (_ :: ·) (ih hnone)

end Issues

structure IssuedFrom (m : Machine ρ) (plan : List Command) (calls : List Call)
    (failure : Option CommandError) (after : Machine ρ) : Prop where
  issues : Issues plan calls failure
  locked : ∀ call ∈ calls, call.locked = m.locks.held
  first : ∀ call ∈ calls.head?, call.files = m.files
  unissued : calls = [] → after.files = m.files
  kept : after.locks = m.locks

namespace IssuedFrom

theorem append (h : IssuedFrom m plan calls none after)
    (h' : IssuedFrom after plan' calls' failure last) :
    IssuedFrom m (plan ++ plan') (calls ++ calls') failure last where
  issues := h.issues.append h'.issues
  locked call hcall := by
    rcases List.mem_append.mp hcall with hcall | hcall
    · exact h.locked call hcall
    · rw [h'.locked call hcall, h.kept]
  first call hcall := by
    cases calls with
    | nil => rw [h'.first call hcall, h.unissued rfl]
    | cons head tail => exact h.first call hcall
  unissued hnone := by
    obtain ⟨hcalls, hcalls'⟩ := List.append_eq_nil_iff.mp hnone
    rw [h'.unissued hcalls', h.unissued hcalls]
  kept := h'.kept.trans h.kept

theorem append_fails {e : CommandError} (h : IssuedFrom m plan calls (some e) after)
    (plan' : List Command) : IssuedFrom m (plan ++ plan') calls (some e) after :=
  { h with issues := h.issues.append_fails plan' }

end IssuedFrom

/-- The value of a plan that succeeded, or the failure that ended it. -/
def planned (wrap : CommandError → ε) (value : α) : Option CommandError → Except ε α
  | none => .ok value
  | some e => .error (wrap e)

/-- The action issues the commands of the plan, and has the value if all of them succeed. -/
def Follows (wrap : CommandError → ε) (x : Action (Machine ρ) ε α)
    (y : Action (Machine (ρ × List Call)) ε α) (plan : List Command) (value : α) : Prop :=
  ∀ m, ∃ calls failure after, Traced x y m (planned wrap value failure) after calls ∧
    IssuedFrom m plan calls failure after

namespace Follows

variable {wrap : CommandError → ε} {x : Action (Machine ρ) ε α}
  {y : Action (Machine (ρ × List Call)) ε α} {f : α → Action (Machine ρ) ε β}
  {g : α → Action (Machine (ρ × List Call)) ε β} {a : α} {b : β}

theorem pure (wrap : CommandError → ε) (a : α) :
    Follows (ρ := ρ) wrap (Pure.pure a) (Pure.pure a) [] a :=
  fun m => ⟨[], none, m, .pure a m, .done, by simp, by simp, fun _ => rfl, rfl⟩

theorem bind (h : Follows wrap x y plan a) (hnext : Follows wrap (f a) (g a) plan' b) :
    Follows wrap (x >>= f) (y >>= g) (plan ++ plan') b := by
  intro m
  obtain ⟨calls, failure, after, htraced, hissued⟩ := h m
  cases failure with
  | some e => exact ⟨calls, some e, after, htraced.bind_error, hissued.append_fails plan'⟩
  | none =>
      obtain ⟨calls', failure, last, htraced', hissued'⟩ := hnext after
      exact ⟨calls ++ calls', failure, last, htraced.bind_ok htraced', hissued.append hissued'⟩

end Follows

/-! ## One command -/

theorem CommandRunner.runChecked_outcome {σ : Type} {runner : CommandRunner σ} {c : Command}
    {s t : σ} {result : Except CommandError CommandOutput}
    (h : (runner.run c).outcome s = (result, t)) :
    (runner.runChecked c).outcome s = (result.bind (check c), t) := by
  cases result with
  | ok o => exact Action.outcome_bind_ok h
  | error e => exact Action.outcome_bind_error h

theorem CommandRunner.recorded_outcome {c : Command} {result : Except CommandError CommandOutput}
    (h : (runner.run c).outcome m = (result, after)) (log : List Call) :
    (runner.recorded.run c).outcome (m.withLog log) =
      (result, after.withLog (log ++ [⟨c, result, m.files, m.locks.held⟩])) := by
  have hplain : (runner.run c).outcome (m.withLog log).withoutLog = (result, after) := h
  simp only [recorded, Action.outcome_ofOutcome, hplain]
  rfl

theorem follows_runChecked (hkeeps : runner.KeepsLocks) (wrap : CommandError → ε) (c : Command)
    (b : β) :
    Follows wrap (do let _ ← Action.mapError wrap (runner.runChecked c); return b)
      (do let _ ← Action.mapError wrap (runner.recorded.runChecked c); return b) [c] b := by
  intro m
  cases hrun : (runner.run c).outcome m with
  | mk result after =>
      let call : Call := ⟨c, result, m.files, m.locks.held⟩
      have htraced : Traced (runner.runChecked c) (runner.recorded.runChecked c) m
          (result.bind (CommandRunner.check c)) after [call] :=
        ⟨CommandRunner.runChecked_outcome hrun, fun log =>
          CommandRunner.runChecked_outcome (CommandRunner.recorded_outcome hrun log)⟩
      have hkept : after.locks = m.locks := by
        have hlocks := hkeeps c m
        rwa [hrun] at hlocks
      have hissued {failure : Option CommandError} (hissues : Issues [c] [call] failure) :
          IssuedFrom m [c] [call] failure after :=
        ⟨hissues, by simp [call], by simp [call], by simp, hkept⟩
      cases hresult : result.bind (CommandRunner.check c) with
      | ok o =>
          rw [hresult] at htraced
          have hsucceeds : call.failure? = none := Call.failure?_of_ok hresult
          exact ⟨[call], none, after, (htraced.mapError_ok wrap).bind_ok (.pure b after),
            hissued (.next hsucceeds .done)⟩
      | error e =>
          rw [hresult] at htraced
          have hfails : call.failure? = some e := Call.failure?_of_error hresult
          exact ⟨[call], some e, after, (htraced.mapError_error wrap).bind_error,
            hissued (.fails [] hfails)⟩

end CacheUpkeep
