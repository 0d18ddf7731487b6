import CacheUpkeep.Proofs.Store.Spared

/-!
# How a prune ends

A step scans, and then removes its candidates one after the other up to the first
failure.  A prune ends with the first step that fails or with the third one.  Each
of these runs is an inductive relation between the files before and after it, so
that what one removal keeps is kept by a whole prune.
-/

namespace CacheUpkeep.Store

open CacheUpkeep.Calendar CacheUpkeep.FileSystem CacheUpkeep.Prune

variable {remove : Remover} {fs left : FileSystem} {root : Path} {dryRun : Bool} {ε α β : Type}
  {select : FileSystem → Layout → List Candidate}

def failureOf : Except ε α → Option ε
  | .ok _ => none
  | .error e => some e

@[simp] theorem failureOf_ok (a : α) : failureOf (.ok a : Except ε α) = none := rfl

@[simp] theorem failureOf_error (e : ε) : failureOf (.error e : Except ε α) = some e := rfl

inductive Removes (remove : Remover) :
    List Path → FileSystem → Option PruneError → FileSystem → Prop where
  | done (fs : FileSystem) : Removes remove [] fs none fs
  | fails {path : Path} {rest : List Path} {fs left : FileSystem} {e : IoError}
      (hfails : (remove path).outcome fs = (.error e, left)) :
      Removes remove (path :: rest) fs (some (.remove path e)) left
  | next {path : Path} {rest : List Path} {fs mid left : FileSystem}
      {failure : Option PruneError} (hgone : (remove path).outcome fs = (.ok (), mid))
      (hrest : Removes remove rest mid failure left) :
      Removes remove (path :: rest) fs failure left

theorem failureOf_bind_pure (x : Action FileSystem ε α) (f : α → β) (fs : FileSystem) :
    failureOf ((x >>= fun a => pure (f a)).outcome fs).1 = failureOf (x.outcome fs).1 := by
  cases hx : x.outcome fs with
  | mk result last =>
      cases result with
      | ok a =>
          rw [Action.outcome_bind_ok hx]
          rfl
      | error e =>
          rw [Action.outcome_bind_error hx]
          rfl

theorem removes_of_removeEach (remove : Remover) (candidates : List Candidate) (fs : FileSystem) :
    Removes remove (candidates.map Candidate.path) fs
      (failureOf ((removeEach remove false candidates).outcome fs).1)
      ((removeEach remove false candidates).outcome fs).2 := by
  induction candidates generalizing fs with
  | nil => exact .done fs
  | cons c rest ih =>
      unfold removeEach
      rw [if_neg Bool.false_ne_true]
      cases hfirst : (remove c.path).outcome fs with
      | mk result mid =>
          cases result with
          | error e =>
              rw [Action.outcome_bind_error (Action.outcome_mapError_error hfirst)]
              exact .fails hfirst
          | ok value =>
              rw [Action.outcome_bind_ok (Action.outcome_mapError_ok hfirst),
                failureOf_bind_pure, Action.outcome_bind_pure_snd]
              exact .next hfirst (ih mid)

/-! ## Steps -/

/-- A step fails at its scan, predicts what it would remove, or removes it. -/
inductive StepEnds (remove : Remover) (root : Path) (dryRun : Bool)
    (select : FileSystem → Layout → List Candidate) (fs : FileSystem) :
    Option PruneError → FileSystem → Prop where
  | unscanned {e : PruneError} (hscan : scan fs root = .error e) :
      StepEnds remove root dryRun select fs (some e) fs
  | predicts {layout : Layout} (hscan : scan fs root = .ok layout) (hdry : dryRun = true) :
      StepEnds remove root dryRun select fs none fs
  | removes {layout : Layout} {failure : Option PruneError} {left : FileSystem}
      (hscan : scan fs root = .ok layout) (hreal : dryRun = false)
      (hremoves : Removes remove ((select fs layout).map Candidate.path) fs failure left) :
      StepEnds remove root dryRun select fs failure left

theorem stepEnds_of_selectAndRemove (remove : Remover) (root : Path) (dryRun : Bool)
    (select : FileSystem → Layout → List Candidate) (fs : FileSystem) :
    StepEnds remove root dryRun select fs
      (failureOf ((selectAndRemove remove root dryRun select).outcome fs).1)
      ((selectAndRemove remove root dryRun select).outcome fs).2 := by
  cases hscan : scan fs root with
  | error e =>
      have hfails : (selectAndRemove remove root dryRun select).outcome fs = (.error e, fs) :=
        Action.outcome_bind_error (by simp [hscan, Except.map])
      rw [hfails]
      exact .unscanned hscan
  | ok layout =>
      rw [selectAndRemove_eq hscan]
      cases dryRun with
      | true =>
          rw [removeEach_dry]
          exact .predicts hscan rfl
      | false => exact .removes hscan rfl (removes_of_removeEach remove _ fs)

/-! ## Prunes -/

inductive PruneEnds (remove : Remover) (root : Path) (now : Instant) (window : RetentionWindow)
    (dryRun : Bool) (fs : FileSystem) : Option PruneError → FileSystem → Prop where
  | first {e : PruneError} {left : FileSystem}
      (h₁ : StepEnds remove root dryRun transientCandidates fs (some e) left) :
      PruneEnds remove root now window dryRun fs (some e) left
  | second {e : PruneError} {mid left : FileSystem}
      (h₁ : StepEnds remove root dryRun transientCandidates fs none mid)
      (h₂ : StepEnds remove root dryRun (fun fs => staleCandidates fs now window) mid (some e)
        left) :
      PruneEnds remove root now window dryRun fs (some e) left
  | third {failure : Option PruneError} {mid last left : FileSystem}
      (h₁ : StepEnds remove root dryRun transientCandidates fs none mid)
      (h₂ : StepEnds remove root dryRun (fun fs => staleCandidates fs now window) mid none last)
      (h₃ : StepEnds remove root dryRun (fun fs => orphanedCandidates fs now window) last
        failure left) :
      PruneEnds remove root now window dryRun fs failure left

/--
What the steps of a prune of `fs` select, and in which files.  The first step finds them
as they were, and the others may find any.
-/
inductive IsSelection (fs : FileSystem) (now : Instant) (window : RetentionWindow) :
    FileSystem → (FileSystem → Layout → List Candidate) → Prop where
  | transient : IsSelection fs now window fs transientCandidates
  | stale (mid : FileSystem) :
      IsSelection fs now window mid fun fs => staleCandidates fs now window
  | orphaned (mid : FileSystem) :
      IsSelection fs now window mid fun fs => orphanedCandidates fs now window

variable {mid : FileSystem} {now : Instant} {window : RetentionWindow}
  {failure : Option PruneError}

theorem IsSelection.empty (h : IsSelection fs now window mid select) : select mid ⟨[]⟩ = [] := by
  cases h with
  | transient => rfl
  | stale mid => exact staleCandidates_nil
  | orphaned mid => rfl

theorem PruneEnds.preserves (Kept : Option PruneError → FileSystem → Prop)
    (h : PruneEnds remove root now window dryRun fs failure left) (hstart : Kept none fs)
    (hstep : ∀ {select mid failure last}, IsSelection fs now window mid select → Kept none mid →
      StepEnds remove root dryRun select mid failure last → Kept failure last) :
    Kept failure left := by
  cases h with
  | first h₁ => exact hstep .transient hstart h₁
  | second h₁ h₂ => exact hstep (.stale _) (hstep .transient hstart h₁) h₂
  | third h₁ h₂ h₃ =>
      have hmid := hstep .transient hstart h₁
      exact hstep (.orphaned _) (hstep (.stale _) hmid h₂) h₃

theorem stepEnds_of_outcome {result : Except PruneError Outcome}
    (h : (selectAndRemove remove root dryRun select).outcome fs = (result, left)) :
    StepEnds remove root dryRun select fs (failureOf result) left := by
  have hends := stepEnds_of_selectAndRemove remove root dryRun select fs
  rwa [h] at hends

theorem pruneEnds_of_prune (remove : Remover) (root : Path) (now : Instant)
    (window : RetentionWindow) (dryRun : Bool) (fs : FileSystem) :
    PruneEnds remove root now window dryRun fs
      (failureOf ((prune (LocalStore.backendWith remove ⟨root, now⟩) ⟨window, dryRun⟩).outcome
        fs).1)
      ((prune (LocalStore.backendWith remove ⟨root, now⟩) ⟨window, dryRun⟩).outcome fs).2 := by
  unfold prune
  cases h₁ : ((LocalStore.backendWith remove ⟨root, now⟩).cleanTransient dryRun).outcome fs with
  | mk transient mid =>
      have hfirst := stepEnds_of_outcome h₁
      cases transient with
      | error e =>
          rw [Action.outcome_bind_error h₁]
          exact .first hfirst
      | ok transient =>
          rw [Action.outcome_bind_ok h₁]
          cases h₂ : ((LocalStore.backendWith remove ⟨root, now⟩).removeStaleArtifacts window
              dryRun).outcome mid with
          | mk artifacts last =>
              have hsecond := stepEnds_of_outcome h₂
              cases artifacts with
              | error e =>
                  rw [Action.outcome_bind_error h₂]
                  exact .second hfirst hsecond
              | ok artifacts =>
                  rw [Action.outcome_bind_ok h₂, failureOf_bind_pure,
                    Action.outcome_bind_pure_snd]
                  exact .third hfirst hsecond (stepEnds_of_selectAndRemove remove root dryRun _ _)

end CacheUpkeep.Store
