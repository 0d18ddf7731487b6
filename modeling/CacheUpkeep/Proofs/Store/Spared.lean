import CacheUpkeep.Proofs.FileSystem.Changes
import CacheUpkeep.Proofs.Store.Effect

/-!
# What a prune spares

A prune changes nothing but what its first scan selects, whether it ends well or
a removal fails halfway, and whatever becomes of the path of the store.
-/

namespace CacheUpkeep.Store

open CacheUpkeep.Calendar CacheUpkeep.FileSystem CacheUpkeep.Prune

/--
A remover that ends well has removed what its path names and all below it, and one
that fails has changed nothing else.
-/
structure RemovesOnly (remove : Remover) : Prop where
  ok : ∀ {path fs left}, (remove path).outcome fs = (.ok (), left) →
    ∃ location node, fs.linkStat path = .ok (location, node) ∧ left = fs.without location
  error : ∀ {path fs left e location}, (remove path).outcome fs = (.error e, left) →
    (∀ dir node, fs.linkStat path = .ok (dir, node) → ¬ dir <+: location) →
      left.node? location = fs.node? location

theorem removesOnly_removeTree : RemovesOnly removeTree where
  ok h := removeTree_eq_ok (Action.outcome_changing_eq_ok h)
  error h _ := by
    rw [Action.outcome_changing_eq_error h]

variable {remove : Remover} {fs left : FileSystem} {root : Path} {store place location : Location}
  {places done more : List Location} {layout : Layout} {candidates : List Candidate}
  {now : Instant} {window : RetentionWindow} {ε α : Type}

/-- `left` agrees with `fs` wherever none of the places of the store is or lies above. -/
def Spares (fs left : FileSystem) (store : Location) (places : List Location) : Prop :=
  ∀ location, ¬ IsCovered (places.map (store ++ ·)) location →
    left.node? location = fs.node? location

theorem Spares.mono (h : Spares fs left store places) (hmore : ∀ place ∈ places, place ∈ more) :
    Spares fs left store more := by
  intro location hlocation
  refine h location fun ⟨dir, hdir, hpre⟩ => hlocation ⟨dir, ?_, hpre⟩
  obtain ⟨place, hplace, rfl⟩ := List.mem_map.mp hdir
  exact List.mem_map.mpr ⟨place, hmore place hplace, rfl⟩

theorem spares_withoutPlaces : Spares fs (withoutPlaces fs store places) store places :=
  fun _ => node?_withoutAll_of_not_covered

/-- An action that leaves exactly the rest if it ends well, and spares the rest if not. -/
def Leaves (fs : FileSystem) (store : Location) (places : List Location)
    (result : Except ε α × FileSystem) : Prop :=
  match result with
  | (.ok _, left) => left = withoutPlaces fs store places
  | (.error _, left) => Spares fs left store places

theorem Leaves.spares {result : Except ε α × FileSystem} (h : Leaves fs store places result) :
    Spares fs result.2 store places := by
  obtain ⟨outcome, left⟩ := result
  cases outcome with
  | ok value =>
      rw [show left = withoutPlaces fs store places from h]
      exact spares_withoutPlaces
  | error e => exact h

theorem Leaves.bind_pure {β : Type} {x : Action FileSystem ε α} {f : α → β}
    (h : Leaves fs store places (x.outcome left)) :
    Leaves fs store places ((x >>= fun a => pure (f a)).outcome left) := by
  cases hx : x.outcome left with
  | mk result last =>
      rw [hx] at h
      cases result with
      | ok a =>
          rw [Action.outcome_bind_ok hx]
          exact h
      | error e =>
          rw [Action.outcome_bind_error hx]
          exact h

theorem Leaves.spares_bind {β : Type} {x : Action FileSystem ε α}
    {f : α → Action FileSystem ε β} (h : Leaves fs store done (x.outcome left))
    (hmore : ∀ place ∈ done, place ∈ more)
    (hf : ∀ a, Spares fs ((f a).outcome (withoutPlaces fs store done)).2 store more) :
    Spares fs ((x >>= f).outcome left).2 store more := by
  cases hx : x.outcome left with
  | mk result last =>
      rw [hx] at h
      cases result with
      | ok a =>
          rw [Action.outcome_bind_ok hx, show last = withoutPlaces fs store done from h]
          exact hf a
      | error e =>
          rw [Action.outcome_bind_error hx]
          exact Spares.mono h hmore

/-! ## Removing candidates -/

theorem linkStat_pathAt (hs : IsStore fs root store) (hnil : place ≠ [])
    (hvisible : IsVisible fs root store place) {node : Node}
    (hstat : (withoutPlaces fs store done).linkStat (pathAt root place) = .ok (location, node)) :
    location = store ++ place := by
  have hbig := find_mono (extends_withoutPlaces fs store done) hstat
  rw [hs.find_pathAt false hnil hvisible] at hbig
  cases hbig
  rfl

theorem removeEach_leaves (hremove : RemovesOnly remove) (hs : IsStore fs root store)
    (hpaths : candidates.map Candidate.path = places.map (pathAt root))
    (hvisible : ∀ place ∈ places, place ≠ [] ∧ IsVisible fs root store place) :
    Leaves fs store (done ++ places)
      ((removeEach remove false candidates).outcome (withoutPlaces fs store done)) := by
  induction places generalizing candidates done with
  | nil =>
      rw [List.map_nil, List.map_eq_nil_iff] at hpaths
      subst hpaths
      simp [removeEach, Leaves]
  | cons place rest ih =>
      obtain ⟨c, others, rfl, hpath, hothers⟩ := List.map_eq_cons_iff.mp hpaths
      obtain ⟨hnil, hseen⟩ := hvisible place List.mem_cons_self
      unfold removeEach
      rw [if_neg Bool.false_ne_true]
      cases hfirst : (remove c.path).outcome (withoutPlaces fs store done) with
      | mk result left =>
          rw [hpath] at hfirst ⊢
          cases result with
          | error e =>
              rw [Action.outcome_bind_error (Action.outcome_mapError_error hfirst)]
              intro location hlocation
              rw [hremove.error hfirst, spares_withoutPlaces.mono _ location hlocation]
              · simp +contextual
              · intro dir node hstat hpre
                rw [linkStat_pathAt hs hnil hseen hstat] at hpre
                exact hlocation ⟨_, List.mem_map.mpr ⟨place, by simp, rfl⟩, hpre⟩
          | ok value =>
              -- However much is gone, the path still names what it named before, if anything.
              obtain ⟨location, node, hstat, rfl⟩ := hremove.ok hfirst
              have hgone : (withoutPlaces fs store done).without location =
                  withoutPlaces fs store (done ++ [place]) := by
                rw [linkStat_pathAt hs hnil hseen hstat, without_eq_withoutAll,
                  ← withoutPlaces_withoutPlaces]
                rfl
              rw [hgone] at hfirst
              have hrest : Leaves fs store (done ++ [place] ++ rest)
                  ((removeEach remove false others).outcome
                    (withoutPlaces fs store (done ++ [place]))) :=
                ih hothers fun other hother => hvisible other (List.mem_cons_of_mem _ hother)
              rw [List.append_assoc, List.singleton_append] at hrest
              rw [Action.outcome_bind_ok (Action.outcome_mapError_ok hfirst)]
              exact hrest.bind_pure

/-! ## Steps -/

theorem selectAndRemove_leaves {select : FileSystem → Layout → List Candidate}
    (hremove : RemovesOnly remove) (hs : IsStore fs root store)
    (hscan : scan fs root = .ok layout)
    (hdone : ∀ place ∈ done, place ≠ [] ∧ fs.node? (store ++ place) = some .directory)
    (hnone : select (withoutPlaces fs store done) ⟨[]⟩ = [])
    (hpaths : (withoutPlaces fs store done).directoryAt? root = some store →
      (select (withoutPlaces fs store done) (layout.keep fun place => place ∉ done)).map
        Candidate.path = places.map (pathAt root))
    (hvisible : ∀ place ∈ places, place ≠ [] ∧ IsVisible fs root store place) :
    (withoutPlaces fs store done).isDirectory root = false ∧
        Leaves fs store done ((selectAndRemove remove root false select).outcome
          (withoutPlaces fs store done)) ∨
      Leaves fs store (done ++ places) ((selectAndRemove remove root false select).outcome
        (withoutPlaces fs store done)) := by
  cases hroot : (withoutPlaces fs store done).directoryAt? root with
  | none =>
      have hmissing : (withoutPlaces fs store done).isDirectory root = false := by
        simp [isDirectory, hroot]
      rw [selectAndRemove_missing hmissing hnone]
      exact .inl ⟨hmissing, rfl⟩
  | some found =>
      have hfound := directoryAt?_mono (extends_withoutPlaces fs store done) hroot
      rw [hs.named] at hfound
      cases hfound
      rw [selectAndRemove_eq (scan_withoutPlaces hs hscan hdone hroot)]
      exact .inr (removeEach_leaves hremove hs (hpaths hroot) hvisible)

section Steps

variable (hremove : RemovesOnly remove) (hs : IsStore fs root store)
  (hscan : scan fs root = .ok layout)

include hremove hs hscan

theorem transient_leaves : Leaves fs store layout.scratchPlaces
    ((selectAndRemove remove root false transientCandidates).outcome fs) := by
  have hpaths : (transientCandidates fs layout).map Candidate.path =
      layout.scratchPlaces.map (pathAt root) := by
    rw [transientCandidates_eq hs hscan, candidateAt_path]
  have h : Leaves fs store ([] ++ layout.scratchPlaces)
      ((removeEach remove false (transientCandidates fs layout)).outcome
        (withoutPlaces fs store [])) :=
    removeEach_leaves hremove hs hpaths fun _ => isVisible_of_mem_scratchPlaces hs hscan
  rw [selectAndRemove_eq hscan]
  simpa using h

theorem stale_leaves :
    (withoutPlaces fs store layout.scratchPlaces).isDirectory root = false ∧
        Leaves fs store layout.scratchPlaces
          ((selectAndRemove remove root false fun fs => staleCandidates fs now window).outcome
            (withoutPlaces fs store layout.scratchPlaces)) ∨
      Leaves fs store (layout.earlierPlaces now window)
        ((selectAndRemove remove root false fun fs => staleCandidates fs now window).outcome
          (withoutPlaces fs store layout.scratchPlaces)) := by
  have hdirs : ∀ place ∈ layout.scratchPlaces,
      place ≠ [] ∧ fs.node? (store ++ place) = some .directory := fun _ hplace =>
    (isVisible_of_mem_scratchPlaces hs hscan hplace).imp_right And.left
  refine selectAndRemove_leaves hremove hs hscan hdirs staleCandidates_nil (fun hroot => ?_)
    fun _ => isVisible_of_mem_stalePlaces hs hscan
  have hscan' := scan_withoutPlaces hs hscan hdirs hroot
  rw [staleCandidates_withoutPlaces hs hscan hscan' hroot, staleCandidates_eq hs hscan,
    candidateAt_path]

theorem orphaned_leaves :
    Spares fs ((selectAndRemove remove root false fun fs =>
        orphanedCandidates fs now window).outcome
      (withoutPlaces fs store (layout.earlierPlaces now window))).2 store
      (layout.selectedPlaces now window) := by
  have hleaves :
      (withoutPlaces fs store (layout.earlierPlaces now window)).isDirectory root = false ∧
          Leaves fs store (layout.earlierPlaces now window)
            ((selectAndRemove remove root false fun fs => orphanedCandidates fs now window).outcome
              (withoutPlaces fs store (layout.earlierPlaces now window))) ∨
        Leaves fs store (layout.selectedPlaces now window)
          ((selectAndRemove remove root false fun fs => orphanedCandidates fs now window).outcome
            (withoutPlaces fs store (layout.earlierPlaces now window))) := by
    refine selectAndRemove_leaves hremove hs hscan (fun place hplace => ?_) rfl (fun hroot => ?_)
      fun _ => isVisible_of_mem_orphanedPlaces hs hscan
    · exact (isVisible_of_mem_earlierPlaces hs hscan hplace).imp_right And.left
    · rw [orphanedCandidates_withoutPlaces hs hscan hroot, orphanedCandidates_path hs hscan]
  rcases hleaves with ⟨-, h⟩ | h
  · exact h.spares.mono fun _ => List.mem_append_left _
  · exact h.spares

/-- A prune spares everything that its first scan does not select. -/
theorem prune_spares :
    Spares fs ((prune (LocalStore.backendWith remove ⟨root, now⟩) ⟨window, false⟩).outcome fs).2
      store (layout.selectedPlaces now window) := by
  have hscratch : ∀ place ∈ layout.scratchPlaces, place ∈ layout.selectedPlaces now window :=
    fun _ hplace => List.mem_append_left _ (List.mem_append_left _ hplace)
  refine (transient_leaves hremove hs hscan).spares_bind hscratch fun transient => ?_
  rcases stale_leaves hremove hs hscan with ⟨hmissing, h⟩ | h
  · refine h.spares_bind hscratch fun artifacts => ?_
    have hrecords : (selectAndRemove remove root false fun fs =>
          orphanedCandidates fs now window).outcome
          (withoutPlaces fs store layout.scratchPlaces) =
        (.ok Outcome.none, withoutPlaces fs store layout.scratchPlaces) :=
      selectAndRemove_missing hmissing rfl
    rw [Action.outcome_bind_pure_snd]
    exact (congrArg Prod.snd hrecords) ▸ spares_withoutPlaces.mono hscratch
  · refine h.spares_bind (fun _ => List.mem_append_left _) fun artifacts => ?_
    rw [Action.outcome_bind_pure_snd]
    exact orphaned_leaves hremove hs hscan

end Steps

end CacheUpkeep.Store
