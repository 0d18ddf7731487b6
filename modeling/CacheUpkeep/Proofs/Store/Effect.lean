import CacheUpkeep.Proofs.Store.Prediction
import Mathlib.Data.List.Nodup

/-!
# The effect of a prune

A prune of a store ends with the outcome that its first scan predicts, and what
it removes is decided by the store as it was at first.
-/

namespace CacheUpkeep.Store

open CacheUpkeep.Calendar CacheUpkeep.FileSystem CacheUpkeep.Prune

variable {fs : FileSystem} {root : Path} {store place : Location} {places : List Location}
  {layout : Layout} {now : Instant} {window : RetentionWindow}

def Layout.selectedPlaces (now : Instant) (window : RetentionWindow) (layout : Layout) :
    List Location :=
  layout.earlierPlaces now window ++ layout.orphanedPlaces now window

def predictedReport (fs : FileSystem) (now : Instant) (policy : Policy) (layout : Layout) :
    Report :=
  ⟨"local", policy, outcomeOf (transientCandidates fs layout),
    outcomeOf (staleCandidates fs now policy.window layout),
    outcomeOf (orphanedCandidates fs now policy.window layout)⟩

/-! ## Places apart -/

theorem areApart_of_isOwned (hnodup : places.Nodup)
    (howned : ∀ place ∈ places, IsOwned fs store place) : AreApart places := by
  refine List.Pairwise.imp_of_mem ?_ hnodup
  intro a b ha hb hne
  exact ⟨fun hpre => hne ((howned a ha).eq_of_below (howned b hb) hpre),
    fun hpre => hne ((howned b hb).eq_of_below (howned a ha) hpre).symm⟩

theorem areApart_scratchPlaces (hs : IsStore fs root store) (hscan : scan fs root = .ok layout) :
    AreApart layout.scratchPlaces :=
  areApart_of_isOwned (nodup_of_sorted (scratchPlaces_sorted hs hscan))
    fun _ => isOwned_of_mem_scratchPlaces hs hscan

theorem areApart_stalePlaces (hs : IsStore fs root store) (hscan : scan fs root = .ok layout) :
    AreApart (layout.stalePlaces now window) :=
  areApart_of_isOwned (stalePlaces_nodup hs hscan) fun _ => isOwned_of_mem_stalePlaces hs hscan

theorem areApart_orphanedPlaces (hs : IsStore fs root store)
    (hscan : scan fs root = .ok layout) : AreApart (layout.orphanedPlaces now window) := by
  refine List.Pairwise.imp_of_mem ?_ (nodup_of_sorted (orphanedPlaces_sorted hs hscan))
  intro a b ha hb hne
  obtain ⟨name, -, rfl, -⟩ := exists_record_of_mem_orphanedPlaces hs hscan ha
  obtain ⟨name', -, rfl, -⟩ := exists_record_of_mem_orphanedPlaces hs hscan hb
  exact ⟨fun hpre => hne (hpre.eq_of_length rfl), fun hpre => hne (hpre.eq_of_length rfl).symm⟩

/-! ## Directories that the steps find -/

theorem isVisible_of_mem_scratchPlaces (hs : IsStore fs root store)
    (hscan : scan fs root = .ok layout) (hplace : place ∈ layout.scratchPlaces) :
    place ≠ [] ∧ IsVisible fs root store place := by
  obtain ⟨h, hlong⟩ := (mem_scratchPlaces_iff hs hscan).mp hplace
  exact ⟨h.ne_nil, h.node?, hlong⟩

theorem isVisible_of_mem_stalePlaces (hs : IsStore fs root store)
    (hscan : scan fs root = .ok layout) (hplace : place ∈ layout.stalePlaces now window) :
    place ≠ [] ∧ IsVisible fs root store place := by
  obtain ⟨⟨used, h, -⟩, hlong⟩ := (mem_stalePlaces_iff hs hscan).mp hplace
  exact ⟨h.ne_nil, h.node?, hlong⟩

theorem isVisible_of_mem_earlierPlaces (hs : IsStore fs root store)
    (hscan : scan fs root = .ok layout) (hplace : place ∈ layout.earlierPlaces now window) :
    place ≠ [] ∧ IsVisible fs root store place :=
  (List.mem_append.mp hplace).elim (isVisible_of_mem_scratchPlaces hs hscan)
    (isVisible_of_mem_stalePlaces hs hscan)

theorem isVisible_of_mem_orphanedPlaces (hs : IsStore fs root store)
    (hscan : scan fs root = .ok layout) (hplace : place ∈ layout.orphanedPlaces now window) :
    place ≠ [] ∧ IsVisible fs root store place := by
  obtain ⟨name, -, rfl, hvisible, -⟩ := exists_record_of_mem_orphanedPlaces hs hscan hplace
  exact ⟨by simp, hvisible⟩

theorem isVisible_of_mem_selectedPlaces (hs : IsStore fs root store)
    (hscan : scan fs root = .ok layout) (hplace : place ∈ layout.selectedPlaces now window) :
    place ≠ [] ∧ IsVisible fs root store place :=
  (List.mem_append.mp hplace).elim (isVisible_of_mem_earlierPlaces hs hscan)
    (isVisible_of_mem_orphanedPlaces hs hscan)

theorem isVisible_stalePlaces_later (hs : IsStore fs root store)
    (hscan : scan fs root = .ok layout) (hplace : place ∈ layout.stalePlaces now window) :
    place ≠ [] ∧ IsVisible (withoutPlaces fs store layout.scratchPlaces) root store place := by
  obtain ⟨hnil, hvisible⟩ := isVisible_of_mem_stalePlaces hs hscan hplace
  refine ⟨hnil, (isVisible_withoutPlaces ?_).mpr hvisible⟩
  simpa using not_isCovered_of_apart (fun _ => scratchPlaces_apart_stalePlaces hs hscan hplace) []

theorem isVisible_orphanedPlaces_later (hs : IsStore fs root store)
    (hscan : scan fs root = .ok layout) (hplace : place ∈ layout.orphanedPlaces now window) :
    place ≠ [] ∧
      IsVisible (withoutPlaces fs store (layout.earlierPlaces now window)) root store place := by
  obtain ⟨r, hr, -, rfl⟩ := mem_orphanedPlaces.mp hplace
  obtain ⟨hvisible, -⟩ := record_of_mem hs hscan hr
  exact ⟨by simp, (isVisible_withoutPlaces (not_isCovered_record hs hscan hr)).mpr hvisible⟩

section Named

variable (hnames : NamesWithout fs root store (· ∈ layout.selectedPlaces now window))

include hnames

theorem directoryAt?_without_scratchPlaces :
    (withoutPlaces fs store layout.scratchPlaces).directoryAt? root = some store :=
  hnames _ fun place hplace => by simp [Layout.selectedPlaces, Layout.earlierPlaces, hplace]

theorem directoryAt?_without_earlierPlaces :
    (withoutPlaces fs store (layout.earlierPlaces now window)).directoryAt? root = some store :=
  hnames _ fun place hplace => by simp [Layout.selectedPlaces, hplace]

end Named

/-! ## Steps -/

theorem selectAndRemove_eq {remove : Remover} {dryRun : Bool}
    {select : FileSystem → Layout → List Candidate} (hscan : scan fs root = .ok layout) :
    (selectAndRemove remove root dryRun select).outcome fs =
      (removeEach remove dryRun (select fs layout)).outcome fs := by
  refine Action.outcome_bind_ok ?_
  simp [hscan, Except.map]

theorem selectAndRemove_missing {remove : Remover} {dryRun : Bool}
    {select : FileSystem → Layout → List Candidate} (hroot : fs.isDirectory root = false)
    (hselect : select fs ⟨[]⟩ = []) :
    (selectAndRemove remove root dryRun select).outcome fs = (.ok Outcome.none, fs) := by
  rw [selectAndRemove_eq (scan_of_not_isDirectory hroot), hselect]
  rfl

theorem staleCandidates_nil : staleCandidates fs now window ⟨[]⟩ = [] := by
  simp [staleCandidates, Layout.artifacts]

theorem prune_of_steps {b : Backend FileSystem} {policy : Policy} {o₁ o₂ o₃ : Outcome}
    {fs₁ fs₂ fs₃ : FileSystem} (h₁ : (b.cleanTransient policy.dryRun).outcome fs = (.ok o₁, fs₁))
    (h₂ : (b.removeStaleArtifacts policy.window policy.dryRun).outcome fs₁ = (.ok o₂, fs₂))
    (h₃ : (b.removeOrphanedRecords policy.window policy.dryRun).outcome fs₂ = (.ok o₃, fs₃)) :
    (prune b policy).outcome fs = (.ok ⟨b.name, policy, o₁, o₂, o₃⟩, fs₃) := by
  unfold prune
  rw [Action.outcome_bind_ok h₁, Action.outcome_bind_ok h₂, Action.outcome_bind_ok h₃]
  rfl

theorem prune_dry (hscan : scan fs root = .ok layout) :
    (prune (LocalStore.backend ⟨root, now⟩) ⟨window, true⟩).outcome fs =
      (.ok (predictedReport fs now ⟨window, true⟩ layout), fs) := by
  have hstep : ∀ select : FileSystem → Layout → List Candidate,
      (selectAndRemove removeTree root true select).outcome fs =
        (.ok (outcomeOf (select fs layout)), fs) := by
    intro select
    rw [selectAndRemove_eq hscan, removeEach_dry]
  exact prune_of_steps (hstep _) (hstep _) (hstep _)

theorem candidateAt_path (fs : FileSystem) (root : Path) (places : List Location) :
    (places.map (candidateAt fs root)).map Candidate.path = places.map (pathAt root) := by
  simp [candidateAt]

/-- A real prune ends as its first scan predicts, and removes what that scan selects. -/
theorem prune_real (hs : IsStore fs root store) (hscan : scan fs root = .ok layout)
    (hnames : NamesWithout fs root store (· ∈ layout.selectedPlaces now window)) :
    (prune (LocalStore.backend ⟨root, now⟩) ⟨window, false⟩).outcome fs =
      (.ok (predictedReport fs now ⟨window, false⟩ layout),
        withoutPlaces fs store (layout.selectedPlaces now window)) := by
  have h₁ : (selectAndRemove removeTree root false transientCandidates).outcome fs =
      (.ok (outcomeOf (transientCandidates fs layout)),
        withoutPlaces fs store layout.scratchPlaces) := by
    rw [selectAndRemove_eq hscan]
    refine removeEach_real hs (areApart_scratchPlaces hs hscan) ?_
      (fun _ => isVisible_of_mem_scratchPlaces hs hscan) (hnames.mono fun place hplace => ?_)
    · rw [transientCandidates_eq hs hscan, candidateAt_path]
    · simp [Layout.selectedPlaces, Layout.earlierPlaces, hplace]
  -- The second step, on the store without scratch directories.
  have hroot₁ := directoryAt?_without_scratchPlaces hnames
  have hscan₁ := scan_withoutPlaces hs hscan
    (fun _ hplace => (isVisible_of_mem_scratchPlaces hs hscan hplace).imp_right And.left) hroot₁
  have h₂ : (selectAndRemove removeTree root false fun fs => staleCandidates fs now window).outcome
        (withoutPlaces fs store layout.scratchPlaces) =
      (.ok (outcomeOf (staleCandidates fs now window layout)),
        withoutPlaces fs store (layout.earlierPlaces now window)) := by
    rw [selectAndRemove_eq hscan₁, staleCandidates_withoutPlaces hs hscan hscan₁ hroot₁,
      Layout.earlierPlaces, ← withoutPlaces_withoutPlaces]
    refine removeEach_real (hs.withoutPlaces hroot₁) (areApart_stalePlaces hs hscan) ?_
      (fun _ => isVisible_stalePlaces_later hs hscan)
      (hnames.withoutPlaces (fun place hplace => ?_) fun place hplace => ?_)
    · rw [staleCandidates_eq hs hscan, candidateAt_path]
    · simp [Layout.selectedPlaces, Layout.earlierPlaces, hplace]
    · simp [Layout.selectedPlaces, Layout.earlierPlaces, hplace]
  -- The third step, on the store without stale artifacts as well.
  have hroot₂ := directoryAt?_without_earlierPlaces hnames
  have hscan₂ := scan_withoutPlaces hs hscan
    (fun _ hplace => (isVisible_of_mem_earlierPlaces hs hscan hplace).imp_right And.left) hroot₂
  have h₃ : (selectAndRemove removeTree root false fun fs =>
        orphanedCandidates fs now window).outcome
        (withoutPlaces fs store (layout.earlierPlaces now window)) =
      (.ok (outcomeOf (orphanedCandidates fs now window layout)),
        withoutPlaces fs store (layout.selectedPlaces now window)) := by
    rw [selectAndRemove_eq hscan₂, orphanedCandidates_withoutPlaces hs hscan hroot₂,
      Layout.selectedPlaces, ← withoutPlaces_withoutPlaces]
    refine removeEach_real (hs.withoutPlaces hroot₂) (areApart_orphanedPlaces hs hscan)
      (orphanedCandidates_path hs hscan) (fun _ => isVisible_orphanedPlaces_later hs hscan)
      (hnames.withoutPlaces (fun place hplace => ?_) fun place hplace => ?_)
    · simp [Layout.selectedPlaces, hplace]
    · simp [Layout.selectedPlaces, hplace]
  exact prune_of_steps h₁ h₂ h₃

/-! ## Report and remaining files -/

theorem candidateAt_id (fs : FileSystem) (root : Path) (places : List Location) :
    (places.map (candidateAt fs root)).map Candidate.id = places.map idAt := by
  simp [candidateAt]

theorem predictedReport_removed (hs : IsStore fs root store) (hscan : scan fs root = .ok layout)
    (dryRun : Bool) :
    (predictedReport fs now ⟨window, dryRun⟩ layout).removed =
      (layout.selectedPlaces now window).map idAt := by
  simp only [predictedReport, Report.removed, outcomeOf, transientCandidates_eq hs hscan,
    staleCandidates_eq hs hscan, orphanedCandidates_id, candidateAt_id, Layout.selectedPlaces,
    Layout.earlierPlaces, List.map_append]

theorem shape_of_mem_selectedPlaces (hs : IsStore fs root store)
    (hscan : scan fs root = .ok layout) (hplace : place ∈ layout.selectedPlaces now window) :
    ((∃ a, place = [a]) ∨ ∃ a b, place = [a, b]) ∧ ∀ name ∈ place, IsName name := by
  have hshape : ((∃ a, place = [a]) ∨ ∃ a b, place = [a, b]) ∧
      fs.node? (store ++ place) = some .directory := by
    rcases List.mem_append.mp hplace with h | h
    · have howned := isOwned_of_mem_earlierPlaces hs hscan h
      refine ⟨?_, howned.node?⟩
      rcases howned.eq_single_or_pair with ⟨a, rfl⟩ | ⟨a, b, -, rfl, -⟩
      · exact .inl ⟨a, rfl⟩
      · exact .inr ⟨a, b, rfl⟩
    · obtain ⟨a, -, rfl, hvisible, -⟩ := exists_record_of_mem_orphanedPlaces hs hscan h
      exact ⟨.inl ⟨a, rfl⟩, hvisible.1⟩
  exact ⟨hshape.1, fun name hname =>
    hs.wellFormed.isName hshape.2 (List.mem_append_right store hname)⟩

theorem selectedPlaces_nodup (hs : IsStore fs root store) (hscan : scan fs root = .ok layout) :
    (layout.selectedPlaces now window).Nodup := by
  refine List.nodup_append.mpr ⟨List.nodup_append.mpr ⟨?_, ?_, ?_⟩, ?_, ?_⟩
  · exact nodup_of_sorted (scratchPlaces_sorted hs hscan)
  · exact stalePlaces_nodup hs hscan
  · rintro a ha b hb rfl
    exact (scratchPlaces_apart_stalePlaces hs hscan hb ha).1 List.prefix_rfl
  · exact nodup_of_sorted (orphanedPlaces_sorted hs hscan)
  · rintro a ha b hb rfl
    obtain ⟨r, hr, -, rfl⟩ := mem_orphanedPlaces.mp hb
    exact record_notMem_of_isOwned hs hscan (fun _ => isOwned_of_mem_earlierPlaces hs hscan) hr ha

theorem predictedReport_removed_nodup (hs : IsStore fs root store)
    (hscan : scan fs root = .ok layout) (dryRun : Bool) :
    (predictedReport fs now ⟨window, dryRun⟩ layout).removed.Nodup := by
  rw [predictedReport_removed hs hscan]
  refine List.Nodup.map_on ?_ (selectedPlaces_nodup hs hscan)
  intro a ha b hb heq
  obtain ⟨hshape, hnames⟩ := shape_of_mem_selectedPlaces hs hscan ha
  obtain ⟨hshape', hnames'⟩ := shape_of_mem_selectedPlaces hs hscan hb
  exact idAt_injective hnames hnames' hshape hshape' heq

theorem bytes_add_findableSize (hs : IsStore fs root store) (hapart : AreApart places)
    (hvisible : ∀ place ∈ places, place ≠ [] ∧ IsVisible fs root store place) :
    (outcomeOf (places.map (candidateAt fs root))).bytes +
      findableSize (withoutPlaces fs store places) root store = findableSize fs root store := by
  rw [← sizes_add_findableSize root hs.wellFormed hapart
    fun place hplace => (hvisible place hplace).2.1]
  congr 1
  simp only [outcomeOf, List.foldr_map]
  refine List.foldr_ext _ _ _ fun place hplace total => ?_
  obtain ⟨hnil, hseen⟩ := hvisible place hplace
  rw [candidateAt, treeSize_pathAt hs hnil hseen]

theorem predictedReport_bytes (hs : IsStore fs root store) (hscan : scan fs root = .ok layout)
    (hnames : NamesWithout fs root store (· ∈ layout.selectedPlaces now window))
    (dryRun : Bool) :
    (predictedReport fs now ⟨window, dryRun⟩ layout).bytes +
      findableSize (withoutPlaces fs store (layout.selectedPlaces now window)) root store =
        findableSize fs root store := by
  have hroot₁ := directoryAt?_without_scratchPlaces hnames
  have hroot₂ := directoryAt?_without_earlierPlaces hnames
  have hscan₁ := scan_withoutPlaces hs hscan
    (fun _ hplace => (isVisible_of_mem_scratchPlaces hs hscan hplace).imp_right And.left) hroot₁
  have h₁ := bytes_add_findableSize hs (areApart_scratchPlaces hs hscan)
    fun _ => isVisible_of_mem_scratchPlaces hs hscan
  have hapart₂ : AreApart (layout.stalePlaces now window) := areApart_stalePlaces hs hscan
  have h₂ := bytes_add_findableSize (hs.withoutPlaces hroot₁) hapart₂
    fun _ => isVisible_stalePlaces_later hs hscan
  have hapart₃ : AreApart (layout.orphanedPlaces now window) := areApart_orphanedPlaces hs hscan
  have h₃ := bytes_add_findableSize (hs.withoutPlaces hroot₂) hapart₃
    fun _ => isVisible_orphanedPlaces_later hs hscan
  have hstale : staleCandidates fs now window layout = (layout.stalePlaces now window).map
      (candidateAt (withoutPlaces fs store layout.scratchPlaces) root) := by
    rw [← staleCandidates_withoutPlaces hs hscan hscan₁ hroot₁,
      staleCandidates_eq (hs.withoutPlaces hroot₁) hscan₁, stalePlaces_keep hs hscan]
  rw [← transientCandidates_eq hs hscan] at h₁
  rw [← hstale, withoutPlaces_withoutPlaces] at h₂
  rw [← orphanedCandidates_eq hs hscan hroot₂, withoutPlaces_withoutPlaces] at h₃
  simp only [predictedReport, Report.bytes, Layout.selectedPlaces, Layout.earlierPlaces] at *
  omega

end CacheUpkeep.Store
