import CacheUpkeep.Proofs.Store.Exact

/-!
# Dry runs

A dry run looks at the untouched store in all of its steps, and a real prune at
what its earlier steps have left.  Their reports agree step by step.
-/

namespace CacheUpkeep.Store

open CacheUpkeep.Calendar CacheUpkeep.FileSystem CacheUpkeep.Prune

variable {fs : FileSystem} {root : Path} {layout : Layout} {now : Instant}
  {window : RetentionWindow}

/--
Both kinds of prune succeed, the dry one changes nothing, and each of its steps
reports what the same step of the real one reports.
-/
def DryRunAgrees (fs : FileSystem) (root : Path) (now : Instant) (window : RetentionWindow) :
    Prop :=
  ∃ predicted real left,
    (prune (LocalStore.backend ⟨root, now⟩) ⟨window, true⟩).outcome fs = (.ok predicted, fs) ∧
    (prune (LocalStore.backend ⟨root, now⟩) ⟨window, false⟩).outcome fs = (.ok real, left) ∧
    predicted.transient = real.transient ∧ predicted.artifacts = real.artifacts ∧
    predicted.records = real.records

theorem prune_missing (hroot : fs.isDirectory root = false) :
    (prune (LocalStore.backend ⟨root, now⟩) ⟨window, false⟩).outcome fs =
      (.ok ⟨"local", ⟨window, false⟩, Outcome.none, Outcome.none, Outcome.none⟩, fs) :=
  prune_of_steps (selectAndRemove_missing hroot rfl)
    (selectAndRemove_missing hroot staleCandidates_nil) (selectAndRemove_missing hroot rfl)

theorem predictedReport_missing (fs : FileSystem) (dryRun : Bool) :
    predictedReport fs now ⟨window, dryRun⟩ ⟨[]⟩ =
      ⟨"local", ⟨window, dryRun⟩, Outcome.none, Outcome.none, Outcome.none⟩ := by
  simp only [predictedReport, staleCandidates_nil]
  rfl

/-- A dry run predicts a real one wherever a scan succeeds. -/
theorem dryRun_agrees (hfs : fs.WellFormed) (hscan : scan fs root = .ok layout)
    (hstore : ∀ store, fs.directoryAt? root = some store →
      HasNoLinks fs store ∧ NamesWithout fs root store (· ∈ layout.selectedPlaces now window)) :
    DryRunAgrees fs root now window := by
  have hdry : (prune (LocalStore.backend ⟨root, now⟩) ⟨window, true⟩).outcome fs =
      (.ok (predictedReport fs now ⟨window, true⟩ layout), fs) := prune_dry hscan
  cases hroot : fs.directoryAt? root with
  | some store =>
      obtain ⟨hlinks, hnames⟩ := hstore store hroot
      exact ⟨_, _, _, hdry, prune_real ⟨hfs, hlinks, hroot⟩ hscan hnames, rfl, rfl, rfl⟩
  | none =>
      have hmissing : fs.isDirectory root = false := by
        simp [isDirectory, hroot]
      rw [scan_of_not_isDirectory hmissing] at hscan
      cases hscan
      rw [predictedReport_missing] at hdry
      exact ⟨_, _, _, hdry, prune_missing hmissing, rfl, rfl, rfl⟩

theorem dryRun_agrees_sample :
    ∃ layout,
      (Sample.files.WellFormed ∧ scan Sample.files ⟨["store"]⟩ = .ok layout ∧
        ∀ store, Sample.files.directoryAt? ⟨["store"]⟩ = some store →
          HasNoLinks Sample.files store ∧ NamesWithout Sample.files ⟨["store"]⟩ store
            (· ∈ layout.selectedPlaces Sample.clock .standard)) ∧
      DryRunAgrees Sample.files ⟨["store"]⟩ Sample.clock .standard := by
  have hs : IsStore Sample.files ⟨["store"]⟩ ["store"] := Sample.isStore
  obtain ⟨layout, hscan⟩ :=
    (Sample.metadataScans hs (by decide) (by decide)).scan hs
  have hstore : ∀ store, Sample.files.directoryAt? ⟨["store"]⟩ = some store →
      HasNoLinks Sample.files store ∧ NamesWithout Sample.files ⟨["store"]⟩ store
        (· ∈ layout.selectedPlaces Sample.clock .standard) := by
    intro store hroot
    rw [hs.named] at hroot
    cases hroot
    refine ⟨hs.noLinks, Sample.namesWithout fun place hplace => ?_⟩
    rcases (shape_of_mem_selectedPlaces hs hscan hplace).1 with ⟨a, rfl⟩ | ⟨a, b, rfl⟩
    · simp
    · simp
  exact ⟨layout, ⟨hs.wellFormed, hscan, hstore⟩, dryRun_agrees hs.wellFormed hscan hstore⟩

/-- A dry run keeps to a path that the first step of a real one takes away. -/
theorem dryRun_disagrees_through_scratch :
    (Sample.files.WellFormed ∧ (∃ layout, scan Sample.files Sample.throughScratch = .ok layout) ∧
      HasNoLinks Sample.files []) ∧
    ¬ DryRunAgrees Sample.files Sample.throughScratch Sample.clock .standard := by
  have hs : IsStore Sample.files Sample.throughScratch ["store"] := Sample.isStore_throughScratch
  obtain ⟨layout, hscan⟩ := Sample.metadataScans_throughScratch.scan hs
  refine ⟨⟨hs.wellFormed, ⟨layout, hscan⟩, Sample.noLinks []⟩, ?_⟩
  rintro ⟨predicted, real, left, hdry, hreal, -, hartifacts, -⟩
  rw [prune_dry hscan] at hdry
  rw [Sample.prune_throughScratch] at hreal
  cases hdry
  cases hreal
  have hmem : ["a"] ∈ layout.stalePlaces Sample.clock .standard :=
    (mem_stalePlaces_iff hs hscan).mpr ⟨Sample.isStale, by decide⟩
  have hremoved := congrArg Outcome.removed hartifacts
  simp only [predictedReport, outcomeOf, staleCandidates_eq hs hscan, candidateAt_id,
    Outcome.none, List.map_eq_nil_iff] at hremoved
  rw [hremoved] at hmem
  contradiction

end CacheUpkeep.Store
