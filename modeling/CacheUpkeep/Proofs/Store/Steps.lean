import CacheUpkeep.Proofs.FileSystem.Size
import CacheUpkeep.Proofs.Store.Order
import CacheUpkeep.Proofs.Store.Rescan

/-!
# Steps of a prune

A step that removes directories of which none lies in another one ends with the
outcome that its selection predicts, and with everything else unchanged.
-/

namespace CacheUpkeep.Store

open CacheUpkeep.Calendar CacheUpkeep.FileSystem CacheUpkeep.Prune

def outcomeOf (candidates : List Candidate) : Outcome :=
  ⟨candidates.map Candidate.id, candidates.foldr (fun c total => c.bytes + total) 0, []⟩

def candidateAt (fs : FileSystem) (root : Path) (place : Location) : Candidate :=
  ⟨idAt place, pathAt root place, fs.treeSize (pathAt root place) []⟩

/-- Whether what stands at a location is not in the store, or has a path that is not too long. -/
def isFindable (root : Path) (store location : Location) : Bool :=
  match relative? store location with
  | some place => !isTooLong (pathAt root place)
  | none => true

/-- The octets of all files but those in the store whose paths are too long to be looked up. -/
def findableSize (fs : FileSystem) (root : Path) (store : Location) : Nat :=
  fs.sizeWhere (isFindable root store)

def AreApart (places : List Location) : Prop :=
  places.Pairwise fun a b => ¬ a <+: b ∧ ¬ b <+: a

variable {fs : FileSystem} {root : Path} {store place : Location} {places : List Location}
  {layout : Layout} {candidates : List Candidate} {now : Instant} {window : RetentionWindow}
  {gone : List String}

/-! ## Candidates -/

theorem isAt_of_mem_findings {finding : Finding} (hs : IsStore fs root store)
    (hscan : scan fs root = .ok layout) (hfinding : finding ∈ layout.findings) :
    finding.IsAt root :=
  isAt_of_scanEntry ((mem_findings_iff hs hscan).mp hfinding).2

theorem transientCandidates_eq (hs : IsStore fs root store) (hscan : scan fs root = .ok layout) :
    transientCandidates fs layout = layout.scratchPlaces.map (candidateAt fs root) := by
  unfold transientCandidates
  rw [Layout.transient_eq fun _ => isAt_of_mem_findings hs hscan, List.map_map]
  rfl

theorem staleCandidates_eq (hs : IsStore fs root store) (hscan : scan fs root = .ok layout) :
    staleCandidates fs now window layout =
      (layout.stalePlaces now window).map (candidateAt fs root) := by
  have hsort := List.map_mergeSort (r := Layout.placeUsedBefore) (s := usedBefore)
    (f := fun used : Location × Instant => ⟨idAt used.1, pathAt root used.1, used.2⟩)
    (l := layout.artifactPlaces.filter fun used => window.expired used.2 now)
    fun _ _ _ _ => rfl
  unfold staleCandidates Layout.stalePlaces
  rw [Layout.artifacts_eq fun _ => isAt_of_mem_findings hs hscan, List.filter_map]
  dsimp only [Function.comp_def]
  rw [← hsort, List.map_map, List.map_map]
  rfl

theorem orphanedCandidates_id (layout : Layout) :
    (orphanedCandidates fs now window layout).map Candidate.id =
      (layout.orphanedPlaces now window).map idAt := by
  simp [orphanedCandidates, Layout.orphanedPlaces]

theorem orphanedCandidates_path (hs : IsStore fs root store)
    (hscan : scan fs root = .ok layout) :
    (orphanedCandidates fs now window layout).map Candidate.path =
      (layout.orphanedPlaces now window).map (pathAt root) := by
  simp only [orphanedCandidates, Layout.orphanedPlaces, List.map_map]
  refine List.map_congr_left fun r hr => ?_
  exact isAt_of_mem_findings hs hscan (mem_records_iff.mp (List.mem_filter.mp hr).1)

/-! ## Octets -/

theorem treeSize_pathAt (hs : IsStore fs root store) (hnil : place ≠ [])
    (hvisible : IsVisible fs root store place) (excluded : List String) :
    fs.treeSize (pathAt root place) excluded =
      fs.sizeBelow (pathAt root place) (store ++ place) excluded := by
  rw [treeSize, (hs.below hnil hvisible).named]

theorem treeSize_withoutPlaces (hs : IsStore fs root store)
    (hroot : (withoutPlaces fs store places).directoryAt? root = some store)
    (hnil : place ≠ []) (hvisible : IsVisible fs root store place)
    (hplace : ¬ IsCovered places place)
    (hgone : ∀ name rest, IsCovered places (place ++ name :: rest) ↔ name ∈ gone) :
    (withoutPlaces fs store places).treeSize (pathAt root place) [] =
      fs.treeSize (pathAt root place) gone := by
  rw [treeSize_pathAt hs hnil hvisible,
    treeSize_pathAt (hs.withoutPlaces hroot) hnil ((isVisible_withoutPlaces hplace).mpr hvisible)]
  refine sizeBelow_withoutAll fun name rest => ?_
  rw [List.append_assoc, isCovered_map_iff, hgone]

theorem not_isCovered_of_apart
    (hapart : ∀ other ∈ places, ¬ other <+: place ∧ ¬ place <+: other) (rest : Location) :
    ¬ IsCovered places (place ++ rest) := by
  rintro ⟨other, hother, hpre⟩
  rcases List.prefix_or_prefix_of_prefix hpre (List.prefix_append place rest) with h | h
  · exact (hapart other hother).1 h
  · exact (hapart other hother).2 h

theorem isFindable_append (root : Path) (store place : Location) :
    isFindable root store (store ++ place) = !isTooLong (pathAt root place) := by
  rw [isFindable, relative?_eq_some_iff.mpr rfl]

theorem sizes_add_findableSize (root : Path) (hfs : fs.WellFormed) (hapart : AreApart places)
    (hdirs : ∀ place ∈ places, fs.node? (store ++ place) = some .directory) :
    places.foldr (fun place total =>
        fs.sizeBelow (pathAt root place) (store ++ place) [] + total) 0 +
      findableSize (withoutPlaces fs store places) root store = findableSize fs root store := by
  induction places generalizing fs with
  | nil => simp
  | cons place rest ih =>
      obtain ⟨hhead, htail⟩ := List.pairwise_cons.mp hapart
      have hstays : ∀ other ∈ rest, ∀ below, ¬ IsCovered [place] (other ++ below) := by
        intro other hother
        refine not_isCovered_of_apart fun dir hdir => ?_
        rw [List.mem_singleton] at hdir
        subst hdir
        exact hhead other hother
      have hrest := ih (hfs.withoutAll _) htail fun other hother => by
        rw [← withoutPlaces, node?_withoutPlaces (by simpa using hstays other hother [])]
        exact hdirs other (List.mem_cons_of_mem _ hother)
      rw [← withoutPlaces, withoutPlaces_withoutPlaces] at hrest
      have hsizes : rest.foldr (fun other total =>
            (withoutPlaces fs store [place]).sizeBelow (pathAt root other) (store ++ other) [] +
              total) 0 =
          rest.foldr (fun other total =>
            fs.sizeBelow (pathAt root other) (store ++ other) [] + total) 0 := by
        refine List.foldr_ext _ _ _ fun other hother total => ?_
        rw [withoutPlaces, sizeBelow_withoutAll]
        intro name below
        rw [List.append_assoc, isCovered_map_iff]
        simpa using hstays other hother (name :: below)
      rw [hsizes] at hrest
      have hcounts : ∀ below, isFindable root store (store ++ place ++ below) =
          !isTooLong (below.foldl Path.child (pathAt root place)) := by
        intro below
        rw [List.append_assoc, isFindable_append, pathAt, pathAt, List.foldl_append]
      have hfreed := sizeBelow_add_sizeWhere hfs (hdirs place List.mem_cons_self) hcounts
      have hfirst : fs.without (store ++ place) = withoutPlaces fs store [place] :=
        without_eq_withoutAll fs _
      rw [hfirst] at hfreed
      simp only [List.foldr_cons, List.singleton_append, findableSize] at hrest ⊢
      omega

/-! ## Removal -/

theorem removeEach_dry (remove : Remover) (candidates : List Candidate) (fs : FileSystem) :
    (removeEach remove true candidates).outcome fs = (.ok (outcomeOf candidates), fs) := by
  induction candidates with
  | nil => rfl
  | cons c rest ih =>
      unfold removeEach
      rw [if_pos rfl]
      exact Action.outcome_bind_ok ih

theorem removeTree_pathAt (hs : IsStore fs root store) (hnil : place ≠ [])
    (hvisible : IsVisible fs root store place) :
    (removeTree (pathAt root place)).outcome fs = (.ok (), withoutPlaces fs store [place]) := by
  refine Action.outcome_changing_ok ?_
  have hfind : fs.linkStat (pathAt root place) = .ok (store ++ place, .directory) :=
    hs.find_pathAt false hnil hvisible
  unfold FileSystem.removeTree
  rw [hfind]
  exact congrArg Except.ok (without_eq_withoutAll fs _)

theorem removeEach_single (hs : IsStore fs root store) (hnil : place ≠ [])
    (hvisible : IsVisible fs root store place) :
    (removeEach removeTree false [candidateAt fs root place]).outcome fs =
      (.ok (outcomeOf [candidateAt fs root place]), withoutPlaces fs store [place]) := by
  have hremove := removeTree_pathAt hs hnil hvisible
  unfold removeEach
  rw [if_neg Bool.false_ne_true]
  exact Action.outcome_bind_ok (Action.outcome_mapError_ok hremove)

theorem removeEach_real (hs : IsStore fs root store) (hapart : AreApart places)
    (hpaths : candidates.map Candidate.path = places.map (pathAt root))
    (hvisible : ∀ place ∈ places, place ≠ [] ∧ IsVisible fs root store place)
    (hnames : NamesWithout fs root store (· ∈ places)) :
    (removeEach removeTree false candidates).outcome fs =
      (.ok (outcomeOf candidates), withoutPlaces fs store places) := by
  induction places generalizing fs candidates with
  | nil =>
      rw [List.map_nil, List.map_eq_nil_iff] at hpaths
      subst hpaths
      simp [removeEach, outcomeOf, Outcome.none]
  | cons place rest ih =>
      obtain ⟨c, others, rfl, hpath, hothers⟩ := List.map_eq_cons_iff.mp hpaths
      obtain ⟨hhead, htail⟩ := List.pairwise_cons.mp hapart
      obtain ⟨hnil, hseen⟩ := hvisible place List.mem_cons_self
      have hfirst : (removeTree c.path).outcome fs = (.ok (), withoutPlaces fs store [place]) := by
        rw [hpath]
        exact removeTree_pathAt hs hnil hseen
      have hroot := hnames [place] fun other hother => by simp_all
      have hrest := ih (hs.withoutPlaces hroot) htail hothers
        (fun other hother => by
          obtain ⟨hnil', hseen'⟩ := hvisible other (List.mem_cons_of_mem _ hother)
          refine ⟨hnil', (isVisible_withoutPlaces ?_).mpr hseen'⟩
          rintro ⟨dir, hdir, hpre⟩
          rw [List.mem_singleton] at hdir
          subst hdir
          exact (hhead other hother).1 hpre)
        (hnames.withoutPlaces (by simp) fun _ => List.mem_cons_of_mem _)
      rw [withoutPlaces_withoutPlaces] at hrest
      unfold removeEach
      rw [if_neg Bool.false_ne_true, Action.outcome_bind_ok (Action.outcome_mapError_ok hfirst),
        Action.outcome_bind_ok hrest]
      rfl

end CacheUpkeep.Store
