import CacheUpkeep.Proofs.Store.Steps

/-!
# Later steps on the smaller store

The second step of a real prune scans a store without its scratch directories,
the third one without its stale artifacts either.  They select the same entries,
with the same numbers of octets, as they would on the store as it was at first.
-/

namespace CacheUpkeep.Store

open CacheUpkeep.Calendar CacheUpkeep.FileSystem CacheUpkeep.Prune

variable {fs : FileSystem} {root : Path} {store place : Location} {places : List Location}
  {layout : Layout} {now lastUsed : Instant} {window : RetentionWindow} {r : Record}
  {stays : Location → Bool} {name : String}

/-! ## Layouts without places -/

theorem artifactPlaces_keep
    (hrecords : ∀ r, Finding.record r ∈ layout.findings → stays [r.id] = true) :
    (layout.keep stays).artifactPlaces =
      layout.artifactPlaces.filter fun used => stays used.1 := by
  obtain ⟨findings⟩ := layout
  simp only [Layout.keep, Layout.artifactPlaces] at hrecords ⊢
  induction findings with
  | nil => rfl
  | cons finding rest ih =>
      have hrest := ih fun r hr => hrecords r (List.mem_cons_of_mem _ hr)
      rw [List.flatMap_cons, List.filter_append, ← hrest]
      cases finding with
      | scratch name path =>
          cases hstays : stays [name] <;>
            simp [hstays, Finding.keep, Finding.artifactPlaces]
      | artifact a =>
          cases hstays : stays [a.id] <;>
            simp [hstays, Finding.keep, Finding.artifactPlaces]
      | unknown name =>
          cases hstays : stays [name] <;>
            simp [hstays, Finding.keep, Finding.artifactPlaces]
      | record r =>
          have hstays := hrecords r List.mem_cons_self
          simp only [Finding.name, hstays, List.filter_cons_of_pos, List.map_cons,
            List.flatMap_cons, Finding.keep, Finding.artifactPlaces, List.filter_filterMap,
            List.filterMap_filter]
          congr 1
          refine List.filterMap_congr fun part _ => ?_
          cases part with
          | scratch name => exact ite_self none
          | artifact name lastUsed =>
              cases hpart : stays [r.id, name] <;> simp [hpart, Option.filter]
          | unknown name => exact ite_self none

theorem records_keep
    (hrecords : ∀ r, Finding.record r ∈ layout.findings → stays [r.id] = true) :
    (layout.keep stays).records = layout.records.map fun r =>
      { r with parts := r.parts.filter fun part => stays [r.id, part.name] } := by
  simp only [Layout.keep, Layout.records, List.filterMap_map, List.filterMap_filter,
    List.map_filterMap]
  refine List.filterMap_congr fun finding hfinding => ?_
  cases finding with
  | scratch name path => exact ite_self none
  | artifact a => exact ite_self none
  | unknown name => exact ite_self none
  | record r => simp [hrecords r hfinding, Finding.keep]

/-! ## Owned places -/

theorem isOwned_of_mem_scratchPlaces (hs : IsStore fs root store)
    (hscan : scan fs root = .ok layout) (hplace : place ∈ layout.scratchPlaces) :
    IsOwned fs store place :=
  .inl ((mem_scratchPlaces_iff hs hscan).mp hplace).1

theorem isOwned_of_mem_stalePlaces (hs : IsStore fs root store)
    (hscan : scan fs root = .ok layout) (hplace : place ∈ layout.stalePlaces now window) :
    IsOwned fs store place := by
  obtain ⟨⟨used, hartifact, -⟩, -⟩ := (mem_stalePlaces_iff hs hscan).mp hplace
  exact .inr ⟨used, hartifact⟩

theorem record_notMem_of_isOwned (hs : IsStore fs root store) (hscan : scan fs root = .ok layout)
    (howned : ∀ place ∈ places, IsOwned fs store place)
    (hr : Finding.record r ∈ layout.findings) : [r.id] ∉ places := by
  obtain ⟨-, -, hentry, -⟩ := record_of_mem hs hscan hr
  exact fun hmem => (howned _ hmem).not_isRecord hentry

theorem pair_mem_scratchPlaces_iff (hs : IsStore fs root store)
    (hscan : scan fs root = .ok layout) (hr : Finding.record r ∈ layout.findings) :
    [r.id, name] ∈ layout.scratchPlaces ↔ .scratch name ∈ r.parts := by
  rw [mem_scratchPlaces_iff hs hscan, scratch_mem_parts_iff hs hscan hr, isScratch_pair_iff]
  constructor
  · rintro ⟨⟨-, hname, hbare⟩, hlong⟩
    exact ⟨⟨hbare.1, hlong⟩, hbare, hname⟩
  · rintro ⟨hvisible, hbare, hname⟩
    obtain ⟨-, -, hentry, -⟩ := record_of_mem hs hscan hr
    exact ⟨⟨⟨_, hentry⟩, hname, hbare⟩, hvisible.2⟩

theorem pair_mem_stalePlaces_iff (hs : IsStore fs root store)
    (hscan : scan fs root = .ok layout) (hr : Finding.record r ∈ layout.findings) :
    [r.id, name] ∈ layout.stalePlaces now window ↔
      ∃ lastUsed, .artifact name lastUsed ∈ r.parts ∧ window.expired lastUsed now = true := by
  simp only [mem_stalePlaces_iff hs hscan, artifact_mem_parts_iff hs hscan hr]
  constructor
  · rintro ⟨⟨used, hartifact, hexpired⟩, hlong⟩
    cases hartifact with
    | inRecord entry hpart => exact ⟨used, ⟨⟨hpart.1, hlong⟩, hpart⟩, hexpired⟩
  · rintro ⟨used, ⟨hvisible, hpart⟩, hexpired⟩
    obtain ⟨-, -, hentry, -⟩ := record_of_mem hs hscan hr
    exact ⟨⟨used, .inRecord hentry hpart, hexpired⟩, hvisible.2⟩

/-! ## The second step -/

theorem scratchPlaces_apart_stalePlaces {other : Location} (hs : IsStore fs root store)
    (hscan : scan fs root = .ok layout) (hplace : place ∈ layout.stalePlaces now window)
    (hother : other ∈ layout.scratchPlaces) : ¬ other <+: place ∧ ¬ place <+: other := by
  have howned := isOwned_of_mem_stalePlaces hs hscan hplace
  have howned' := isOwned_of_mem_scratchPlaces hs hscan hother
  have hne : other ≠ place := by
    rintro rfl
    obtain ⟨⟨used, hartifact, -⟩, -⟩ := (mem_stalePlaces_iff hs hscan).mp hplace
    exact ((mem_scratchPlaces_iff hs hscan).mp hother).1.not_isArtifact hartifact
  exact ⟨fun hpre => hne (howned'.eq_of_below howned hpre),
    fun hpre => hne (howned.eq_of_below howned' hpre).symm⟩

theorem stalePlaces_keep (hs : IsStore fs root store) (hscan : scan fs root = .ok layout) :
    (layout.keep fun place => place ∉ layout.scratchPlaces).stalePlaces now window =
      layout.stalePlaces now window := by
  have hkeep : (layout.keep fun place => place ∉ layout.scratchPlaces).artifactPlaces =
      layout.artifactPlaces := by
    rw [artifactPlaces_keep fun r hr => decide_eq_true (record_notMem_of_isOwned hs hscan
      (fun _ => isOwned_of_mem_scratchPlaces hs hscan) hr), List.filter_eq_self]
    rintro ⟨place, used⟩ hplace
    have hartifact := ((mem_artifactPlaces_iff hs hscan).mp hplace).1
    exact decide_eq_true fun hmem =>
      ((mem_scratchPlaces_iff hs hscan).mp hmem).1.not_isArtifact hartifact
  rw [Layout.stalePlaces, hkeep, Layout.stalePlaces]

theorem staleCandidates_withoutPlaces (hs : IsStore fs root store)
    (hscan : scan fs root = .ok layout)
    (hscan' : scan (withoutPlaces fs store layout.scratchPlaces) root =
      .ok (layout.keep fun place => place ∉ layout.scratchPlaces))
    (hroot : (withoutPlaces fs store layout.scratchPlaces).directoryAt? root = some store) :
    staleCandidates (withoutPlaces fs store layout.scratchPlaces) now window
        (layout.keep fun place => place ∉ layout.scratchPlaces) =
      staleCandidates fs now window layout := by
  rw [staleCandidates_eq (hs.withoutPlaces hroot) hscan', staleCandidates_eq hs hscan,
    stalePlaces_keep hs hscan]
  refine List.map_congr_left fun place hplace => ?_
  have hapart : ∀ other ∈ layout.scratchPlaces, ¬ other <+: place ∧ ¬ place <+: other :=
    fun _ => scratchPlaces_apart_stalePlaces hs hscan hplace
  obtain ⟨⟨used, hartifact, -⟩, hlong⟩ := (mem_stalePlaces_iff hs hscan).mp hplace
  have hnil : place ≠ [] := by
    rintro rfl
    cases hartifact
  simp only [candidateAt, Candidate.mk.injEq, true_and]
  refine treeSize_withoutPlaces hs hroot hnil ⟨hartifact.node?, hlong⟩ ?_ ?_
  · simpa using not_isCovered_of_apart hapart []
  · intro name rest
    simpa using not_isCovered_of_apart hapart (name :: rest)

/-! ## The third step -/

def Layout.earlierPlaces (now : Instant) (window : RetentionWindow) (layout : Layout) :
    List Location :=
  layout.scratchPlaces ++ layout.stalePlaces now window

def Record.rest (layout : Layout) (now : Instant) (window : RetentionWindow) (r : Record) :
    Record :=
  { r with parts := r.parts.filter fun part =>
      [r.id, part.name] ∉ layout.earlierPlaces now window }

theorem isOwned_of_mem_earlierPlaces (hs : IsStore fs root store)
    (hscan : scan fs root = .ok layout) (hplace : place ∈ layout.earlierPlaces now window) :
    IsOwned fs store place := by
  rcases List.mem_append.mp hplace with h | h
  · exact isOwned_of_mem_scratchPlaces hs hscan h
  · exact isOwned_of_mem_stalePlaces hs hscan h

theorem pair_mem_earlierPlaces_iff (hs : IsStore fs root store)
    (hscan : scan fs root = .ok layout) (hr : Finding.record r ∈ layout.findings) :
    [r.id, name] ∈ layout.earlierPlaces now window ↔
      .scratch name ∈ r.parts ∨
        ∃ lastUsed, .artifact name lastUsed ∈ r.parts ∧ window.expired lastUsed now = true := by
  rw [Layout.earlierPlaces, List.mem_append, pair_mem_scratchPlaces_iff hs hscan hr,
    pair_mem_stalePlaces_iff hs hscan hr]

theorem part_eq_of_name_eq {part other : Part} (hs : IsStore fs root store)
    (hscan : scan fs root = .ok layout) (hr : Finding.record r ∈ layout.findings)
    (hpart : part ∈ r.parts) (hother : other ∈ r.parts) (hname : part.name = other.name) :
    part = other := by
  have h := ((mem_parts_iff hs hscan hr).mp hpart).2
  have h' := ((mem_parts_iff hs hscan hr).mp hother).2
  rw [hname, h'] at h
  exact (Except.ok.inj h).symm

theorem mem_rest_parts_iff {part : Part} :
    part ∈ (r.rest layout now window).parts ↔
      part ∈ r.parts ∧ [r.id, part.name] ∉ layout.earlierPlaces now window := by
  simp [Record.rest]

theorem isOrphaned_rest (hs : IsStore fs root store) (hscan : scan fs root = .ok layout)
    (hr : Finding.record r ∈ layout.findings) :
    isOrphaned now window (r.rest layout now window) = isOrphaned now window r := by
  rw [Bool.eq_iff_iff, isOrphaned_iff, isOrphaned_iff]
  simp only [mem_rest_parts_iff, Part.name_unknown, Part.name_artifact,
    pair_mem_earlierPlaces_iff hs hscan hr]
  constructor
  · rintro ⟨hunknown, hexpired, hartifacts⟩
    refine ⟨fun name hpart => hunknown name ⟨hpart, ?_⟩, hexpired, ?_⟩
    · rintro (hscratch | ⟨used, hartifact, -⟩)
      · cases part_eq_of_name_eq hs hscan hr hpart hscratch rfl
      · cases part_eq_of_name_eq hs hscan hr hpart hartifact rfl
    · intro name used hpart
      by_contra hlive
      refine hlive (hartifacts name used ⟨hpart, ?_⟩)
      rintro (hscratch | ⟨used', hartifact, hexpired'⟩)
      · cases part_eq_of_name_eq hs hscan hr hpart hscratch rfl
      · cases part_eq_of_name_eq hs hscan hr hpart hartifact rfl
        exact hlive hexpired'
  · rintro ⟨hunknown, hexpired, hartifacts⟩
    exact ⟨fun name hpart => hunknown name hpart.1, hexpired,
      fun name used hpart => hartifacts name used hpart.1⟩

theorem mem_ownedNames_iff :
    name ∈ r.ownedNames ↔ .scratch name ∈ r.parts ∨ ∃ used, .artifact name used ∈ r.parts := by
  simp only [Record.ownedNames, List.mem_filterMap]
  constructor
  · rintro ⟨part, hpart, hname⟩
    cases part with
    | scratch x =>
        simp only [Option.some.injEq] at hname
        exact .inl (hname ▸ hpart)
    | artifact x used =>
        simp only [Option.some.injEq] at hname
        exact .inr ⟨used, hname ▸ hpart⟩
    | unknown x => simp at hname
  · rintro (hpart | ⟨used, hpart⟩)
    · exact ⟨_, hpart, rfl⟩
    · exact ⟨_, hpart, rfl⟩

theorem pair_mem_earlierPlaces_iff_ownedNames (hs : IsStore fs root store)
    (hscan : scan fs root = .ok layout) (hr : Finding.record r ∈ layout.findings)
    (horphaned : isOrphaned now window r = true) :
    [r.id, name] ∈ layout.earlierPlaces now window ↔ name ∈ r.ownedNames := by
  rw [pair_mem_earlierPlaces_iff hs hscan hr, mem_ownedNames_iff]
  refine or_congr_right (exists_congr fun used => ?_)
  exact and_iff_left_of_imp ((isOrphaned_iff.mp horphaned).2.2 name used)

theorem ownedNames_rest (hs : IsStore fs root store) (hscan : scan fs root = .ok layout)
    (hr : Finding.record r ∈ layout.findings) (horphaned : isOrphaned now window r = true) :
    (r.rest layout now window).ownedNames = [] := by
  rw [List.eq_nil_iff_forall_not_mem]
  intro name hname
  simp only [mem_ownedNames_iff, mem_rest_parts_iff, Part.name_scratch, Part.name_artifact,
    pair_mem_earlierPlaces_iff_ownedNames hs hscan hr horphaned] at hname
  rcases hname with ⟨hpart, hout⟩ | ⟨used, hpart, hout⟩
  · exact hout (.inl hpart)
  · exact hout (.inr ⟨used, hpart⟩)

theorem isCovered_record_iff {rest : Location} (hs : IsStore fs root store)
    (hscan : scan fs root = .ok layout) (hr : Finding.record r ∈ layout.findings) :
    IsCovered (layout.earlierPlaces now window) ([r.id] ++ name :: rest) ↔
      [r.id, name] ∈ layout.earlierPlaces now window := by
  constructor
  · rintro ⟨place, hplace, hpre⟩
    have howned := isOwned_of_mem_earlierPlaces hs hscan hplace
    rcases howned.eq_single_or_pair with ⟨x, rfl⟩ | ⟨record, x, used, rfl, -⟩
    · obtain ⟨rfl, -⟩ := List.cons_prefix_cons.mp hpre
      exact absurd hplace (record_notMem_of_isOwned hs hscan
        (fun _ => isOwned_of_mem_earlierPlaces hs hscan) hr)
    · obtain ⟨rfl, htail⟩ := List.cons_prefix_cons.mp hpre
      obtain ⟨rfl, -⟩ := List.cons_prefix_cons.mp htail
      exact hplace
  · intro hplace
    exact ⟨_, hplace, by simp⟩

theorem not_isCovered_record (hs : IsStore fs root store) (hscan : scan fs root = .ok layout)
    (hr : Finding.record r ∈ layout.findings) :
    ¬ IsCovered (layout.earlierPlaces now window) [r.id] := by
  rintro ⟨place, hplace, hpre⟩
  have howned := isOwned_of_mem_earlierPlaces hs hscan hplace
  rcases howned.eq_single_or_pair with ⟨x, rfl⟩ | ⟨record, x, used, rfl, -⟩
  · obtain ⟨rfl, -⟩ := List.cons_prefix_cons.mp hpre
    exact record_notMem_of_isOwned hs hscan
      (fun _ => isOwned_of_mem_earlierPlaces hs hscan) hr hplace
  · have := hpre.length_le
    simp at this

/-- What is left of a record that goes are the octets that the earlier steps do not count. -/
theorem treeSize_record (hs : IsStore fs root store) (hscan : scan fs root = .ok layout)
    (hroot : (withoutPlaces fs store (layout.earlierPlaces now window)).directoryAt? root =
      some store)
    (hr : Finding.record r ∈ layout.findings) (horphaned : isOrphaned now window r = true) :
    (withoutPlaces fs store (layout.earlierPlaces now window)).treeSize r.path [] =
      fs.treeSize r.path r.ownedNames := by
  obtain ⟨hvisible, hpath, -, -⟩ := record_of_mem hs hscan hr
  have hgone : ∀ name rest, IsCovered (layout.earlierPlaces now window) ([r.id] ++ name :: rest) ↔
      name ∈ r.ownedNames := by
    intro name rest
    rw [isCovered_record_iff hs hscan hr,
      pair_mem_earlierPlaces_iff_ownedNames hs hscan hr horphaned]
  have hsize := treeSize_withoutPlaces hs hroot (by simp) hvisible
    (not_isCovered_record hs hscan hr) hgone
  rwa [pathAt_single, ← hpath] at hsize

theorem orphanedCandidates_eq (hs : IsStore fs root store) (hscan : scan fs root = .ok layout)
    (hroot : (withoutPlaces fs store (layout.earlierPlaces now window)).directoryAt? root =
      some store) :
    orphanedCandidates fs now window layout = (layout.orphanedPlaces now window).map
      (candidateAt (withoutPlaces fs store (layout.earlierPlaces now window)) root) := by
  unfold orphanedCandidates Layout.orphanedPlaces
  rw [List.map_map]
  refine List.map_congr_left fun r hr => ?_
  obtain ⟨hr, horphaned⟩ := List.mem_filter.mp hr
  rw [mem_records_iff] at hr
  obtain ⟨-, hpath, -, -⟩ := record_of_mem hs hscan hr
  simp only [Function.comp_apply, candidateAt, idAt_single, pathAt_single, ← hpath,
    treeSize_record hs hscan hroot hr horphaned]

theorem orphanedCandidates_withoutPlaces (hs : IsStore fs root store)
    (hscan : scan fs root = .ok layout)
    (hroot : (withoutPlaces fs store (layout.earlierPlaces now window)).directoryAt? root =
      some store) :
    orphanedCandidates (withoutPlaces fs store (layout.earlierPlaces now window)) now window
        (layout.keep fun place => place ∉ layout.earlierPlaces now window) =
      orphanedCandidates fs now window layout := by
  have hrecords : (layout.keep fun place => place ∉ layout.earlierPlaces now window).records =
      layout.records.map (Record.rest layout now window) :=
    records_keep fun r hr => decide_eq_true (record_notMem_of_isOwned hs hscan
      (fun _ => isOwned_of_mem_earlierPlaces hs hscan) hr)
  have hfilter : layout.records.filter
      (isOrphaned now window ∘ Record.rest layout now window) =
        layout.records.filter (isOrphaned now window) :=
    List.filter_congr fun r hr => isOrphaned_rest hs hscan (mem_records_iff.mp hr)
  unfold orphanedCandidates
  rw [hrecords, List.filter_map, hfilter, List.map_map]
  refine List.map_congr_left fun r hr => ?_
  obtain ⟨hr, horphaned⟩ := List.mem_filter.mp hr
  rw [mem_records_iff] at hr
  simp only [Function.comp_apply, ownedNames_rest hs hscan hr horphaned]
  exact congrArg (Candidate.mk r.id r.path) (treeSize_record hs hscan hroot hr horphaned)

end CacheUpkeep.Store
