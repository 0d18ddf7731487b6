import CacheUpkeep.Proofs.Store.Effect
import CacheUpkeep.Proofs.Store.Shrinking

/-!
# What is left of a store

A prune that stops halfway leaves the store without a part of what it selects.  What
another prune selects there was selected before.  The converse fails where an entry
has lost its metadata and its directory is left: without metadata it is no entry, and
unless it counts as scratch then, no prune removes it any more.
-/

namespace CacheUpkeep.Store

open CacheUpkeep.Calendar CacheUpkeep.FileSystem CacheUpkeep.Prune

inductive IsDated (fs : FileSystem) (store : Location) : Location → Instant → Prop where
  | artifact {place : Location} {lastUsed : Instant} (h : IsArtifact fs store place lastUsed) :
      IsDated fs store place lastUsed
  | record {name : String} {lastUsed : Instant}
      (h : IsEntry fs .record (store ++ [name]) lastUsed) : IsDated fs store [name] lastUsed

/-- Of what stands in `fs`, only parts of the given places are gone. -/
structure IsRemainder (fs : FileSystem) (store : Location) (places : List Location)
    (left : FileSystem) : Prop where
  gone : ∃ gone : List Location, left = fs.withoutAll gone ∧
    ∀ location ∈ gone, IsCovered (places.map (store ++ ·)) location

/--
An entry that has lost its metadata but not its directory, and that neither counts as
scratch without it nor lies in what does.
-/
structure IsStranded (fs left : FileSystem) (root : Path) (store place : Location) : Prop where
  dated : ∃ lastUsed, IsDated fs store place lastUsed
  isTooLong_eq_false : isTooLong (pathAt root place) = false
  bare : IsBare left (store ++ place)
  not_isScratch : ∀ dir, dir <+: place → ¬ IsScratch left store dir

variable {fs left : FileSystem} {root : Path} {store place dir : Location}
  {places more : List Location} {layout rest : Layout} {now lastUsed : Instant}
  {window : RetentionWindow} {kind : EntryKind} {record name : String}

/-! ## Entries of what is left -/

theorem IsEntry.of_extends (h : fs.Extends left) (hentry : IsEntry left kind dir lastUsed) :
    IsEntry fs kind dir lastUsed := by
  obtain ⟨hdir, key, hmeta⟩ := hentry
  refine ⟨h.node? hdir, key, ?_⟩
  unfold metadataAt? at hmeta ⊢
  cases hnode : left.node? (dir ++ [metadataName]) with
  | none =>
      rw [hnode] at hmeta
      cases hmeta
  | some node =>
      rw [hnode] at hmeta
      rw [h.node? hnode]
      exact hmeta

theorem IsEntry.isBare_or_stays (h : fs.Extends left) (hentry : IsEntry fs kind dir lastUsed)
    (hdir : left.node? dir = some .directory) :
    IsBare left dir ∨ IsEntry left kind dir lastUsed := by
  cases hnode : left.node? (dir ++ [metadataName]) with
  | none => exact .inl ⟨hdir, hnode⟩
  | some node =>
      obtain ⟨-, key, hmeta⟩ := hentry
      refine .inr ⟨hdir, key, ?_⟩
      rwa [metadataAt?, hnode, ← h.node? hnode]

theorem IsBare.of_extends (h : fs.Extends left) (hbare : IsBare fs dir)
    (hdir : left.node? dir = some .directory) : IsBare left dir := by
  refine ⟨hdir, Option.eq_none_iff_forall_ne_some.mpr fun node hnode => ?_⟩
  have hthere := h.node? hnode
  rw [hbare.2] at hthere
  cases hthere

theorem IsArtifact.of_extends (h : fs.Extends left)
    (hartifact : IsArtifact left store place lastUsed) : IsArtifact fs store place lastUsed := by
  cases hartifact with
  | inStore entry => exact .inStore (entry.of_extends h)
  | inRecord entry part => exact .inRecord (entry.of_extends h) (part.of_extends h)

theorem IsDated.exists_isEntry (h : IsDated fs store place lastUsed) :
    ∃ kind, IsEntry fs kind (store ++ place) lastUsed := by
  cases h with
  | record h => exact ⟨_, h⟩
  | artifact h =>
      cases h with
      | inStore entry => exact ⟨_, entry⟩
      | inRecord entry part => exact ⟨_, part⟩

theorem IsDated.ne_nil (h : IsDated fs store place lastUsed) : place ≠ [] := by
  cases h with
  | record h => simp
  | artifact h => exact h.ne_nil

theorem IsDated.above (h : IsDated fs store place lastUsed) (hnil : dir ≠ []) (hpre : dir <+: place)
    (hne : dir ≠ place) : ∃ record name used, dir = [record] ∧ place = [record, name] ∧
      IsEntry fs .record (store ++ [record]) used := by
  have hsingle : ∀ {name}, dir <+: [name] → dir = [name] := by
    intro name hpre
    rcases List.prefix_concat_iff.mp (show dir <+: [] ++ [name] from hpre) with heq | hempty
    · exact heq
    · exact absurd (List.prefix_nil.mp hempty) hnil
  cases h with
  | record h => exact absurd (hsingle hpre) hne
  | artifact h =>
      cases h with
      | inStore entry => exact absurd (hsingle hpre) hne
      | @inRecord record name used _ entry part =>
          rcases List.prefix_concat_iff.mp (show dir <+: [record] ++ [name] from hpre) with
            heq | habove
          · exact absurd heq hne
          · exact ⟨record, name, used, hsingle habove, rfl, entry⟩

/-! ## What a scan selects, by the kinds of directories -/

theorem exists_isEntry_of_not_isBare (hs : IsStore fs root store)
    (hscan : scan fs root = .ok layout) (hvisible : IsVisible fs root store [name])
    (hbare : ¬ IsBare fs (store ++ [name])) :
    ∃ kind lastUsed, IsEntry fs kind (store ++ [name]) lastUsed := by
  obtain ⟨finding, -, hfinding⟩ := exists_finding hs hscan hvisible
  have hbelow := hs.below (by simp) hvisible
  rcases scanEntry_eq_ok_iff.mp hfinding with
    ⟨hread, -⟩ | ⟨m, hread, -⟩ | ⟨m, names, parts, hread, -⟩
  · exact absurd ((hbelow.isBare_iff hvisible.1 hread).mpr rfl) hbare
  · exact ⟨m.kind, m.lastUsed, (hbelow.isEntry_iff _ _ hvisible.1 hread).mpr ⟨m.key, rfl⟩⟩
  · exact ⟨m.kind, m.lastUsed, (hbelow.isEntry_iff _ _ hvisible.1 hread).mpr ⟨m.key, rfl⟩⟩

theorem exists_isEntry_of_part (hs : IsStore fs root store) (hscan : scan fs root = .ok layout)
    (hentry : IsEntry fs .record (store ++ [record]) lastUsed)
    (hvisible : IsVisible fs root store [record, name])
    (hbare : ¬ IsBare fs (store ++ [record, name])) :
    ∃ lastUsed, IsEntry fs .artifact (store ++ [record, name]) lastUsed := by
  obtain ⟨r, hr, rfl, -⟩ := exists_record hs hscan (hs.isVisible_of_append hvisible) hentry
  obtain ⟨part, hpart, rfl⟩ := exists_part hs hscan hr hvisible
  cases part with
  | scratch name => exact absurd ((scratch_mem_parts_iff hs hscan hr).mp hpart).2.1 hbare
  | unknown name => exact absurd ((unknown_mem_parts_iff hs hscan hr).mp hpart).2.1 hbare
  | artifact name used => exact ⟨used, ((artifact_mem_parts_iff hs hscan hr).mp hpart).2⟩

theorem single_mem_orphanedPlaces_iff (hs : IsStore fs root store)
    (hscan : scan fs root = .ok layout) :
    [record] ∈ layout.orphanedPlaces now window ↔
      IsVisible fs root store [record] ∧
        ∃ lastUsed, IsEntry fs .record (store ++ [record]) lastUsed ∧
          window.expired lastUsed now = true ∧
          (∀ name, IsVisible fs root store [record, name] →
            IsBare fs (store ++ [record, name]) → name ∈ recordScratchNames) ∧
          ∀ name lastUsed, IsVisible fs root store [record, name] →
            IsEntry fs .artifact (store ++ [record, name]) lastUsed →
              window.expired lastUsed now = true := by
  rw [mem_orphanedPlaces]
  constructor
  · rintro ⟨r, hr, horphaned, heq⟩
    cases heq
    obtain ⟨hunknown, hexpired, hartifacts⟩ := isOrphaned_iff.mp horphaned
    obtain ⟨hvisible, -, hentry, -⟩ := record_of_mem hs hscan hr
    refine ⟨hvisible, r.lastUsed, hentry, hexpired, fun name hseen hbare => ?_,
      fun name used hseen hpart => hartifacts name used
        ((artifact_mem_parts_iff hs hscan hr).mpr ⟨hseen, hpart⟩)⟩
    by_contra hname
    exact hunknown name ((unknown_mem_parts_iff hs hscan hr).mpr ⟨hseen, hbare, hname⟩)
  · rintro ⟨hvisible, used, hentry, hexpired, hbare, hartifacts⟩
    obtain ⟨r, hr, rfl, rfl⟩ := exists_record hs hscan hvisible hentry
    refine ⟨r, hr, isOrphaned_iff.mpr ⟨fun name hpart => ?_, hexpired,
      fun name used hpart => ?_⟩, rfl⟩
    · obtain ⟨hseen, hpart, hname⟩ := (unknown_mem_parts_iff hs hscan hr).mp hpart
      exact hname (hbare name hseen hpart)
    · obtain ⟨hseen, hpart⟩ := (artifact_mem_parts_iff hs hscan hr).mp hpart
      exact hartifacts name used hseen hpart

theorem mem_selectedPlaces :
    place ∈ layout.selectedPlaces now window ↔
      place ∈ layout.scratchPlaces ∨ place ∈ layout.stalePlaces now window ∨
        place ∈ layout.orphanedPlaces now window := by
  simp [Layout.selectedPlaces, Layout.earlierPlaces]

/-! ## Remainders -/

theorem isRemainder_self (fs : FileSystem) (store : Location) (places : List Location) :
    IsRemainder fs store places fs :=
  ⟨[], (withoutAll_nil fs).symm, by simp⟩

namespace IsRemainder

theorem extends_left (h : IsRemainder fs store places left) : fs.Extends left := by
  obtain ⟨gone, rfl, -⟩ := h.gone
  exact extends_withoutAll fs gone

theorem shrinks (h : IsRemainder fs store places left) (hfs : fs.WellFormed) :
    Shrinks fs left := by
  obtain ⟨gone, rfl, -⟩ := h.gone
  exact shrinks_withoutAll hfs gone

theorem node?_eq (h : IsRemainder fs store places left) (hplace : ¬ IsCovered places place) :
    left.node? (store ++ place) = fs.node? (store ++ place) := by
  obtain ⟨gone, rfl, hgone⟩ := h.gone
  refine node?_withoutAll_of_not_covered fun hcovered => hplace ?_
  exact isCovered_map_iff.mp (hcovered.trans hgone)

theorem mono (h : IsRemainder fs store places left)
    (hmore : ∀ place ∈ places, IsCovered more place) : IsRemainder fs store more left := by
  obtain ⟨gone, hleft, hgone⟩ := h.gone
  refine ⟨gone, hleft, fun location hlocation => (hgone location hlocation).trans ?_⟩
  intro dir hdir
  obtain ⟨place, hplace, rfl⟩ := List.mem_map.mp hdir
  exact isCovered_map_iff.mpr (hmore place hplace)

theorem withoutAll (h : IsRemainder fs store places left) {locations : List Location}
    (hlocations : ∀ location ∈ locations, IsCovered (places.map (store ++ ·)) location) :
    IsRemainder fs store places (left.withoutAll locations) := by
  obtain ⟨gone, rfl, hgone⟩ := h.gone
  refine ⟨gone ++ locations, withoutAll_withoutAll fs gone locations, fun location hlocation => ?_⟩
  rcases List.mem_append.mp hlocation with hlocation | hlocation
  · exact hgone location hlocation
  · exact hlocations location hlocation

theorem withoutPlaces (h : IsRemainder fs store places left)
    (hmore : ∀ place ∈ more, place ∈ places) :
    IsRemainder fs store places (Store.withoutPlaces left store more) := by
  refine h.withoutAll fun location hlocation => ?_
  obtain ⟨place, hplace, rfl⟩ := List.mem_map.mp hlocation
  exact ⟨_, List.mem_map.mpr ⟨place, hmore place hplace, rfl⟩, List.prefix_rfl⟩

theorem directoryAt?_eq (h : IsRemainder fs store places left)
    (hnames : NamesWithout fs root store (· ∈ places)) : left.directoryAt? root = some store := by
  obtain ⟨gone, rfl, hgone⟩ := h.gone
  exact directoryAt?_mono (withoutAll_extends_withoutAll hgone) (hnames places fun _ => id)

theorem isStore (h : IsRemainder fs store places left) (hs : IsStore fs root store)
    (hnames : NamesWithout fs root store (· ∈ places)) : IsStore left root store :=
  hs.shrink (h.shrinks hs.wellFormed) (h.directoryAt?_eq hnames)

theorem namesWithout (h : IsRemainder fs store places left)
    (hnames : NamesWithout fs root store (· ∈ places)) {gone : Location → Prop}
    (hgone : ∀ place, gone place → place ∈ places) : NamesWithout left root store gone :=
  fun _ hmore =>
    (h.withoutPlaces fun place hplace => hgone place (hmore place hplace)).directoryAt?_eq hnames

theorem exists_scan (h : IsRemainder fs store places left) (hs : IsStore fs root store)
    (hscan : scan fs root = .ok layout) : ∃ rest, scan left root = .ok rest := by
  refine scan_of_shrinks hs.wellFormed (fun found hfound => ?_) hscan (h.shrinks hs.wellFormed)
  rw [hs.named] at hfound
  cases hfound
  exact hs.noLinks

theorem isCovered_of_isBare (h : IsRemainder fs store places left)
    (hdirs : ∀ place ∈ places, fs.node? (store ++ place) = some .directory)
    (hentry : IsEntry fs kind (store ++ place) lastUsed) (hbare : IsBare left (store ++ place)) :
    IsCovered places place := by
  by_contra hplace
  obtain ⟨-, key, hmeta⟩ := hentry
  have hstays : ¬ IsCovered places (place ++ [metadataName]) := by
    rw [isCovered_append_single hplace]
    intro hmem
    rw [metadataAt?, List.append_assoc, hdirs _ hmem] at hmeta
    cases hmeta
  have hnone := hbare.2
  rw [List.append_assoc, h.node?_eq hstays, ← List.append_assoc] at hnone
  rw [metadataAt?, hnone] at hmeta
  cases hmeta

end IsRemainder

theorem isRemainder_withoutPlaces (fs : FileSystem) (store : Location)
    (hmore : ∀ place ∈ more, place ∈ places) :
    IsRemainder fs store places (withoutPlaces fs store more) :=
  (isRemainder_self fs store places).withoutPlaces hmore

/-! ## Places that are covered -/

theorem not_isCovered_of_node? {node : Node} (hnil : place ≠ [])
    (hnode : (withoutPlaces fs store places).node? (store ++ place) = some node) :
    ¬ IsCovered places place := by
  intro hcovered
  rw [withoutPlaces, node?_withoutAll_of_covered (by simp [hnil])
    (isCovered_map_iff.mpr hcovered)] at hnode
  cases hnode

theorem isCovered_single_iff (hnil : [] ∉ places) :
    IsCovered places [name] ↔ [name] ∈ places := by
  have hempty : ¬ IsCovered places [] := by
    rintro ⟨dir, hdir, hpre⟩
    rw [List.prefix_nil.mp hpre] at hdir
    exact hnil hdir
  exact isCovered_append_single hempty

theorem isCovered_pair_iff (hnil : [] ∉ places) :
    IsCovered places [record, name] ↔ [record] ∈ places ∨ [record, name] ∈ places := by
  constructor
  · intro hcovered
    by_cases hrecord : IsCovered places [record]
    · exact .inl ((isCovered_single_iff hnil).mp hrecord)
    · exact .inr ((isCovered_append_single hrecord).mp hcovered)
  · rintro (hmem | hmem)
    · exact ⟨_, hmem, ⟨[name], rfl⟩⟩
    · exact ⟨_, hmem, List.prefix_rfl⟩

section Selected

variable (hs : IsStore fs root store) (hscan : scan fs root = .ok layout)

include hs hscan

theorem nil_notMem_selectedPlaces : [] ∉ layout.selectedPlaces now window :=
  fun hmem => (isVisible_of_mem_selectedPlaces hs hscan hmem).1 rfl

theorem record_mem_orphanedPlaces (hentry : IsEntry fs .record (store ++ [record]) lastUsed)
    (hmem : [record] ∈ layout.selectedPlaces now window) :
    [record] ∈ layout.orphanedPlaces now window := by
  rcases List.mem_append.mp hmem with hearlier | horphaned
  · exact absurd hentry (isOwned_of_mem_earlierPlaces hs hscan hearlier).not_isRecord
  · exact horphaned

theorem part_mem_stalePlaces (hentry : IsEntry fs .record (store ++ [record]) lastUsed)
    {partUsed : Instant} (hpart : IsEntry fs .artifact (store ++ [record, name]) partUsed)
    (hvisible : IsVisible fs root store [record, name])
    (hcovered : IsCovered (layout.selectedPlaces now window) [record, name]) :
    [record, name] ∈ layout.stalePlaces now window := by
  rcases (isCovered_pair_iff (nil_notMem_selectedPlaces hs hscan)).mp hcovered with hmem | hmem
  · have horphaned := record_mem_orphanedPlaces hs hscan hentry hmem
    obtain ⟨-, used, -, -, -, hartifacts⟩ := (single_mem_orphanedPlaces_iff hs hscan).mp horphaned
    exact (mem_stalePlaces_iff hs hscan).mpr
      ⟨⟨partUsed, .inRecord hentry hpart, hartifacts name partUsed hvisible hpart⟩, hvisible.2⟩
  · rcases mem_selectedPlaces.mp hmem with hscratch | hstale | horphaned
    · have hbare := (isScratch_pair_iff.mp ((mem_scratchPlaces_iff hs hscan).mp hscratch).1).2.2
      exact absurd hpart hbare.not_isEntry
    · exact hstale
    · obtain ⟨r, -, -, heq⟩ := mem_orphanedPlaces.mp horphaned
      cases heq

end Selected

end CacheUpkeep.Store
