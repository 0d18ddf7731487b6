import CacheUpkeep.Proofs.Store.Selection
import Mathlib.Data.List.Flatten

/-!
# Order of removal

Scratch directories and records go by name, artifacts by the time of their last
use and then by identifier.  No directory is selected twice, none of the first
two steps lies in another one, and the identifiers tell all of them apart.
-/

namespace CacheUpkeep.Calendar.Instant

variable {a b c : Instant}

theorem before_asymm (hab : a.before b = true) : b.before a = false := by
  simp only [before, Bool.eq_false_iff, ne_eq, Bool.or_eq_true, Bool.and_eq_true,
    decide_eq_true_eq, beq_iff_eq] at *
  omega

theorem not_before_trans (hab : b.before a = false) (hbc : c.before b = false) :
    c.before a = false := by
  simp only [before, Bool.eq_false_iff, ne_eq, Bool.or_eq_true, Bool.and_eq_true,
    decide_eq_true_eq, beq_iff_eq] at *
  omega

theorem before_of_before_of_not (hab : a.before b = true) (hbc : c.before b = false) :
    a.before c = true := by
  simp only [before, Bool.eq_false_iff, ne_eq, Bool.or_eq_true, Bool.and_eq_true,
    decide_eq_true_eq, beq_iff_eq] at *
  omega

theorem before_of_not_of_before (hab : b.before a = false) (hbc : b.before c = true) :
    a.before c = true := by
  simp only [before, Bool.eq_false_iff, ne_eq, Bool.or_eq_true, Bool.and_eq_true,
    decide_eq_true_eq, beq_iff_eq] at *
  omega

end CacheUpkeep.Calendar.Instant

namespace CacheUpkeep.Store

open CacheUpkeep.Calendar CacheUpkeep.FileSystem

variable {fs : FileSystem} {root : Path} {store place other : Location} {name : String}
  {layout : Layout} {finding : Finding} {now lastUsed : Instant} {window : RetentionWindow}

/-! ## Places by name -/

theorem single_lt_single_iff {a b : String} : ([a] : Location) < [b] ↔ a < b := by
  rw [List.cons_lt_cons_iff]
  simp

theorem pair_lt_pair {a b c : String} (h : b < c) : ([a, b] : Location) < [a, c] :=
  List.cons_lt_cons_iff.mpr (.inr ⟨rfl, single_lt_single_iff.mpr h⟩)

theorem single_lt_pair (a b : String) : ([a] : Location) < [a, b] :=
  List.cons_lt_cons_iff.mpr (.inr ⟨rfl, List.nil_lt_cons b []⟩)

def Finding.places : Finding → List Location
  | .record r => [r.id] :: r.parts.map fun part => [r.id, part.name]
  | finding => [[finding.name]]

theorem Finding.exists_of_mem_places (h : place ∈ finding.places) :
    ∃ rest, place = finding.name :: rest := by
  cases finding with
  | scratch name path => exact ⟨[], List.mem_singleton.mp h⟩
  | artifact a => exact ⟨[], List.mem_singleton.mp h⟩
  | unknown name => exact ⟨[], List.mem_singleton.mp h⟩
  | record r =>
      rcases List.mem_cons.mp h with rfl | hpart
      · exact ⟨[], rfl⟩
      · obtain ⟨part, -, rfl⟩ := List.mem_map.mp hpart
        exact ⟨[part.name], rfl⟩

theorem places_sorted (hs : IsStore fs root store) (hscan : scan fs root = .ok layout) :
    (layout.findings.flatMap Finding.places).Pairwise (· < ·) := by
  rw [List.pairwise_flatMap]
  refine ⟨fun finding hfinding => ?_,
    (List.pairwise_map.mp (findings_sorted hs hscan)).imp ?_⟩
  · cases finding with
    | scratch name path => exact List.pairwise_singleton _ _
    | artifact a => exact List.pairwise_singleton _ _
    | unknown name => exact List.pairwise_singleton _ _
    | record r =>
        refine List.pairwise_cons.mpr ⟨fun place hplace => ?_, ?_⟩
        · obtain ⟨part, -, rfl⟩ := List.mem_map.mp hplace
          exact single_lt_pair r.id part.name
        · rw [List.pairwise_map]
          exact (List.pairwise_map.mp (parts_sorted hs hscan hfinding)).imp pair_lt_pair
  · intro a b hab x hx y hy
    obtain ⟨xs, rfl⟩ := Finding.exists_of_mem_places hx
    obtain ⟨ys, rfl⟩ := Finding.exists_of_mem_places hy
    exact List.cons_lt_cons_iff.mpr (.inl hab)

private theorem filterMap_parts_sublist {parts : List Part} {place? : Part → Option Location}
    {place : Part → Location} (h : ∀ part found, place? part = some found → found = place part) :
    (parts.filterMap place?).Sublist (parts.map place) := by
  induction parts with
  | nil => exact .slnil
  | cons part rest ih =>
      cases hfound : place? part with
      | none =>
          rw [List.filterMap_cons_none hfound]
          exact ih.cons _
      | some found =>
          rw [List.filterMap_cons_some hfound, h part found hfound]
          exact ih.cons_cons _

theorem Finding.scratchPlaces_sublist (finding : Finding) :
    finding.scratchPlaces.Sublist finding.places := by
  cases finding with
  | scratch name path => exact List.Sublist.refl _
  | artifact a => exact List.nil_sublist _
  | unknown name => exact List.nil_sublist _
  | record r =>
      refine (filterMap_parts_sublist fun part found hfound => ?_).cons _
      cases part with
      | scratch name => simpa [eq_comm] using hfound
      | artifact name lastUsed => simp at hfound
      | unknown name => simp at hfound

theorem Finding.artifactPlaces_sublist (finding : Finding) :
    (finding.artifactPlaces.map Prod.fst).Sublist finding.places := by
  cases finding with
  | scratch name path => exact List.nil_sublist _
  | artifact a => exact List.Sublist.refl _
  | unknown name => exact List.nil_sublist _
  | record r =>
      rw [Finding.artifactPlaces, List.map_filterMap]
      refine (filterMap_parts_sublist fun part found hfound => ?_).cons _
      cases part with
      | scratch name => simp at hfound
      | artifact name lastUsed => simpa [eq_comm] using hfound
      | unknown name => simp at hfound

theorem scratchPlaces_sorted (hs : IsStore fs root store) (hscan : scan fs root = .ok layout) :
    layout.scratchPlaces.Pairwise (· < ·) :=
  (places_sorted hs hscan).sublist
    (List.Sublist.flatMap_right _ fun finding _ => finding.scratchPlaces_sublist)

theorem artifactPlaces_sorted (hs : IsStore fs root store) (hscan : scan fs root = .ok layout) :
    (layout.artifactPlaces.map Prod.fst).Pairwise (· < ·) := by
  rw [Layout.artifactPlaces, List.map_flatMap]
  exact (places_sorted hs hscan).sublist
    (List.Sublist.flatMap_right _ fun finding _ => finding.artifactPlaces_sublist)

theorem orphanedPlaces_sorted (hs : IsStore fs root store) (hscan : scan fs root = .ok layout) :
    (layout.orphanedPlaces now window).Pairwise (· < ·) := by
  rw [Layout.orphanedPlaces, List.pairwise_map]
  refine List.Pairwise.filter _ ?_
  refine List.Pairwise.filterMap _ ?_ (List.pairwise_map.mp (findings_sorted hs hscan))
  intro a b hab r hr r' hr'
  cases a <;> cases b <;> simp_all [single_lt_single_iff]

theorem nodup_of_sorted {places : List Location} (h : places.Pairwise (· < ·)) :
    places.Nodup := by
  refine h.imp ?_
  rintro a _ hab rfl
  exact List.lt_irrefl a hab

theorem eq_singleton_of_sorted {places : List Location} (hsorted : places.Pairwise (· < ·))
    (hmem : ∀ other, other ∈ places ↔ other = place) : places = [place] := by
  cases places with
  | nil => simpa using hmem place
  | cons a rest =>
      obtain rfl := (hmem a).mp List.mem_cons_self
      cases rest with
      | nil => rfl
      | cons b rest =>
          obtain rfl := (hmem b).mp (by simp)
          exact absurd ((List.pairwise_cons.mp hsorted).1 b List.mem_cons_self)
            (List.lt_irrefl b)

/-! ## Artifacts by last use -/

theorem usedBefore_total (a b : Artifact) : (usedBefore a b || usedBefore b a) = true := by
  unfold usedBefore
  cases hab : a.lastUsed.before b.lastUsed with
  | true => simp
  | false =>
      cases hba : b.lastUsed.before a.lastUsed with
      | true => simp
      | false => simpa using String.le_total a.id b.id

theorem usedBefore_trans (a b c : Artifact) (hab : usedBefore a b = true)
    (hbc : usedBefore b c = true) : usedBefore a c = true := by
  simp only [usedBefore, Bool.or_eq_true, Bool.and_eq_true, Bool.not_eq_true',
    decide_eq_true_eq] at hab hbc ⊢
  rcases hab with hab | ⟨hab, hid⟩
  · rcases hbc with hbc | ⟨hbc, -⟩
    · exact .inl (Instant.before_of_before_of_not hab (Instant.before_asymm hbc))
    · exact .inl (Instant.before_of_before_of_not hab hbc)
  · rcases hbc with hbc | ⟨hbc, hid'⟩
    · exact .inl (Instant.before_of_not_of_before hab hbc)
    · exact .inr ⟨Instant.not_before_trans hab hbc, String.le_trans hid hid'⟩

theorem placeUsedBefore_total (a b : Location × Instant) :
    (Layout.placeUsedBefore a b || Layout.placeUsedBefore b a) = true :=
  usedBefore_total ⟨idAt a.1, .empty, a.2⟩ ⟨idAt b.1, .empty, b.2⟩

theorem placeUsedBefore_trans (a b c : Location × Instant)
    (hab : Layout.placeUsedBefore a b = true) (hbc : Layout.placeUsedBefore b c = true) :
    Layout.placeUsedBefore a c = true :=
  usedBefore_trans ⟨idAt a.1, .empty, a.2⟩ ⟨idAt b.1, .empty, b.2⟩ ⟨idAt c.1, .empty, c.2⟩ hab hbc

theorem stalePlaces_nodup (hs : IsStore fs root store) (hscan : scan fs root = .ok layout) :
    (layout.stalePlaces now window).Nodup := by
  have hperm := (List.mergeSort_perm (layout.artifactPlaces.filter fun used =>
    window.expired used.2 now) Layout.placeUsedBefore).map Prod.fst
  refine hperm.nodup_iff.mpr ?_
  exact (nodup_of_sorted (artifactPlaces_sorted hs hscan)).sublist (List.filter_sublist.map _)

theorem stalePlaces_sorted (hs : IsStore fs root store) (hscan : scan fs root = .ok layout) :
    (layout.stalePlaces now window).Pairwise fun a b =>
      ∀ usedA usedB, IsArtifact fs store a usedA → IsArtifact fs store b usedB →
        Layout.placeUsedBefore (a, usedA) (b, usedB) = true := by
  rw [Layout.stalePlaces, List.pairwise_map]
  refine List.Pairwise.imp_of_mem ?_ (List.pairwise_mergeSort placeUsedBefore_trans
    placeUsedBefore_total _)
  intro a b ha hb hab usedA usedB hA hB
  rw [List.mem_mergeSort] at ha hb
  have hA' := ((mem_artifactPlaces_iff hs hscan).mp (List.mem_filter.mp ha).1).1
  have hB' := ((mem_artifactPlaces_iff hs hscan).mp (List.mem_filter.mp hb).1).1
  rw [hA.unique hA', hB.unique hB']
  exact hab

/-! ## Identifiers -/

private theorem notMem_slash (hname : IsName name) : '/' ∉ name.toList :=
  fun hmem => (hname.2.2.2 _ hmem).1 rfl

theorem idAt_single_ne_pair {a b c : String} (ha : IsName a) : idAt [a] ≠ idAt [b, c] := by
  intro heq
  rw [idAt_single, idAt_pair] at heq
  refine notMem_slash ha ?_
  rw [heq]
  simp

theorem idAt_pair_inj {a b c d : String} (ha : IsName a) (hb : IsName b)
    (heq : idAt [a, b] = idAt [c, d]) : a = c ∧ b = d := by
  have hlist : a.toList ++ '/' :: b.toList = c.toList ++ '/' :: d.toList := by
    simpa using congrArg String.toList heq
  obtain ⟨hac, -, hbd⟩ :=
    (List.append_cons_inj_of_notMem (notMem_slash ha) (notMem_slash hb)).mp hlist
  exact ⟨String.toList_inj.mp hac, String.toList_inj.mp hbd⟩

theorem idAt_injective (hplace : ∀ name ∈ place, IsName name) (hother : ∀ name ∈ other, IsName name)
    (hshape : (∃ a, place = [a]) ∨ ∃ a b, place = [a, b])
    (hshape' : (∃ a, other = [a]) ∨ ∃ a b, other = [a, b])
    (heq : idAt place = idAt other) : place = other := by
  rcases hshape with ⟨a, rfl⟩ | ⟨a, b, rfl⟩
  · rcases hshape' with ⟨c, rfl⟩ | ⟨c, d, rfl⟩
    · rw [idAt_single, idAt_single] at heq
      rw [heq]
    · exact absurd heq (idAt_single_ne_pair (hplace a (by simp)))
  · rcases hshape' with ⟨c, rfl⟩ | ⟨c, d, rfl⟩
    · exact absurd heq.symm (idAt_single_ne_pair (hother c (by simp)))
    · obtain ⟨rfl, rfl⟩ := idAt_pair_inj (hplace a (by simp)) (hplace b (by simp)) heq
      rfl

end CacheUpkeep.Store
