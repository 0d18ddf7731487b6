import CacheUpkeep.Proofs.Store.Selection

/-!
# Scans of a store with places removed

Removing directories does not change what a scan says of the others.  So a scan
of what is left finds the layout of the whole store without the places removed,
and later steps of a prune can be read off the first scan.
-/

namespace CacheUpkeep.Store

open CacheUpkeep.FileSystem

def Finding.keep (stays : Location → Bool) : Finding → Finding
  | .record r => .record { r with parts := r.parts.filter fun part => stays [r.id, part.name] }
  | finding => finding

def Layout.keep (stays : Location → Bool) (layout : Layout) : Layout :=
  ⟨(layout.findings.filter fun finding => stays [finding.name]).map (Finding.keep stays)⟩

variable {fs : FileSystem} {root : Path} {store place : Location} {name : String}
  {names : List String} {places : List Location} {layout : Layout} {finding : Finding}
  {part : Part}

/-! ## The smaller store -/

theorem IsStore.withoutPlaces (hs : IsStore fs root store)
    (hroot : (withoutPlaces fs store places).directoryAt? root = some store) :
    IsStore (withoutPlaces fs store places) root store where
  wellFormed := hs.wellFormed.withoutAll _
  noLinks := hs.noLinks.of_extends (extends_withoutPlaces fs store places)
  named := hroot

theorem isVisible_withoutPlaces (hplace : ¬ IsCovered places place) :
    IsVisible (withoutPlaces fs store places) root store place ↔
      IsVisible fs root store place := by
  rw [IsVisible, IsVisible, node?_withoutPlaces hplace]

theorem isCovered_append_single (hplace : ¬ IsCovered places place) :
    IsCovered places (place ++ [name]) ↔ place ++ [name] ∈ places := by
  constructor
  · rintro ⟨dir, hdir, hpre⟩
    rcases List.prefix_concat_iff.mp hpre with heq | habove
    · rwa [← heq]
    · exact absurd ⟨dir, hdir, habove⟩ hplace
  · intro hmem
    exact ⟨_, hmem, List.prefix_rfl⟩

theorem readMeta_withoutPlaces {found : Option EntryMeta} (hs : IsStore fs root store)
    (hsmall : IsStore (withoutPlaces fs store places) root store)
    (hdirs : ∀ place ∈ places, fs.node? (store ++ place) = some .directory)
    (hplace : ¬ IsCovered places place) (hnil : place ≠ [])
    (hvisible : IsVisible fs root store place)
    (hread : readMeta fs (pathAt root place) = .ok found) :
    readMeta (withoutPlaces fs store places) (pathAt root place) = .ok found := by
  have hbig := hs.below hnil hvisible
  have hbelow := hsmall.below hnil ((isVisible_withoutPlaces hplace).mpr hvisible)
  have hstays : ¬ IsCovered places (place ++ [metadataName]) := by
    intro hcov
    have hdir := hdirs _ ((isCovered_append_single hplace).mp hcov)
    rw [← List.append_assoc] at hdir
    rw [readMeta_eq hbig.named hbig.noLinks, hdir] at hread
    split at hread <;> cases hread
  rw [readMeta_eq hbig.named hbig.noLinks] at hread
  rw [readMeta_eq hbelow.named hbelow.noLinks, List.append_assoc,
    node?_withoutPlaces hstays, ← List.append_assoc, hread]

theorem subdirectories_withoutPlaces (hs : IsStore fs root store)
    (hsmall : IsStore (withoutPlaces fs store places) root store)
    (hplace : ¬ IsCovered places place) (hdir : fs.directoryAt? (pathAt root place) =
      some (store ++ place))
    (hdir' : (withoutPlaces fs store places).directoryAt? (pathAt root place) =
      some (store ++ place))
    (hnames : subdirectories fs (pathAt root place) = .ok names) :
    subdirectories (withoutPlaces fs store places) (pathAt root place) =
      .ok (names.filter fun name => place ++ [name] ∉ places) := by
  rw [subdirectories_eq hdir] at hnames
  cases hnames
  have hlist : (withoutPlaces fs store places).namesIn (store ++ place) =
      (fs.namesIn (store ++ place)).filter fun name => place ++ [name] ∉ places := by
    rw [withoutPlaces, namesIn_withoutAll (by rwa [isCovered_map_iff])]
    simp
  rw [subdirectories_eq hdir', hlist, ← mergeSort_filter, List.filter_filter,
    List.filter_filter]
  congr 2
  refine List.filter_congr fun name hname => ?_
  obtain ⟨node, hnode⟩ := hs.wellFormed.mem_namesIn_iff.mp hname
  have hisname : IsName name := hs.wellFormed.isName hnode (by simp)
  by_cases hmem : place ++ [name] ∈ places
  · simp [hmem]
  · have hstays : ¬ IsCovered places (place ++ [name]) := by
      rwa [isCovered_append_single hplace]
    have hsame : (withoutPlaces fs store places).isDirectory ((pathAt root place).child name) =
        fs.isDirectory ((pathAt root place).child name) := by
      rw [Bool.eq_iff_iff, isDirectory_child hdir' hisname (hsmall.noLinks.below place),
        isDirectory_child hdir hisname (hs.noLinks.below place), List.append_assoc,
        node?_withoutPlaces hstays]
    simp [hmem, hsame]

/-! ## The smaller scan -/

theorem scanPart_withoutPlaces (hs : IsStore fs root store)
    (hsmall : IsStore (withoutPlaces fs store places) root store)
    (hdirs : ∀ place ∈ places, fs.node? (store ++ place) = some .directory)
    (hstays : ¬ IsCovered places (place ++ [name]))
    (hvisible : IsVisible fs root store (place ++ [name]))
    (hpart : scanPart fs (pathAt root place) name = .ok part) :
    scanPart (withoutPlaces fs store places) (pathAt root place) name = .ok part := by
  have hread : ∀ {found}, readMeta fs ((pathAt root place).child name) = .ok found →
      readMeta (withoutPlaces fs store places) ((pathAt root place).child name) = .ok found := by
    intro found hread
    rw [← pathAt_append_single] at hread ⊢
    exact readMeta_withoutPlaces hs hsmall hdirs hstays (by simp) hvisible hread
  rcases scanPart_eq_ok_iff.mp hpart with ⟨hnone, heq⟩ | ⟨m, hsome, hkind, heq⟩
  · exact scanPart_eq_ok_iff.mpr (.inl ⟨hread hnone, heq⟩)
  · exact scanPart_eq_ok_iff.mpr (.inr ⟨m, hread hsome, hkind, heq⟩)

theorem scanEntry_withoutPlaces (hs : IsStore fs root store)
    (hsmall : IsStore (withoutPlaces fs store places) root store)
    (hdirs : ∀ place ∈ places, fs.node? (store ++ place) = some .directory)
    (hstays : ¬ IsCovered places [name]) (hvisible : IsVisible fs root store [name])
    (hfinding : scanEntry fs root name = .ok finding) :
    scanEntry (withoutPlaces fs store places) root name =
      .ok (finding.keep fun place => place ∉ places) := by
  have hread : ∀ {found}, readMeta fs (root.child name) = .ok found →
      readMeta (withoutPlaces fs store places) (root.child name) = .ok found := by
    intro found hread
    rw [← pathAt_single] at hread ⊢
    exact readMeta_withoutPlaces hs hsmall hdirs hstays (by simp) hvisible hread
  rcases scanEntry_eq_ok_iff.mp hfinding with
    ⟨hnone, rfl⟩ | ⟨m, hsome, hkind, rfl⟩ | ⟨m, names, parts, hsome, hkind, hnames, hall, rfl⟩
  · refine scanEntry_eq_ok_iff.mpr (.inl ⟨hread hnone, ?_⟩)
    split <;> rfl
  · exact scanEntry_eq_ok_iff.mpr (.inr (.inl ⟨m, hread hsome, hkind, rfl⟩))
  · have hbelow := hs.below (by simp) hvisible
    have hbelow' := hsmall.below (by simp) ((isVisible_withoutPlaces hstays).mpr hvisible)
    rw [← pathAt_single] at hnames hall
    have hsub := subdirectories_withoutPlaces hs hsmall hstays hbelow.named hbelow'.named hnames
    have hparts : List.Forall₂
        (fun part found => scanPart (withoutPlaces fs store places) (pathAt root [name]) part =
          .ok found)
        (names.filter fun part => [name] ++ [part] ∉ places)
        ((parts.filter fun part => [name, part.name] ∉ places).map id) := by
      refine forall₂_filter_map hall ?_ ?_
      · intro part found hpart
        rw [name_of_scanPart hpart]
        rfl
      · intro part hpart found hfound hkeep
        rw [mem_subdirectories_iff hs.wellFormed (hs.noLinks.below _) hbelow.named hnames] at hpart
        have hstays' : ¬ IsCovered places ([name] ++ [part]) := by
          rw [isCovered_append_single hstays]
          simpa using hkeep
        exact scanPart_withoutPlaces hs hsmall hdirs hstays' (isVisible_append_iff.mp hpart) hfound
    rw [List.map_id] at hparts
    exact scanEntry_eq_ok_iff.mpr (.inr (.inr ⟨m, _, _, hread hsome, hkind, hsub, hparts, rfl⟩))

/-- A scan of what is left finds what is left of the layout. -/
theorem scan_withoutPlaces (hs : IsStore fs root store) (hscan : scan fs root = .ok layout)
    (hdirs : ∀ place ∈ places, place ≠ [] ∧ fs.node? (store ++ place) = some .directory)
    (hroot : (withoutPlaces fs store places).directoryAt? root = some store) :
    scan (withoutPlaces fs store places) root =
      .ok (layout.keep fun place => place ∉ places) := by
  have hsmall := hs.withoutPlaces hroot
  have hstore : ¬ IsCovered places [] := by
    rintro ⟨dir, hdir, hpre⟩
    exact (hdirs dir hdir).1 (List.prefix_nil.mp hpre)
  obtain ⟨names, hnames, hall⟩ := (scan_eq_ok_iff hs.named).mp hscan
  have hsub : subdirectories (withoutPlaces fs store places) (pathAt root []) =
      .ok (names.filter fun name => [] ++ [name] ∉ places) :=
    subdirectories_withoutPlaces hs hsmall hstore (by simpa using hs.named)
      (by simpa using hroot) hnames
  refine (scan_eq_ok_iff hroot).mpr ⟨_, hsub, ?_⟩
  refine forall₂_filter_map hall ?_ ?_
  · intro name finding hfinding
    rw [name_of_scanEntry hfinding]
    rfl
  · intro name hname finding hfinding hkeep
    rw [mem_subdirectories_iff hs.wellFormed hs.noLinks hs.named hnames] at hname
    refine scanEntry_withoutPlaces hs hsmall (fun place hplace => (hdirs place hplace).2) ?_
      hname hfinding
    rw [← List.nil_append [name], isCovered_append_single hstore]
    simpa using hkeep

end CacheUpkeep.Store
