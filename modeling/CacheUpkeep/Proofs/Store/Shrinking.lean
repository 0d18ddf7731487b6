import CacheUpkeep.Proofs.Store.Ending

/-!
# Scans of a store that shrinks

Removing takes nodes away and changes none.  So a later scan reads no metadata that
the first scan of a prune has not read, and if that one has succeeded it succeeds.
-/

namespace CacheUpkeep.Store

open CacheUpkeep.Calendar CacheUpkeep.FileSystem CacheUpkeep.Prune

structure Shrinks (fs left : FileSystem) : Prop where
  keeps : fs.Extends left
  wellFormed : left.WellFormed

variable {remove : Remover} {fs mid left : FileSystem} {root : Path} {paths : List Path}
  {store place : Location} {name : String} {dryRun : Bool} {layout : Layout}
  {select : FileSystem → Layout → List Candidate}

theorem Shrinks.refl (hfs : fs.WellFormed) : Shrinks fs fs :=
  ⟨Extends.refl fs, hfs⟩

theorem Shrinks.trans (h : Shrinks fs mid) (h' : Shrinks mid left) : Shrinks fs left :=
  ⟨h.keeps.trans h'.keeps, h'.wellFormed⟩

theorem shrinks_withoutAll (hfs : fs.WellFormed) (dirs : List Location) :
    Shrinks fs (fs.withoutAll dirs) :=
  ⟨extends_withoutAll fs dirs, hfs.withoutAll dirs⟩

/-! ## Runs of removals -/

theorem RemovesOnly.shrinks {path : Path} (hremove : RemovesOnly remove) (hfs : fs.WellFormed)
    (h : (remove path).outcome fs = (.ok (), left)) : Shrinks fs left := by
  obtain ⟨location, node, -, rfl⟩ := hremove.ok h
  rw [without_eq_withoutAll]
  exact shrinks_withoutAll hfs [location]

theorem Removes.shrinks (hremove : RemovesOnly remove) {failure : Option PruneError}
    (h : Removes remove paths fs failure left) (hdone : failure = none) (hfs : fs.WellFormed) :
    Shrinks fs left := by
  induction h with
  | done fs => exact .refl hfs
  | fails hfails => cases hdone
  | next hgone hrest ih =>
      have hfirst := hremove.shrinks hfs hgone
      exact hfirst.trans (ih hdone hfirst.wellFormed)

theorem StepEnds.shrinks (hremove : RemovesOnly remove) (hfs : fs.WellFormed)
    (h : StepEnds remove root dryRun select fs none left) : Shrinks fs left := by
  cases h with
  | predicts hscan hdry => exact .refl hfs
  | removes hscan hreal hremoves => exact hremoves.shrinks hremove rfl hfs

theorem PruneEnds.preserves_of_removesOnly (Kept : Option PruneError → FileSystem → Prop)
    {now : Instant} {window : RetentionWindow} {failure : Option PruneError}
    (h : PruneEnds remove root now window dryRun fs failure left) (hremove : RemovesOnly remove)
    (hfs : fs.WellFormed) (hstart : Kept none fs)
    (hstep : ∀ {select mid failure last}, IsSelection fs now window mid select → Shrinks fs mid →
      Kept none mid → StepEnds remove root dryRun select mid failure last → Kept failure last) :
    Kept failure left := by
  refine (h.preserves (fun failure left => (failure = none → Shrinks fs left) ∧ Kept failure left)
    ⟨fun _ => .refl hfs, hstart⟩ ?_).2
  rintro select mid failure last hselect ⟨hshrinks, hkept⟩ hends
  have hmid := hshrinks rfl
  refine ⟨?_, hstep hselect hmid hkept hends⟩
  rintro rfl
  exact hmid.trans (hends.shrinks hremove hmid.wellFormed)

/-! ## Later scans -/

theorem IsStore.shrink (hs : IsStore fs root store) (h : Shrinks fs left)
    (hroot : left.directoryAt? root = some store) : IsStore left root store where
  wellFormed := h.wellFormed
  noLinks := hs.noLinks.of_extends h.keeps
  named := hroot

theorem isVisible_of_extends (h : fs.Extends left) (hvisible : IsVisible left root store place) :
    IsVisible fs root store place :=
  ⟨h.node? hvisible.1, hvisible.2⟩

theorem readMeta_of_extends {found : Option EntryMeta} (hs : IsStore fs root store)
    (hsmall : IsStore left root store) (h : fs.Extends left)
    (hread : readMeta fs root = .ok found) :
    readMeta left root = .ok none ∨ readMeta left root = .ok found := by
  rw [readMeta_eq hs.named hs.noLinks] at hread
  rw [readMeta_eq hsmall.named hsmall.noLinks]
  split at hread
  · cases hread
  · next hshort =>
      rw [if_neg hshort]
      cases hnode : left.node? (store ++ [metadataName]) with
      | none => exact .inl rfl
      | some node =>
          rw [h.node? hnode] at hread
          exact .inr hread

theorem scanPart_of_extends (hs : IsStore fs root store) (hsmall : IsStore left root store)
    (h : fs.Extends left) (hvisible : IsVisible left root store [name]) {part : Part}
    (hpart : scanPart fs root name = .ok part) : ∃ part, scanPart left root name = .ok part := by
  have hbelow := hs.below (by simp) (isVisible_of_extends h hvisible)
  have hbelow' := hsmall.below (by simp) hvisible
  rw [pathAt_single] at hbelow hbelow'
  rcases scanPart_eq_ok_iff.mp hpart with ⟨hread, -⟩ | ⟨m, hread, hkind, -⟩
  · rcases readMeta_of_extends hbelow hbelow' h hread with hread | hread <;>
      exact ⟨_, scanPart_eq_ok_iff.mpr (.inl ⟨hread, rfl⟩)⟩
  · rcases readMeta_of_extends hbelow hbelow' h hread with hread | hread
    · exact ⟨_, scanPart_eq_ok_iff.mpr (.inl ⟨hread, rfl⟩)⟩
    · exact ⟨_, scanPart_eq_ok_iff.mpr (.inr ⟨m, hread, hkind, rfl⟩)⟩

theorem scanEntry_of_extends (hs : IsStore fs root store) (hsmall : IsStore left root store)
    (h : fs.Extends left) (hvisible : IsVisible left root store [name]) {finding : Finding}
    (hfinding : scanEntry fs root name = .ok finding) :
    ∃ finding, scanEntry left root name = .ok finding := by
  have hbelow := hs.below (by simp) (isVisible_of_extends h hvisible)
  have hbelow' := hsmall.below (by simp) hvisible
  rw [pathAt_single] at hbelow hbelow'
  have hbare : readMeta left (root.child name) = .ok none →
      ∃ finding, scanEntry left root name = .ok finding := fun hread =>
    ⟨_, scanEntry_eq_ok_iff.mpr (.inl ⟨hread, rfl⟩)⟩
  rcases scanEntry_eq_ok_iff.mp hfinding with
    ⟨hread, -⟩ | ⟨m, hread, hkind, -⟩ | ⟨m, names, parts, hread, hkind, hnames, hall, -⟩
  · rcases readMeta_of_extends hbelow hbelow' h hread with hread | hread <;> exact hbare hread
  · rcases readMeta_of_extends hbelow hbelow' h hread with hread | hread
    · exact hbare hread
    · exact ⟨_, scanEntry_eq_ok_iff.mpr (.inr (.inl ⟨m, hread, hkind, rfl⟩))⟩
  · rcases readMeta_of_extends hbelow hbelow' h hread with hread | hread
    · exact hbare hread
    · have hnames' := subdirectories_eq hbelow'.named
      obtain ⟨parts', hparts'⟩ := exists_forall₂_ok fun part hpart => by
        rw [mem_subdirectories_iff hbelow'.wellFormed hbelow'.noLinks hbelow'.named hnames']
          at hpart
        have hmem := (mem_subdirectories_iff hbelow.wellFormed hbelow.noLinks hbelow.named
          hnames).mpr ⟨h.node? hpart.1, hpart.2⟩
        rw [← map_of_forall₂_ok hall fun _ _ => name_of_scanPart, List.mem_map] at hmem
        obtain ⟨found, hfound, rfl⟩ := hmem
        obtain ⟨x, -, hscanned⟩ := (mem_of_forall₂_ok hall).mp hfound
        rw [name_of_scanPart hscanned] at hpart ⊢
        exact scanPart_of_extends hbelow hbelow' h hpart hscanned
      exact ⟨_, scanEntry_eq_ok_iff.mpr
        (.inr (.inr ⟨m, _, parts', hread, hkind, hnames', hparts', rfl⟩))⟩

theorem scan_of_shrinks (hfs : fs.WellFormed)
    (hlinks : ∀ store, fs.directoryAt? root = some store → HasNoLinks fs store)
    (hscan : scan fs root = .ok layout) (h : Shrinks fs left) :
    ∃ layout, scan left root = .ok layout := by
  cases hroot : left.directoryAt? root with
  | none => exact ⟨_, scan_of_not_isDirectory (by simp [isDirectory, hroot])⟩
  | some store =>
      have hroot' := directoryAt?_mono h.keeps hroot
      have hs : IsStore fs root store := ⟨hfs, hlinks store hroot', hroot'⟩
      have hsmall : IsStore left root store := hs.shrink h hroot
      have hnames := subdirectories_eq hroot
      obtain ⟨findings, hfindings⟩ := exists_forall₂_ok fun name hname => by
        rw [mem_subdirectories_iff hsmall.wellFormed hsmall.noLinks hroot hnames] at hname
        obtain ⟨finding, -, hfinding⟩ :=
          exists_finding hs hscan (isVisible_of_extends h.keeps hname)
        exact scanEntry_of_extends hs hsmall h.keeps hname hfinding
      exact ⟨⟨findings⟩, (scan_eq_ok_iff hroot).mpr ⟨_, hnames, hfindings⟩⟩

end CacheUpkeep.Store
