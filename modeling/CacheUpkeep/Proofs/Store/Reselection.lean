import CacheUpkeep.Proofs.Store.Remainder

/-!
# Pruning what is left of a store

A prune of what another one has left selects no more than that one did.  It ends in
the same files as if there had been no break exactly if no entry is stranded.
-/

namespace CacheUpkeep.Store

open CacheUpkeep.Calendar CacheUpkeep.FileSystem CacheUpkeep.Prune

variable {fs left : FileSystem} {root : Path} {store place : Location} {layout rest : Layout}
  {now lastUsed : Instant} {window : RetentionWindow} {kind : EntryKind} {record name : String}
  (hs : IsStore fs root store) (hscan : scan fs root = .ok layout)
  (h : IsRemainder fs store (layout.selectedPlaces now window) left)
  (hsmall : IsStore left root store) (hrest : scan left root = .ok rest)

/-! ## No more is selected -/

section Fewer

include hs hscan h hsmall hrest

theorem scratch_mem_selectedPlaces (hplace : place ∈ rest.scratchPlaces) :
    place ∈ layout.selectedPlaces now window := by
  have hdirs : ∀ place ∈ layout.selectedPlaces now window,
      fs.node? (store ++ place) = some .directory := fun _ hmem =>
    (isVisible_of_mem_selectedPlaces hs hscan hmem).2.1
  obtain ⟨hscratch, hlong⟩ := (mem_scratchPlaces_iff hsmall hrest).mp hplace
  have hvisible : IsVisible fs root store place :=
    ⟨h.extends_left.node? hscratch.node?, hlong⟩
  cases hscratch with
  | inStore hbare =>
      by_cases hbare' : IsBare fs (store ++ [scratchName])
      · exact mem_selectedPlaces.mpr
          (.inl ((mem_scratchPlaces_iff hs hscan).mpr ⟨.inStore hbare', hlong⟩))
      · obtain ⟨kind, used, hentry⟩ := exists_isEntry_of_not_isBare hs hscan hvisible hbare'
        exact (isCovered_single_iff (nil_notMem_selectedPlaces hs hscan)).mp
          (h.isCovered_of_isBare hdirs hentry hbare)
  | @inRecord record name used hentry hname hbare =>
      have hentry' := hentry.of_extends h.extends_left
      by_cases hbare' : IsBare fs (store ++ [record, name])
      · exact mem_selectedPlaces.mpr
          (.inl ((mem_scratchPlaces_iff hs hscan).mpr ⟨.inRecord hentry' hname hbare', hlong⟩))
      · obtain ⟨used, hpart⟩ := exists_isEntry_of_part hs hscan hentry' hvisible hbare'
        exact mem_selectedPlaces.mpr (.inr (.inl (part_mem_stalePlaces hs hscan hentry' hpart
          hvisible (h.isCovered_of_isBare hdirs hpart hbare))))

theorem stale_mem_selectedPlaces (hplace : place ∈ rest.stalePlaces now window) :
    place ∈ layout.selectedPlaces now window := by
  obtain ⟨⟨used, hartifact, hexpired⟩, hlong⟩ := (mem_stalePlaces_iff hsmall hrest).mp hplace
  exact mem_selectedPlaces.mpr (.inr (.inl ((mem_stalePlaces_iff hs hscan).mpr
    ⟨⟨used, hartifact.of_extends h.extends_left, hexpired⟩, hlong⟩)))

theorem orphaned_mem_selectedPlaces (hplace : place ∈ rest.orphanedPlaces now window) :
    place ∈ layout.selectedPlaces now window := by
  have hdirs : ∀ place ∈ layout.selectedPlaces now window,
      fs.node? (store ++ place) = some .directory := fun _ hmem =>
    (isVisible_of_mem_selectedPlaces hs hscan hmem).2.1
  obtain ⟨record, -, rfl, -⟩ := exists_record_of_mem_orphanedPlaces hsmall hrest hplace
  obtain ⟨hvisible, used, hentry, hexpired, hbare, hartifacts⟩ :=
    (single_mem_orphanedPlaces_iff hsmall hrest).mp hplace
  by_cases hmem : [record] ∈ layout.selectedPlaces now window
  · exact hmem
  -- The record stays as it was, but for parts that are selected themselves.
  have hentry' := hentry.of_extends h.extends_left
  have hstays : ∀ {name}, [record, name] ∉ layout.selectedPlaces now window →
      ¬ IsCovered (layout.selectedPlaces now window) [record, name] := by
    intro name hname hcovered
    rcases (isCovered_pair_iff (nil_notMem_selectedPlaces hs hscan)).mp hcovered with h | h
    · exact hmem h
    · exact hname h
  refine mem_selectedPlaces.mpr (.inr (.inr ((single_mem_orphanedPlaces_iff hs hscan).mpr
    ⟨isVisible_of_extends h.extends_left hvisible, used, hentry', hexpired, ?_, ?_⟩)))
  · intro name hseen hbare'
    by_cases hgone : [record, name] ∈ layout.selectedPlaces now window
    · rcases mem_selectedPlaces.mp hgone with hscratch | hstale | horphaned
      · exact (isScratch_pair_iff.mp ((mem_scratchPlaces_iff hs hscan).mp hscratch).1).2.1
      · obtain ⟨⟨partUsed, hartifact, -⟩, -⟩ := (mem_stalePlaces_iff hs hscan).mp hstale
        cases hartifact with
        | inRecord entry part => exact absurd part hbare'.not_isEntry
      · obtain ⟨r, -, -, heq⟩ := mem_orphanedPlaces.mp horphaned
        cases heq
    · have hdir := (h.node?_eq (hstays hgone)).trans hseen.1
      exact hbare name ⟨hdir, hseen.2⟩ (hbare'.of_extends h.extends_left hdir)
  · intro name partUsed hseen hpart
    by_cases hgone : [record, name] ∈ layout.selectedPlaces now window
    · obtain ⟨⟨used', hartifact, hexpired'⟩, -⟩ := (mem_stalePlaces_iff hs hscan).mp
        (part_mem_stalePlaces hs hscan hentry' hpart hseen ⟨_, hgone, List.prefix_rfl⟩)
      rwa [hartifact.unique (.inRecord hentry' hpart)] at hexpired'
    · have hdir := (h.node?_eq (hstays hgone)).trans hseen.1
      rcases hpart.isBare_or_stays h.extends_left hdir with hlost | hstays'
      · exact absurd (h.isCovered_of_isBare hdirs hpart hlost) (hstays hgone)
      · exact hartifacts name partUsed ⟨hdir, hseen.2⟩ hstays'

theorem mem_selectedPlaces_of_remainder (hplace : place ∈ rest.selectedPlaces now window) :
    place ∈ layout.selectedPlaces now window := by
  rcases mem_selectedPlaces.mp hplace with hscratch | hstale | horphaned
  · exact scratch_mem_selectedPlaces hs hscan h hsmall hrest hscratch
  · exact stale_mem_selectedPlaces hs hscan h hsmall hrest hstale
  · exact orphaned_mem_selectedPlaces hs hscan h hsmall hrest horphaned

end Fewer

/-! ## All that stands is selected -/

section Again

variable (hstranded : ∀ place, ¬ IsStranded fs left root store place)

include hs hscan h hstranded in
theorem isBare_or_mem_recordScratchNames
    (hentry : IsEntry fs .record (store ++ [record]) lastUsed)
    (hentry' : IsEntry left .record (store ++ [record]) lastUsed)
    (hseen : IsVisible left root store [record, name])
    (hlost : IsBare left (store ++ [record, name])) :
    IsBare fs (store ++ [record, name]) ∨ name ∈ recordScratchNames := by
  by_cases hbare : IsBare fs (store ++ [record, name])
  · exact .inl hbare
  · have hseen' := isVisible_of_extends h.extends_left hseen
    obtain ⟨used, hpart⟩ := exists_isEntry_of_part hs hscan hentry hseen' hbare
    have hdated : IsDated fs store [record, name] used := .artifact (.inRecord hentry hpart)
    by_contra hnot
    refine hstranded [record, name] ⟨⟨used, hdated⟩, hseen.2, hlost, fun dir hpre hscratch => ?_⟩
    by_cases heq : dir = [record, name]
    · rw [heq] at hscratch
      exact hnot (.inr (isScratch_pair_iff.mp hscratch).2.1)
    · obtain ⟨_, _, _, rfl, hplace, -⟩ := hdated.above hscratch.ne_nil hpre heq
      cases hplace
      exact (IsOwned.not_isRecord (.inl hscratch)) hentry'

include hs h hsmall hrest hstranded

theorem below_scratch_or_isEntry (hdated : IsDated fs store place lastUsed)
    (hentry : IsEntry fs kind (store ++ place) lastUsed)
    (hdir : left.node? (store ++ place) = some .directory)
    (hlong : isTooLong (pathAt root place) = false) :
    (∃ dir ∈ rest.scratchPlaces, dir <+: place) ∨ IsEntry left kind (store ++ place) lastUsed := by
  rcases hentry.isBare_or_stays h.extends_left hdir with hbare | hstays
  · by_contra hnot
    refine hstranded place ⟨⟨lastUsed, hdated⟩, hlong, hbare,
      fun dir hpre hscratch => hnot (.inl ?_)⟩
    obtain ⟨below, rfl⟩ := hpre
    exact ⟨dir, (mem_scratchPlaces_iff hsmall hrest).mpr ⟨hscratch,
      isTooLong_pathAt_of_append hs.isEmpty_eq_false hlong⟩, List.prefix_append dir below⟩
  · exact .inr hstays

theorem below_scratch_or_isRecord (hentry : IsEntry fs .record (store ++ [record]) lastUsed)
    (hdir : left.node? (store ++ [record, name]) = some .directory)
    (hlong : isTooLong (pathAt root [record, name]) = false) :
    (∃ dir ∈ rest.scratchPlaces, dir <+: [record, name]) ∨
      IsEntry left .record (store ++ [record]) lastUsed := by
  have habove : left.node? (store ++ [record]) = some .directory := by
    have hbelow : left.node? (store ++ [record] ++ [name]) = some .directory := by simpa using hdir
    exact hsmall.wellFormed.node?_of_append (by simp) hbelow
  have hshort : isTooLong (pathAt root [record]) = false :=
    isTooLong_pathAt_of_append hs.isEmpty_eq_false hlong
  rcases below_scratch_or_isEntry hs h hsmall hrest hstranded (.record hentry) hentry habove
    hshort with ⟨dir, hmem, hpre⟩ | hstays
  · exact .inl ⟨dir, hmem, hpre.trans ⟨[name], rfl⟩⟩
  · exact .inr hstays

theorem isScratch_again (hscratch : IsScratch fs store place)
    (hdir : left.node? (store ++ place) = some .directory)
    (hlong : isTooLong (pathAt root place) = false) :
    (∃ dir ∈ rest.scratchPlaces, dir <+: place) ∨ IsScratch left store place := by
  cases hscratch with
  | inStore hbare => exact .inr (.inStore (hbare.of_extends h.extends_left hdir))
  | inRecord hentry hname hbare =>
      rcases below_scratch_or_isRecord hs h hsmall hrest hstranded hentry hdir hlong with
        hbelow | hentry'
      · exact .inl hbelow
      · exact .inr (.inRecord hentry' hname (hbare.of_extends h.extends_left hdir))

theorem isArtifact_again (hartifact : IsArtifact fs store place lastUsed)
    (hdir : left.node? (store ++ place) = some .directory)
    (hlong : isTooLong (pathAt root place) = false) :
    (∃ dir ∈ rest.scratchPlaces, dir <+: place) ∨ IsArtifact left store place lastUsed := by
  cases hartifact with
  | inStore hentry =>
      rcases below_scratch_or_isEntry hs h hsmall hrest hstranded (.artifact (.inStore hentry))
        hentry hdir hlong with hbelow | hentry'
      · exact .inl hbelow
      · exact .inr (.inStore hentry')
  | inRecord hentry hpart =>
      rcases below_scratch_or_isRecord hs h hsmall hrest hstranded hentry hdir hlong with
        hbelow | hentry'
      · exact .inl hbelow
      · rcases below_scratch_or_isEntry hs h hsmall hrest hstranded
          (.artifact (.inRecord hentry hpart)) hpart hdir hlong with hbelow | hpart'
        · exact .inl hbelow
        · exact .inr (.inRecord hentry' hpart')

include hscan

theorem orphaned_again (hplace : place ∈ layout.orphanedPlaces now window)
    (hdir : left.node? (store ++ place) = some .directory) :
    (∃ dir ∈ rest.scratchPlaces, dir <+: place) ∨ place ∈ rest.orphanedPlaces now window := by
  obtain ⟨record, -, rfl, -⟩ := exists_record_of_mem_orphanedPlaces hs hscan hplace
  obtain ⟨hvisible, used, hentry, hexpired, hbare, hartifacts⟩ :=
    (single_mem_orphanedPlaces_iff hs hscan).mp hplace
  rcases below_scratch_or_isEntry hs h hsmall hrest hstranded (.record hentry) hentry hdir
    hvisible.2 with hbelow | hentry'
  · exact .inl hbelow
  · refine .inr ((single_mem_orphanedPlaces_iff hsmall hrest).mpr
      ⟨⟨hdir, hvisible.2⟩, used, hentry', hexpired, fun name hseen hlost => ?_,
        fun name partUsed hseen hpart => ?_⟩)
    · rcases isBare_or_mem_recordScratchNames hs hscan h hstranded hentry hentry'
        hseen hlost with hbare' | hname
      · exact hbare name (isVisible_of_extends h.extends_left hseen) hbare'
      · exact hname
    · exact hartifacts name partUsed (isVisible_of_extends h.extends_left hseen)
        (hpart.of_extends h.extends_left)

/-- What was selected and stands is selected again, or goes with a scratch directory. -/
theorem below_scratch_or_mem_selectedPlaces (hplace : place ∈ layout.selectedPlaces now window)
    (hdir : left.node? (store ++ place) = some .directory) :
    (∃ dir ∈ rest.scratchPlaces, dir <+: place) ∨ place ∈ rest.selectedPlaces now window := by
  rw [mem_selectedPlaces] at hplace ⊢
  rcases hplace with hscratch | hstale | horphaned
  · obtain ⟨hscratch, hlong⟩ := (mem_scratchPlaces_iff hs hscan).mp hscratch
    rcases isScratch_again hs h hsmall hrest hstranded hscratch hdir hlong with hbelow | hagain
    · exact .inl hbelow
    · exact .inr (.inl ((mem_scratchPlaces_iff hsmall hrest).mpr ⟨hagain, hlong⟩))
  · obtain ⟨⟨used, hartifact, hexpired⟩, hlong⟩ := (mem_stalePlaces_iff hs hscan).mp hstale
    rcases isArtifact_again hs h hsmall hrest hstranded hartifact hdir hlong with hbelow | hagain
    · exact .inl hbelow
    · exact .inr (.inr (.inl ((mem_stalePlaces_iff hsmall hrest).mpr
        ⟨⟨used, hagain, hexpired⟩, hlong⟩)))
  · rcases orphaned_again hs hscan h hsmall hrest hstranded horphaned hdir with hbelow | hagain
    · exact .inl hbelow
    · exact .inr (.inr (.inr hagain))

end Again

/-! ## The same files are left -/

section Same

include h hsmall hrest

theorem not_isCovered_of_isStranded (hstranded : IsStranded fs left root store place) :
    ¬ IsCovered (rest.selectedPlaces now window) place := by
  obtain ⟨⟨used, hdated⟩, hlong, hbare, hscratch⟩ := hstranded
  rintro ⟨dir, hdir, hpre⟩
  have hnil := (isVisible_of_mem_selectedPlaces hsmall hrest hdir).1
  rcases mem_selectedPlaces.mp hdir with hmem | hmem | hmem
  · exact hscratch dir hpre ((mem_scratchPlaces_iff hsmall hrest).mp hmem).1
  · obtain ⟨⟨dirUsed, hartifact, -⟩, -⟩ := (mem_stalePlaces_iff hsmall hrest).mp hmem
    by_cases heq : dir = place
    · subst heq
      obtain ⟨kind, hentry⟩ := IsDated.exists_isEntry (.artifact hartifact)
      exact hbare.not_isEntry hentry
    · obtain ⟨record, name, recordUsed, rfl, -, hrecord⟩ := hdated.above hnil hpre heq
      exact IsOwned.not_isRecord (.inr ⟨_, hartifact.of_extends h.extends_left⟩) hrecord
  · obtain ⟨record, -, rfl, -⟩ := exists_record_of_mem_orphanedPlaces hsmall hrest hmem
    obtain ⟨-, recordUsed, hentry, -, hnames, -⟩ :=
      (single_mem_orphanedPlaces_iff hsmall hrest).mp hmem
    by_cases heq : [record] = place
    · subst heq
      exact hbare.not_isEntry hentry
    · obtain ⟨_, name, -, hrecord, rfl, -⟩ := hdated.above hnil hpre heq
      cases hrecord
      have hname := hnames name ⟨hbare.1, hlong⟩ hbare
      exact hscratch _ List.prefix_rfl (.inRecord hentry hname hbare)

include hs hscan

theorem withoutPlaces_ne_of_isStranded (hstranded : IsStranded fs left root store place) :
    withoutPlaces left store (rest.selectedPlaces now window) ≠
      withoutPlaces fs store (layout.selectedPlaces now window) := by
  intro heq
  have hstays : (withoutPlaces left store (rest.selectedPlaces now window)).node?
      (store ++ place) = left.node? (store ++ place) :=
    node?_withoutPlaces (not_isCovered_of_isStranded h hsmall hrest hstranded)
  obtain ⟨⟨used, hdated⟩, -, hbare, -⟩ := hstranded
  obtain ⟨kind, hentry⟩ := hdated.exists_isEntry
  rw [heq, hbare.1] at hstays
  exact not_isCovered_of_node? hdated.ne_nil hstays (h.isCovered_of_isBare
    (fun _ hmem => (isVisible_of_mem_selectedPlaces hs hscan hmem).2.1) hentry hbare)

theorem withoutPlaces_eq_of_not_isStranded
    (hstranded : ∀ place, ¬ IsStranded fs left root store place) :
    withoutPlaces left store (rest.selectedPlaces now window) =
      withoutPlaces fs store (layout.selectedPlaces now window) := by
  obtain ⟨gone, hleft, hgone⟩ := id h.gone
  unfold withoutPlaces
  rw [hleft, withoutAll_withoutAll]
  refine withoutAll_congr fun e he => ⟨fun hcovered => hcovered.trans fun dir hdir => ?_, ?_⟩
  · rcases List.mem_append.mp hdir with hdir | hdir
    · exact hgone dir hdir
    · obtain ⟨place, hplace, rfl⟩ := List.mem_map.mp hdir
      have hplace' := mem_selectedPlaces_of_remainder hs hscan h hsmall hrest hplace
      exact ⟨_, List.mem_map.mpr ⟨place, hplace', rfl⟩, List.prefix_rfl⟩
  · rintro ⟨dir, hdir, hpre⟩
    obtain ⟨place, hplace, rfl⟩ := List.mem_map.mp hdir
    by_cases hcovered : IsCovered gone (store ++ place)
    · obtain ⟨above, habove, hpre'⟩ := hcovered
      exact ⟨above, List.mem_append_left _ habove, hpre'.trans hpre⟩
    · have hdir : left.node? (store ++ place) = some .directory := by
        rw [hleft, node?_withoutAll_of_not_covered hcovered]
        exact (isVisible_of_mem_selectedPlaces hs hscan hplace).2.1
      have hagain : IsCovered (rest.selectedPlaces now window) place := by
        rcases below_scratch_or_mem_selectedPlaces hs hscan h hsmall hrest hstranded hplace hdir
          with ⟨dir, hdir, hpre⟩ | hmem
        · exact ⟨dir, mem_selectedPlaces.mpr (.inl hdir), hpre⟩
        · exact ⟨place, hmem, List.prefix_rfl⟩
      obtain ⟨above, habove, hpre'⟩ := isCovered_map_iff.mpr hagain
      exact ⟨above, List.mem_append_right _ habove, hpre'.trans hpre⟩

/-- The break does not show in the end exactly if no entry is stranded. -/
theorem withoutPlaces_eq_iff :
    withoutPlaces left store (rest.selectedPlaces now window) =
        withoutPlaces fs store (layout.selectedPlaces now window) ↔
      ∀ place, ¬ IsStranded fs left root store place :=
  ⟨fun heq _ hstranded => withoutPlaces_ne_of_isStranded hs hscan h hsmall hrest hstranded heq,
    withoutPlaces_eq_of_not_isStranded hs hscan h hsmall hrest⟩

theorem prune_of_remainder
    (hnames : NamesWithout fs root store (· ∈ layout.selectedPlaces now window)) :
    (prune (LocalStore.backend ⟨root, now⟩) ⟨window, false⟩).outcome left =
      (.ok (predictedReport left now ⟨window, false⟩ rest),
        withoutPlaces left store (rest.selectedPlaces now window)) :=
  prune_real hsmall hrest
    (h.namesWithout hnames fun _ => mem_selectedPlaces_of_remainder hs hscan h hsmall hrest)

end Same

end CacheUpkeep.Store
