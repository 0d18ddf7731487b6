import CacheUpkeep.Proofs.Store.Places

/-!
# What the steps of a prune select

The selections of the three steps, as places, and which directories of the store
they are.  No selected scratch directory or artifact lies in another one.
-/

namespace CacheUpkeep.Store

open CacheUpkeep.Calendar CacheUpkeep.FileSystem

variable {fs : FileSystem} {root : Path} {store place : Location} {name : String}
  {layout : Layout} {finding : Finding} {part : Part} {r : Record} {now lastUsed : Instant}
  {window : RetentionWindow}

/-! ## Kinds of directories -/

theorem isVisible_append_iff {rest : Location} :
    IsVisible fs (pathAt root place) (store ++ place) rest ↔
      IsVisible fs root store (place ++ rest) := by
  simp [IsVisible, pathAt, List.foldl_append]

theorem scratch_mem_findings_iff (hs : IsStore fs root store)
    (hscan : scan fs root = .ok layout) :
    .scratch name (root.child name) ∈ layout.findings ↔
      IsVisible fs root store [name] ∧ IsBare fs (store ++ [name]) ∧ name = scratchName := by
  rw [mem_findings_iff hs hscan]
  simp only [Finding.name]
  refine and_congr_right fun hvisible => ?_
  obtain ⟨finding, -, hfinding⟩ := exists_finding hs hscan hvisible
  rw [← (hs.scanEntry_kind hvisible hfinding).1, hfinding, Except.ok.injEq]

theorem artifact_mem_findings_iff (hs : IsStore fs root store)
    (hscan : scan fs root = .ok layout) :
    .artifact ⟨name, root.child name, lastUsed⟩ ∈ layout.findings ↔
      IsVisible fs root store [name] ∧ IsEntry fs .artifact (store ++ [name]) lastUsed := by
  rw [mem_findings_iff hs hscan]
  simp only [Finding.name]
  refine and_congr_right fun hvisible => ?_
  obtain ⟨finding, -, hfinding⟩ := exists_finding hs hscan hvisible
  rw [← (hs.scanEntry_kind hvisible hfinding).2.1, hfinding, Except.ok.injEq]

theorem exists_record (hs : IsStore fs root store) (hscan : scan fs root = .ok layout)
    (hvisible : IsVisible fs root store [name])
    (hentry : IsEntry fs .record (store ++ [name]) lastUsed) :
    ∃ r, Finding.record r ∈ layout.findings ∧ r.id = name ∧ r.lastUsed = lastUsed := by
  obtain ⟨finding, hmem, hfinding⟩ := exists_finding hs hscan hvisible
  obtain ⟨parts, rfl⟩ := ((hs.scanEntry_kind hvisible hfinding).2.2 lastUsed).mpr hentry
  exact ⟨_, hmem, rfl, rfl⟩

private theorem part_kind (hs : IsStore fs root store) (hscan : scan fs root = .ok layout)
    (hr : Finding.record r ∈ layout.findings) (hvisible : IsVisible fs root store [r.id, name]) :
    (scanPart fs r.path name = .ok (.scratch name) ↔
      IsBare fs (store ++ [r.id, name]) ∧ name ∈ recordScratchNames) ∧
    (scanPart fs r.path name = .ok (.unknown name) ↔
      IsBare fs (store ++ [r.id, name]) ∧ name ∉ recordScratchNames) ∧
    ∀ lastUsed, scanPart fs r.path name = .ok (.artifact name lastUsed) ↔
      IsEntry fs .artifact (store ++ [r.id, name]) lastUsed := by
  obtain ⟨hrecord, hpath, -, names, hnames, hall⟩ := record_of_mem hs hscan hr
  have hbelow := hs.below (by simp) hrecord
  have hseen : IsVisible fs r.path (store ++ [r.id]) [name] := by
    rw [hpath]
    exact isVisible_append_iff.mpr hvisible
  rw [pathAt_single, ← hpath] at hbelow
  have hname : name ∈ names :=
    (mem_subdirectories_iff hbelow.wellFormed hbelow.noLinks hbelow.named hnames).mpr hseen
  rw [← map_of_forall₂_ok hall fun _ _ => name_of_scanPart, List.mem_map] at hname
  obtain ⟨part, hpart, rfl⟩ := hname
  have hscanned := ((mem_parts_iff hs hscan hr).mp hpart).2
  obtain ⟨hscratch, hunknown, hartifact⟩ := hbelow.scanPart_kind hseen hscanned
  simp only [List.append_assoc, List.singleton_append] at hscratch hunknown hartifact
  refine ⟨?_, ?_, ?_⟩
  · rw [← hscratch, hscanned, Except.ok.injEq]
  · rw [← hunknown, hscanned, Except.ok.injEq]
  · intro lastUsed
    rw [← hartifact, hscanned, Except.ok.injEq]

theorem scratch_mem_parts_iff (hs : IsStore fs root store) (hscan : scan fs root = .ok layout)
    (hr : Finding.record r ∈ layout.findings) :
    .scratch name ∈ r.parts ↔
      IsVisible fs root store [r.id, name] ∧ IsBare fs (store ++ [r.id, name]) ∧
        name ∈ recordScratchNames := by
  rw [mem_parts_iff hs hscan hr]
  exact and_congr_right fun hvisible => (part_kind hs hscan hr hvisible).1

theorem unknown_mem_parts_iff (hs : IsStore fs root store) (hscan : scan fs root = .ok layout)
    (hr : Finding.record r ∈ layout.findings) :
    .unknown name ∈ r.parts ↔
      IsVisible fs root store [r.id, name] ∧ IsBare fs (store ++ [r.id, name]) ∧
        name ∉ recordScratchNames := by
  rw [mem_parts_iff hs hscan hr]
  exact and_congr_right fun hvisible => (part_kind hs hscan hr hvisible).2.1

theorem artifact_mem_parts_iff (hs : IsStore fs root store) (hscan : scan fs root = .ok layout)
    (hr : Finding.record r ∈ layout.findings) :
    .artifact name lastUsed ∈ r.parts ↔
      IsVisible fs root store [r.id, name] ∧
        IsEntry fs .artifact (store ++ [r.id, name]) lastUsed := by
  rw [mem_parts_iff hs hscan hr]
  exact and_congr_right fun hvisible => (part_kind hs hscan hr hvisible).2.2 lastUsed

/-! ## Selected places -/

namespace Layout

def placeUsedBefore (a b : Location × Instant) : Bool :=
  a.2.before b.2 || (!b.2.before a.2 && idAt a.1 ≤ idAt b.1)

def stalePlaces (now : Instant) (window : RetentionWindow) (layout : Layout) : List Location :=
  ((layout.artifactPlaces.filter fun used => window.expired used.2 now).mergeSort
    placeUsedBefore).map Prod.fst

def orphanedPlaces (now : Instant) (window : RetentionWindow) (layout : Layout) :
    List Location :=
  (layout.records.filter (isOrphaned now window)).map fun r => [r.id]

end Layout

theorem mem_scratchPlaces :
    place ∈ layout.scratchPlaces ↔
      (∃ name path, Finding.scratch name path ∈ layout.findings ∧ place = [name]) ∨
      ∃ r name, Finding.record r ∈ layout.findings ∧ .scratch name ∈ r.parts ∧
        place = [r.id, name] := by
  simp only [Layout.scratchPlaces, List.mem_flatMap]
  constructor
  · rintro ⟨finding, hfinding, hplace⟩
    cases finding with
    | scratch name path =>
        exact .inl ⟨name, path, hfinding, by simpa [Finding.scratchPlaces] using hplace⟩
    | artifact a => simp [Finding.scratchPlaces] at hplace
    | unknown name => simp [Finding.scratchPlaces] at hplace
    | record r =>
        simp only [Finding.scratchPlaces, List.mem_filterMap] at hplace
        obtain ⟨part, hpart, hplace⟩ := hplace
        cases part with
        | scratch name => exact .inr ⟨r, name, hfinding, hpart, by simpa [eq_comm] using hplace⟩
        | artifact name lastUsed => simp at hplace
        | unknown name => simp at hplace
  · rintro (⟨name, path, hfinding, rfl⟩ | ⟨r, name, hfinding, hpart, rfl⟩)
    · exact ⟨_, hfinding, by simp [Finding.scratchPlaces]⟩
    · exact ⟨_, hfinding, List.mem_filterMap.mpr ⟨_, hpart, rfl⟩⟩

theorem mem_artifactPlaces :
    (place, lastUsed) ∈ layout.artifactPlaces ↔
      (∃ a, Finding.artifact a ∈ layout.findings ∧ place = [a.id] ∧ lastUsed = a.lastUsed) ∨
      ∃ r name, Finding.record r ∈ layout.findings ∧ .artifact name lastUsed ∈ r.parts ∧
        place = [r.id, name] := by
  simp only [Layout.artifactPlaces, List.mem_flatMap]
  constructor
  · rintro ⟨finding, hfinding, hplace⟩
    cases finding with
    | scratch name path => simp [Finding.artifactPlaces] at hplace
    | artifact a =>
        exact .inl ⟨a, hfinding, by simpa [Finding.artifactPlaces] using hplace⟩
    | unknown name => simp [Finding.artifactPlaces] at hplace
    | record r =>
        simp only [Finding.artifactPlaces, List.mem_filterMap] at hplace
        obtain ⟨part, hpart, hplace⟩ := hplace
        cases part with
        | scratch name => simp at hplace
        | artifact name used =>
            simp only [Option.some.injEq, Prod.mk.injEq] at hplace
            obtain ⟨rfl, rfl⟩ := hplace
            exact .inr ⟨r, name, hfinding, hpart, rfl⟩
        | unknown name => simp at hplace
  · rintro (⟨a, hfinding, rfl, rfl⟩ | ⟨r, name, hfinding, hpart, rfl⟩)
    · exact ⟨_, hfinding, by simp [Finding.artifactPlaces]⟩
    · exact ⟨_, hfinding, List.mem_filterMap.mpr ⟨_, hpart, rfl⟩⟩

theorem mem_stalePlaces :
    place ∈ layout.stalePlaces now window ↔
      ∃ lastUsed, (place, lastUsed) ∈ layout.artifactPlaces ∧
        window.expired lastUsed now = true := by
  simp [Layout.stalePlaces]

theorem mem_orphanedPlaces :
    place ∈ layout.orphanedPlaces now window ↔
      ∃ r, Finding.record r ∈ layout.findings ∧ isOrphaned now window r = true ∧
        place = [r.id] := by
  simp only [Layout.orphanedPlaces, List.mem_map, List.mem_filter, mem_records_iff]
  constructor
  · rintro ⟨r, ⟨hr, horphaned⟩, rfl⟩
    exact ⟨r, hr, horphaned, rfl⟩
  · rintro ⟨r, hr, horphaned, rfl⟩
    exact ⟨r, ⟨hr, horphaned⟩, rfl⟩

theorem isOrphaned_iff :
    isOrphaned now window r = true ↔
      (∀ name, .unknown name ∉ r.parts) ∧ window.expired r.lastUsed now = true ∧
        ∀ name lastUsed, .artifact name lastUsed ∈ r.parts →
          window.expired lastUsed now = true := by
  have hunknown : r.hasUnknown = false ↔ ∀ name, .unknown name ∉ r.parts := by
    rw [Record.hasUnknown, List.any_eq_false]
    constructor
    · intro h name hpart
      simpa using h _ hpart
    · intro h part hpart
      cases part with
      | unknown name => exact absurd hpart (h name)
      | scratch name => simp
      | artifact name lastUsed => simp
  have hartifacts : (r.artifacts.all fun a => window.expired a.lastUsed now) = true ↔
      ∀ name lastUsed, .artifact name lastUsed ∈ r.parts →
        window.expired lastUsed now = true := by
    rw [List.all_eq_true]
    constructor
    · intro h name lastUsed hpart
      exact h ⟨_, _, lastUsed⟩ (List.mem_filterMap.mpr ⟨_, hpart, rfl⟩)
    · intro h a ha
      obtain ⟨part, hpart, ha⟩ := List.mem_filterMap.mp ha
      cases part with
      | unknown name => simp at ha
      | scratch name => simp at ha
      | artifact name lastUsed =>
          simp only [Option.some.injEq] at ha
          subst ha
          exact h name lastUsed hpart
  rw [isOrphaned, Bool.and_eq_true, Bool.and_eq_true, Bool.not_eq_true', hunknown, hartifacts,
    and_assoc]

/-! ## Selected directories -/

theorem mem_scratchPlaces_iff (hs : IsStore fs root store) (hscan : scan fs root = .ok layout) :
    place ∈ layout.scratchPlaces ↔
      IsScratch fs store place ∧ isTooLong (pathAt root place) = false := by
  rw [mem_scratchPlaces]
  constructor
  · rintro (⟨name, path, hfinding, rfl⟩ | ⟨r, name, hr, hpart, rfl⟩)
    · have hpath := isAt_of_scanEntry ((mem_findings_iff hs hscan).mp hfinding).2
      simp only [Finding.IsAt] at hpath
      subst hpath
      obtain ⟨hvisible, hbare, rfl⟩ := (scratch_mem_findings_iff hs hscan).mp hfinding
      exact ⟨.inStore hbare, hvisible.2⟩
    · obtain ⟨hvisible, hbare, hname⟩ := (scratch_mem_parts_iff hs hscan hr).mp hpart
      obtain ⟨-, -, hentry, -⟩ := record_of_mem hs hscan hr
      exact ⟨.inRecord hentry hname hbare, hvisible.2⟩
  · rintro ⟨hscratch, hlong⟩
    cases hscratch with
    | inStore hbare =>
        exact .inl ⟨_, _, (scratch_mem_findings_iff hs hscan).mpr
          ⟨⟨hbare.1, hlong⟩, hbare, rfl⟩, rfl⟩
    | @inRecord record name lastUsed hentry hname hbare =>
        have hvisible : IsVisible fs root store [record, name] := ⟨hbare.1, hlong⟩
        obtain ⟨r, hr, rfl, -⟩ := exists_record hs hscan (hs.isVisible_of_append hvisible) hentry
        exact .inr ⟨r, name, hr, (scratch_mem_parts_iff hs hscan hr).mpr
          ⟨hvisible, hbare, hname⟩, rfl⟩

theorem mem_artifactPlaces_iff (hs : IsStore fs root store) (hscan : scan fs root = .ok layout) :
    (place, lastUsed) ∈ layout.artifactPlaces ↔
      IsArtifact fs store place lastUsed ∧ isTooLong (pathAt root place) = false := by
  rw [mem_artifactPlaces]
  constructor
  · rintro (⟨⟨name, path, used⟩, hfinding, rfl, rfl⟩ | ⟨r, name, hr, hpart, rfl⟩)
    · have hpath := isAt_of_scanEntry ((mem_findings_iff hs hscan).mp hfinding).2
      simp only [Finding.IsAt] at hpath
      subst hpath
      obtain ⟨hvisible, hentry⟩ := (artifact_mem_findings_iff hs hscan).mp hfinding
      exact ⟨.inStore hentry, hvisible.2⟩
    · obtain ⟨hvisible, hartifact⟩ := (artifact_mem_parts_iff hs hscan hr).mp hpart
      obtain ⟨-, -, hentry, -⟩ := record_of_mem hs hscan hr
      exact ⟨.inRecord hentry hartifact, hvisible.2⟩
  · rintro ⟨hartifact, hlong⟩
    cases hartifact with
    | inStore hentry =>
        exact .inl ⟨_, (artifact_mem_findings_iff hs hscan).mpr ⟨⟨hentry.1, hlong⟩, hentry⟩,
          rfl, rfl⟩
    | @inRecord record name recordUsed _ hentry hpart =>
        have hvisible : IsVisible fs root store [record, name] := ⟨hpart.1, hlong⟩
        obtain ⟨r, hr, rfl, -⟩ := exists_record hs hscan (hs.isVisible_of_append hvisible) hentry
        exact .inr ⟨r, name, hr, (artifact_mem_parts_iff hs hscan hr).mpr ⟨hvisible, hpart⟩, rfl⟩

theorem mem_stalePlaces_iff (hs : IsStore fs root store) (hscan : scan fs root = .ok layout) :
    place ∈ layout.stalePlaces now window ↔
      IsStale fs store now window place ∧ isTooLong (pathAt root place) = false := by
  simp only [mem_stalePlaces, mem_artifactPlaces_iff hs hscan, IsStale]
  constructor
  · rintro ⟨lastUsed, ⟨hartifact, hlong⟩, hexpired⟩
    exact ⟨⟨lastUsed, hartifact, hexpired⟩, hlong⟩
  · rintro ⟨⟨lastUsed, hartifact, hexpired⟩, hlong⟩
    exact ⟨lastUsed, ⟨hartifact, hlong⟩, hexpired⟩

theorem exists_record_of_mem_orphanedPlaces (hs : IsStore fs root store)
    (hscan : scan fs root = .ok layout) (hplace : place ∈ layout.orphanedPlaces now window) :
    ∃ name lastUsed, place = [name] ∧ IsVisible fs root store [name] ∧
      IsEntry fs .record (store ++ [name]) lastUsed := by
  obtain ⟨r, hr, -, rfl⟩ := mem_orphanedPlaces.mp hplace
  obtain ⟨hvisible, -, hentry, -⟩ := record_of_mem hs hscan hr
  exact ⟨r.id, r.lastUsed, rfl, hvisible, hentry⟩

/--
A scan sees every directory of the store and of its records, and the file in it
that should hold metadata, if there is one, does so.
-/
structure MetadataScans (fs : FileSystem) (root : Path) (store : Location) : Prop where
  entries : ∀ name, fs.node? (store ++ [name]) = some .directory →
    ∃ found, readMeta fs (root.child name) = .ok found
  parts : ∀ record name lastUsed, IsEntry fs .record (store ++ [record]) lastUsed →
    fs.node? (store ++ [record, name]) = some .directory →
      ∃ found, readMeta fs ((root.child record).child name) = .ok found ∧
        ∀ m, found = some m → m.kind = .artifact

theorem isTooLong_of_readMeta {p : Path} {found : Option EntryMeta}
    (hread : readMeta fs p = .ok found) (hp : p.isEmpty = false) : isTooLong p = false := by
  rw [Bool.eq_false_iff]
  intro hlong
  have hlong' : isTooLong (p.child metadataName) = true := Path.isTooLong_child hp hlong
  have hempty : (p.child metadataName).isEmpty = false :=
    Path.isEmpty_join hp (Path.isAbsolute_single _) (by simp)
  cases hnul : (p.child metadataName).hasNul with
  | true =>
      have hfind : fs.find true (p.child metadataName) = .error .nulInPath := by
        simp [FileSystem.find, FileSystem.place, hnul, bind, Except.bind]
      simp [readMeta, readText_of_error hfind] at hread
  | false =>
      have hfind : fs.find true (p.child metadataName) = .error .nameTooLong := by
        simp [FileSystem.find, FileSystem.place, hnul, hempty, hlong', bind, Except.bind]
      simp [readMeta, readText_of_error hfind] at hread

theorem MetadataScans.isVisible_single (hs : IsStore fs root store)
    (hmeta : MetadataScans fs root store) (hnode : fs.node? (store ++ [name]) = some .directory) :
    IsVisible fs root store [name] := by
  obtain ⟨found, hread⟩ := hmeta.entries name hnode
  exact ⟨hnode, isTooLong_of_readMeta hread
    (isEmpty_pathAt hs.isEmpty_eq_false [name])⟩

theorem MetadataScans.isVisible_pair {record : String} (hs : IsStore fs root store)
    (hmeta : MetadataScans fs root store) (hentry : IsEntry fs .record (store ++ [record]) lastUsed)
    (hnode : fs.node? (store ++ [record, name]) = some .directory) :
    IsVisible fs root store [record, name] := by
  obtain ⟨found, hread, -⟩ := hmeta.parts record name lastUsed hentry hnode
  exact ⟨hnode, isTooLong_of_readMeta hread
    (isEmpty_pathAt hs.isEmpty_eq_false [record, name])⟩

theorem MetadataScans.scanPart {record : String} (hmeta : MetadataScans fs root store)
    (hentry : IsEntry fs .record (store ++ [record]) lastUsed)
    (hnode : fs.node? (store ++ [record, name]) = some .directory) :
    ∃ part, scanPart fs (root.child record) name = .ok part := by
  obtain ⟨found, hread, hkind⟩ := hmeta.parts record name lastUsed hentry hnode
  cases found with
  | none => exact ⟨_, scanPart_eq_ok_iff.mpr (.inl ⟨hread, rfl⟩)⟩
  | some m => exact ⟨_, scanPart_eq_ok_iff.mpr (.inr ⟨m, hread, hkind m rfl, rfl⟩)⟩

theorem MetadataScans.scanEntry (hs : IsStore fs root store) (hmeta : MetadataScans fs root store)
    (hnode : fs.node? (store ++ [name]) = some .directory) :
    ∃ finding, scanEntry fs root name = .ok finding := by
  obtain ⟨found, hread⟩ := hmeta.entries name hnode
  cases found with
  | none => exact ⟨_, scanEntry_eq_ok_iff.mpr (.inl ⟨hread, rfl⟩)⟩
  | some m =>
      cases hkind : m.kind with
      | artifact => exact ⟨_, scanEntry_eq_ok_iff.mpr (.inr (.inl ⟨m, hread, hkind, rfl⟩))⟩
      | record =>
          have hbelow := hs.below (by simp) (hmeta.isVisible_single hs hnode)
          rw [pathAt_single] at hbelow
          have hentry : IsEntry fs .record (store ++ [name]) m.lastUsed :=
            (hbelow.isEntry_iff .record m.lastUsed hnode hread).mpr ⟨m.key, by rw [← hkind]⟩
          have hnames := subdirectories_eq hbelow.named
          obtain ⟨parts, hparts⟩ := exists_forall₂_ok fun part hpart => by
            rw [mem_subdirectories_iff hbelow.wellFormed hbelow.noLinks hbelow.named hnames,
              List.append_assoc] at hpart
            exact hmeta.scanPart hentry hpart.1
          exact ⟨_, scanEntry_eq_ok_iff.mpr
            (.inr (.inr ⟨m, _, parts, hread, hkind, hnames, hparts, rfl⟩))⟩

theorem MetadataScans.scan (hs : IsStore fs root store) (hmeta : MetadataScans fs root store) :
    ∃ layout, scan fs root = .ok layout := by
  have hnames := subdirectories_eq hs.named
  obtain ⟨findings, hfindings⟩ := exists_forall₂_ok fun name hname => by
    rw [mem_subdirectories_iff hs.wellFormed hs.noLinks hs.named hnames] at hname
    exact hmeta.scanEntry hs hname.1
  exact ⟨⟨findings⟩, (scan_eq_ok_iff hs.named).mpr ⟨_, hnames, hfindings⟩⟩

theorem IsScratch.isTooLong_eq_false (hs : IsStore fs root store)
    (hmeta : MetadataScans fs root store) (h : IsScratch fs store place) :
    isTooLong (pathAt root place) = false := by
  cases h with
  | inStore bare => exact (hmeta.isVisible_single hs bare.1).2
  | inRecord entry scratch bare => exact (hmeta.isVisible_pair hs entry bare.1).2

theorem IsArtifact.isTooLong_eq_false (hs : IsStore fs root store)
    (hmeta : MetadataScans fs root store) (h : IsArtifact fs store place lastUsed) :
    isTooLong (pathAt root place) = false := by
  cases h with
  | inStore entry => exact (hmeta.isVisible_single hs entry.1).2
  | inRecord entry part => exact (hmeta.isVisible_pair hs entry part.1).2

theorem mem_orphanedPlaces_iff (hs : IsStore fs root store) (hscan : scan fs root = .ok layout)
    (hmeta : MetadataScans fs root store) :
    place ∈ layout.orphanedPlaces now window ↔ IsOrphaned fs store now window place := by
  rw [mem_orphanedPlaces]
  constructor
  · rintro ⟨r, hr, horphaned, rfl⟩
    obtain ⟨hunknown, hexpired, hartifacts⟩ := isOrphaned_iff.mp horphaned
    obtain ⟨-, -, hentry, -⟩ := record_of_mem hs hscan hr
    refine .intro hentry hexpired ?_ ?_
    · intro name lastUsed hpart
      refine hartifacts name lastUsed ((artifact_mem_parts_iff hs hscan hr).mpr ⟨?_, hpart⟩)
      exact hmeta.isVisible_pair hs hentry hpart.1
    · intro name hbare
      by_contra hname
      exact hunknown name ((unknown_mem_parts_iff hs hscan hr).mpr
        ⟨hmeta.isVisible_pair hs hentry hbare.1, hbare, hname⟩)
  · intro horphaned
    obtain ⟨hentry, hexpired, hartifacts, hbare⟩ := horphaned
    obtain ⟨r, hr, rfl, rfl⟩ := exists_record hs hscan
      (hmeta.isVisible_single hs hentry.1) hentry
    refine ⟨r, hr, isOrphaned_iff.mpr ⟨?_, hexpired, ?_⟩, rfl⟩
    · intro name hpart
      obtain ⟨-, hpart, hname⟩ := (unknown_mem_parts_iff hs hscan hr).mp hpart
      exact hname (hbare name hpart)
    · intro name lastUsed hpart
      exact hartifacts name lastUsed ((artifact_mem_parts_iff hs hscan hr).mp hpart).2

end CacheUpkeep.Store
