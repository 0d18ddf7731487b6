import CacheUpkeep.Proofs.Store.Scan

/-!
# Places in a layout

Where the scratch directories, the artifacts and the records of a layout stand.
For a layout that a scan has found these are the directories that the file
system shows to be of that kind, as far as their paths are not too long.
-/

namespace CacheUpkeep.Store

open CacheUpkeep.Calendar CacheUpkeep.FileSystem

namespace Part

def name : Part → String
  | .scratch name | .artifact name _ | .unknown name => name

@[simp] theorem name_scratch (name : String) : (scratch name).name = name := rfl

@[simp] theorem name_artifact (name : String) (lastUsed : Instant) :
    (artifact name lastUsed).name = name := rfl

@[simp] theorem name_unknown (name : String) : (unknown name).name = name := rfl

end Part

namespace Finding

def name : Finding → String
  | .scratch name _ | .unknown name => name
  | .artifact a => a.id
  | .record r => r.id

@[simp] theorem name_scratch (name : String) (path : Path) :
    (scratch name path).name = name := rfl

@[simp] theorem name_artifact (a : Artifact) : (artifact a).name = a.id := rfl

@[simp] theorem name_record (r : Record) : (record r).name = r.id := rfl

@[simp] theorem name_unknown (name : String) : (unknown name).name = name := rfl

def scratchPlaces : Finding → List Location
  | .scratch name _ => [[name]]
  | .record r => r.parts.filterMap fun part =>
      match part with
      | .scratch name => some [r.id, name]
      | _ => none
  | _ => []

def artifactPlaces : Finding → List (Location × Instant)
  | .artifact a => [([a.id], a.lastUsed)]
  | .record r => r.parts.filterMap fun part =>
      match part with
      | .artifact name lastUsed => some ([r.id, name], lastUsed)
      | _ => none
  | _ => []

def IsAt (root : Path) : Finding → Prop
  | .scratch name path => path = root.child name
  | .artifact a => a.path = root.child a.id
  | .record r => r.path = root.child r.id
  | .unknown _ => True

end Finding

namespace Layout

def scratchPlaces (layout : Layout) : List Location :=
  layout.findings.flatMap Finding.scratchPlaces

def artifactPlaces (layout : Layout) : List (Location × Instant) :=
  layout.findings.flatMap Finding.artifactPlaces

end Layout

variable {fs : FileSystem} {root : Path} {store place : Location} {name : String}
  {layout : Layout} {finding : Finding} {part : Part} {lastUsed : Instant}

theorem Layout.transient_eq (hat : ∀ finding ∈ layout.findings, finding.IsAt root) :
    layout.transient = layout.scratchPlaces.map fun place => (idAt place, pathAt root place) := by
  unfold Layout.transient Layout.scratchPlaces
  rw [List.map_flatMap]
  refine List.flatMap_congr fun finding hfinding => ?_
  have hpath := hat finding hfinding
  cases finding with
  | scratch name path =>
      simp only [Finding.IsAt] at hpath
      simp [Finding.scratchPlaces, hpath]
  | artifact a => rfl
  | unknown name => rfl
  | record r =>
      simp only [Finding.IsAt] at hpath
      simp only [Record.scratch, Finding.scratchPlaces, List.map_filterMap]
      refine List.filterMap_congr fun part _ => ?_
      cases part <;> simp [Record.partId, hpath]

theorem Layout.artifacts_eq (hat : ∀ finding ∈ layout.findings, finding.IsAt root) :
    layout.artifacts = layout.artifactPlaces.map fun used =>
      ⟨idAt used.1, pathAt root used.1, used.2⟩ := by
  unfold Layout.artifacts Layout.artifactPlaces
  rw [List.map_flatMap]
  refine List.flatMap_congr fun finding hfinding => ?_
  have hpath := hat finding hfinding
  cases finding with
  | scratch name path => rfl
  | artifact a =>
      simp only [Finding.IsAt] at hpath
      simp [Finding.artifactPlaces, ← hpath]
  | unknown name => rfl
  | record r =>
      simp only [Finding.IsAt] at hpath
      simp only [Record.artifacts, Finding.artifactPlaces, List.map_filterMap]
      refine List.filterMap_congr fun part _ => ?_
      cases part <;> simp [Record.partId, hpath]

theorem mem_records_iff {r : Record} :
    r ∈ layout.records ↔ Finding.record r ∈ layout.findings := by
  simp only [Layout.records, List.mem_filterMap]
  constructor
  · rintro ⟨finding, hfinding, hr⟩
    cases finding <;> simp_all
  · intro hr
    exact ⟨_, hr, rfl⟩

/-! ## Directories that a scan sees -/

/-- A directory at a place of the store whose path is not too long. -/
def IsVisible (fs : FileSystem) (root : Path) (store place : Location) : Prop :=
  fs.node? (store ++ place) = some .directory ∧ isTooLong (pathAt root place) = false

theorem IsStore.below (hs : IsStore fs root store) (hplace : place ≠ [])
    (hvisible : IsVisible fs root store place) :
    IsStore fs (pathAt root place) (store ++ place) where
  wellFormed := hs.wellFormed
  noLinks := hs.noLinks.below place
  named := directoryAt?_pathAt hs.wellFormed hs.noLinks hs.named hplace hvisible.1 hvisible.2

theorem IsStore.isEmpty_eq_false (hs : IsStore fs root store) : root.isEmpty = false :=
  (directoryAt?_walk hs.named).1.2.1

theorem isTooLong_pathAt_of_append (hroot : root.isEmpty = false) {rest : Location}
    (h : isTooLong (pathAt root (place ++ rest)) = false) :
    isTooLong (pathAt root place) = false := by
  induction rest using List.reverseRecOn with
  | nil => simpa using h
  | append_singleton rest name ih =>
      refine ih ?_
      rw [Bool.eq_false_iff]
      intro hlong
      rw [← List.append_assoc, pathAt_append_single,
        Path.isTooLong_child (isEmpty_pathAt hroot _) hlong] at h
      contradiction

theorem IsStore.isVisible_of_append (hs : IsStore fs root store)
    (hvisible : IsVisible fs root store (place ++ [name])) :
    IsVisible fs root store place := by
  obtain ⟨hnode, hlong⟩ := hvisible
  rw [← List.append_assoc] at hnode
  refine ⟨hs.wellFormed.node?_of_append (by simp) hnode, ?_⟩
  rw [Bool.eq_false_iff]
  intro habove
  rw [pathAt_append_single,
    Path.isTooLong_child (isEmpty_pathAt hs.isEmpty_eq_false place) habove] at hlong
  contradiction

theorem IsStore.find_pathAt (hs : IsStore fs root store) (follow : Bool) (hplace : place ≠ [])
    (hvisible : IsVisible fs root store place) :
    fs.find follow (pathAt root place) = .ok (store ++ place, .directory) := by
  obtain ⟨above, name, rfl⟩ := (List.eq_nil_or_concat' place).resolve_left hplace
  have habove : IsStore fs (pathAt root above) (store ++ above) := by
    by_cases hnil : above = []
    · simpa [hnil] using hs
    · exact hs.below hnil (hs.isVisible_of_append hvisible)
  obtain ⟨hnode, hlong⟩ := hvisible
  rw [← List.append_assoc] at hnode ⊢
  rw [pathAt_append_single] at hlong ⊢
  have hname : IsName name := hs.wellFormed.isName hnode (by simp)
  rw [find_child follow habove.named hname (habove.noLinks [name]), hlong, hnode]
  rfl

theorem IsStore.isBare_iff {found : Option EntryMeta} (hs : IsStore fs root store)
    (hnode : fs.node? store = some .directory) (hread : readMeta fs root = .ok found) :
    IsBare fs store ↔ found = none := by
  cases found with
  | none =>
      have hnone := ((readMeta_eq_ok_none hs.named hs.noLinks).mp hread).2
      simp [IsBare, hnode, hnone]
  | some m =>
      have hsome := ((readMeta_eq_ok_some hs.named hs.noLinks).mp hread).2
      simp only [IsBare, reduceCtorEq, iff_false, not_and]
      rintro - hnone
      simp [metadataAt?, hnone] at hsome

theorem IsStore.isEntry_iff {found : Option EntryMeta} (hs : IsStore fs root store)
    (kind : EntryKind) (lastUsed : Instant) (hnode : fs.node? store = some .directory)
    (hread : readMeta fs root = .ok found) :
    IsEntry fs kind store lastUsed ↔ ∃ key, found = some ⟨key, kind, lastUsed⟩ := by
  cases found with
  | none =>
      have hnone := ((readMeta_eq_ok_none hs.named hs.noLinks).mp hread).2
      simp [IsEntry, metadataAt?, hnone]
  | some m =>
      have hsome := ((readMeta_eq_ok_some hs.named hs.noLinks).mp hread).2
      simp [IsEntry, hnode, hsome]

/-! ## Parts of a record -/

theorem name_of_scanPart (hpart : scanPart fs root name = .ok part) : part.name = name := by
  rcases scanPart_eq_ok_iff.mp hpart with ⟨-, rfl⟩ | ⟨m, -, -, rfl⟩
  · split <;> rfl
  · rfl

theorem IsStore.scanPart_kind (hs : IsStore fs root store)
    (hvisible : IsVisible fs root store [name]) (hpart : scanPart fs root name = .ok part) :
    (part = .scratch name ↔ IsBare fs (store ++ [name]) ∧ name ∈ recordScratchNames) ∧
    (part = .unknown name ↔ IsBare fs (store ++ [name]) ∧ name ∉ recordScratchNames) ∧
    ∀ lastUsed, part = .artifact name lastUsed ↔
      IsEntry fs .artifact (store ++ [name]) lastUsed := by
  have hbelow := hs.below (by simp) hvisible
  rw [pathAt_single] at hbelow
  rcases scanPart_eq_ok_iff.mp hpart with ⟨hread, rfl⟩ | ⟨⟨key, kind, used⟩, hread, hkind, rfl⟩
  · have hbare := hbelow.isBare_iff hvisible.1 hread
    have hentry := fun lastUsed => hbelow.isEntry_iff .artifact lastUsed hvisible.1 hread
    by_cases hname : name ∈ recordScratchNames <;> simp [hbare, hentry, hname]
  · have hbare := hbelow.isBare_iff hvisible.1 hread
    have hentry := fun lastUsed => hbelow.isEntry_iff .artifact lastUsed hvisible.1 hread
    simp only at hkind
    subst hkind
    simp [hbare, hentry]

/-! ## Findings of a scan -/

theorem name_of_scanEntry (hfinding : scanEntry fs root name = .ok finding) :
    finding.name = name := by
  rcases scanEntry_eq_ok_iff.mp hfinding with
    ⟨-, rfl⟩ | ⟨m, -, -, rfl⟩ | ⟨m, names, parts, -, -, -, -, rfl⟩
  · split <;> rfl
  · rfl
  · rfl

theorem isAt_of_scanEntry (hfinding : scanEntry fs root name = .ok finding) :
    finding.IsAt root := by
  rcases scanEntry_eq_ok_iff.mp hfinding with
    ⟨-, rfl⟩ | ⟨m, -, -, rfl⟩ | ⟨m, names, parts, -, -, -, -, rfl⟩
  · split
    · exact rfl
    · trivial
  · exact rfl
  · exact rfl

theorem IsStore.scanEntry_kind (hs : IsStore fs root store)
    (hvisible : IsVisible fs root store [name]) (hfinding : scanEntry fs root name = .ok finding) :
    (finding = .scratch name (root.child name) ↔
      IsBare fs (store ++ [name]) ∧ name = scratchName) ∧
    (∀ lastUsed, finding = .artifact ⟨name, root.child name, lastUsed⟩ ↔
      IsEntry fs .artifact (store ++ [name]) lastUsed) ∧
    ∀ lastUsed, (∃ parts, finding = .record ⟨name, root.child name, lastUsed, parts⟩) ↔
      IsEntry fs .record (store ++ [name]) lastUsed := by
  have hbelow := hs.below (by simp) hvisible
  rw [pathAt_single] at hbelow
  rcases scanEntry_eq_ok_iff.mp hfinding with
    ⟨hread, rfl⟩ | ⟨⟨key, kind, used⟩, hread, hkind, rfl⟩ |
      ⟨⟨key, kind, used⟩, names, parts, hread, hkind, -, -, rfl⟩
  · have hbare := hbelow.isBare_iff hvisible.1 hread
    have hentry := fun kind lastUsed => hbelow.isEntry_iff kind lastUsed hvisible.1 hread
    simp only [hbare, hentry]
    by_cases hname : name = scratchName <;> simp [hname]
  · have hbare := hbelow.isBare_iff hvisible.1 hread
    have hentry := fun kind lastUsed => hbelow.isEntry_iff kind lastUsed hvisible.1 hread
    simp only at hkind
    subst hkind
    simp [hbare, hentry]
  · have hbare := hbelow.isBare_iff hvisible.1 hread
    have hentry := fun kind lastUsed => hbelow.isEntry_iff kind lastUsed hvisible.1 hread
    simp only at hkind
    subst hkind
    simp [hbare, hentry]

theorem findings_sorted (hs : IsStore fs root store) (hscan : scan fs root = .ok layout) :
    (layout.findings.map Finding.name).Pairwise (· < ·) := by
  obtain ⟨names, hnames, hall⟩ := (scan_eq_ok_iff hs.named).mp hscan
  rw [map_of_forall₂_ok hall fun _ _ => name_of_scanEntry]
  exact subdirectories_sorted hs.wellFormed hs.named hnames

theorem mem_findings_iff (hs : IsStore fs root store) (hscan : scan fs root = .ok layout) :
    finding ∈ layout.findings ↔
      IsVisible fs root store [finding.name] ∧ scanEntry fs root finding.name = .ok finding := by
  obtain ⟨names, hnames, hall⟩ := (scan_eq_ok_iff hs.named).mp hscan
  rw [mem_of_forall₂_ok hall]
  constructor
  · rintro ⟨name, hname, hfinding⟩
    have heq := name_of_scanEntry hfinding
    subst heq
    exact ⟨(mem_subdirectories_iff hs.wellFormed hs.noLinks hs.named hnames).mp hname, hfinding⟩
  · rintro ⟨hvisible, hfinding⟩
    exact ⟨_, (mem_subdirectories_iff hs.wellFormed hs.noLinks hs.named hnames).mpr hvisible,
      hfinding⟩

theorem exists_finding (hs : IsStore fs root store) (hscan : scan fs root = .ok layout)
    (hvisible : IsVisible fs root store [name]) :
    ∃ finding ∈ layout.findings, scanEntry fs root name = .ok finding := by
  obtain ⟨names, hnames, hall⟩ := (scan_eq_ok_iff hs.named).mp hscan
  have hname : name ∈ names :=
    (mem_subdirectories_iff hs.wellFormed hs.noLinks hs.named hnames).mpr hvisible
  rw [← map_of_forall₂_ok hall fun _ _ => name_of_scanEntry, List.mem_map] at hname
  obtain ⟨finding, hfinding, rfl⟩ := hname
  exact ⟨finding, hfinding, ((mem_findings_iff hs hscan).mp hfinding).2⟩

/-! ## Records of a scan -/

theorem record_of_mem {r : Record} (hs : IsStore fs root store) (hscan : scan fs root = .ok layout)
    (hr : Finding.record r ∈ layout.findings) :
    IsVisible fs root store [r.id] ∧ r.path = root.child r.id ∧
      IsEntry fs .record (store ++ [r.id]) r.lastUsed ∧
      ∃ names, subdirectories fs r.path = .ok names ∧
        List.Forall₂ (fun name part => scanPart fs r.path name = .ok part) names r.parts := by
  obtain ⟨hvisible, hfinding⟩ := (mem_findings_iff hs hscan).mp hr
  have hpath := isAt_of_scanEntry hfinding
  simp only [Finding.name, Finding.IsAt] at hvisible hfinding hpath
  refine ⟨hvisible, hpath, ?_, ?_⟩
  · refine ((hs.scanEntry_kind hvisible hfinding).2.2 r.lastUsed).mp ⟨r.parts, ?_⟩
    rw [← hpath]
  · rcases scanEntry_eq_ok_iff.mp hfinding with
      ⟨-, hr⟩ | ⟨m, -, -, hr⟩ | ⟨m, names, parts, -, -, hnames, hall, hr⟩
    · split at hr <;> cases hr
    · cases hr
    · simp only [Finding.record.injEq] at hr
      rw [hpath, hr]
      exact ⟨names, hnames, hall⟩

theorem parts_sorted {r : Record} (hs : IsStore fs root store) (hscan : scan fs root = .ok layout)
    (hr : Finding.record r ∈ layout.findings) :
    (r.parts.map Part.name).Pairwise (· < ·) := by
  obtain ⟨hvisible, hpath, -, names, hnames, hall⟩ := record_of_mem hs hscan hr
  have hbelow := hs.below (by simp) hvisible
  rw [pathAt_single, ← hpath] at hbelow
  rw [map_of_forall₂_ok hall fun _ _ => name_of_scanPart]
  exact subdirectories_sorted hs.wellFormed hbelow.named hnames

theorem parts_of_mem {r : Record} (hs : IsStore fs root store) (hscan : scan fs root = .ok layout)
    (hr : Finding.record r ∈ layout.findings) :
    ∃ names, (∀ name, name ∈ names ↔ IsVisible fs root store [r.id, name]) ∧
      List.Forall₂ (fun name part => scanPart fs r.path name = .ok part) names r.parts := by
  obtain ⟨hvisible, hpath, -, names, hnames, hall⟩ := record_of_mem hs hscan hr
  have hbelow := hs.below (by simp) hvisible
  rw [pathAt_single, ← hpath] at hbelow
  refine ⟨names, fun name => ?_, hall⟩
  rw [mem_subdirectories_iff hbelow.wellFormed hbelow.noLinks hbelow.named hnames,
    IsVisible, pathAt_pair, ← hpath, List.append_assoc]
  rfl

theorem mem_parts_iff {r : Record} (hs : IsStore fs root store) (hscan : scan fs root = .ok layout)
    (hr : Finding.record r ∈ layout.findings) :
    part ∈ r.parts ↔
      IsVisible fs root store [r.id, part.name] ∧ scanPart fs r.path part.name = .ok part := by
  obtain ⟨names, hnames, hall⟩ := parts_of_mem hs hscan hr
  rw [mem_of_forall₂_ok hall]
  constructor
  · rintro ⟨name, hname, hpart⟩
    have heq := name_of_scanPart hpart
    subst heq
    exact ⟨(hnames _).mp hname, hpart⟩
  · rintro ⟨hseen, hpart⟩
    exact ⟨_, (hnames _).mpr hseen, hpart⟩

theorem exists_part {r : Record} (hs : IsStore fs root store) (hscan : scan fs root = .ok layout)
    (hr : Finding.record r ∈ layout.findings) (hvisible : IsVisible fs root store [r.id, name]) :
    ∃ part ∈ r.parts, part.name = name := by
  obtain ⟨names, hnames, hall⟩ := parts_of_mem hs hscan hr
  have hname := (hnames name).mpr hvisible
  rwa [← map_of_forall₂_ok hall fun _ _ => name_of_scanPart, List.mem_map] at hname

end CacheUpkeep.Store
