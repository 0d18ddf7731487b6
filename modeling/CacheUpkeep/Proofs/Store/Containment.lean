import CacheUpkeep.Proofs.Store.Retention
import CacheUpkeep.Proofs.Store.Shrinking

/-!
# What a prune may reach

A store may hold links.  A scan follows them and a removal does not, so a link in the
store goes and what it leads to stays.  But a record may itself be a link, and what
is removed from it then lies in the directory that the link leads to.
-/

namespace CacheUpkeep.Store

open CacheUpkeep.Calendar CacheUpkeep.FileSystem CacheUpkeep.Prune

/-- The location of what a record holds under a name, if the record is a link. -/
structure IsLinkedPart (fs : FileSystem) (root : Path) (store : Location) (record name : String)
    (location : Location) : Prop where
  link : ∃ target, fs.node? (store ++ [record]) = some (.link target)
  entry : ∃ m, readMeta fs (root.child record) = .ok (some m) ∧ m.kind = .record
  location_eq : ∃ dir, fs.directoryAt? (root.child record) = some dir ∧ location = dir ++ [name]

/-- The scratch directories and the stale artifacts of the records that are links. -/
inductive IsExposed (fs : FileSystem) (root : Path) (store : Location) (now : Instant)
    (window : RetentionWindow) : Location → Prop where
  | scratch {record name : String} {location : Location}
      (part : IsLinkedPart fs root store record name location)
      (scratch : name ∈ recordScratchNames)
      (bare : readMeta fs ((root.child record).child name) = .ok none) :
      IsExposed fs root store now window location
  | stale {record name : String} {location : Location} {m : EntryMeta}
      (part : IsLinkedPart fs root store record name location)
      (artifact : readMeta fs ((root.child record).child name) = .ok (some m))
      (kind : m.kind = .artifact) (expired : window.expired m.lastUsed now = true) :
      IsExposed fs root store now window location

/-- What a prune may remove: what lies in the store, and what is exposed by a link in it. -/
def IsReached (fs : FileSystem) (root : Path) (store : Location) (now : Instant)
    (window : RetentionWindow) (location : Location) : Prop :=
  (∃ name, store ++ [name] <+: location) ∨ IsExposed fs root store now window location

variable {remove : Remover} {fs mid left : FileSystem} {p root : Path}
  {store dir location : Location} {record name : String} {names : List String} {layout : Layout}
  {finding : Finding} {part : Part} {r : Record} {now : Instant} {window : RetentionWindow}
  {node : Node}

/-! ## Scans that follow links -/

theorem readMeta_mono {m : EntryMeta} (h : fs.Extends left)
    (hread : readMeta left p = .ok (some m)) : readMeta fs p = .ok (some m) := by
  simp only [readMeta] at hread ⊢
  split at hread
  · cases hread
  · cases hread
  · next text htext =>
      rw [readText_mono h htext]
      exact hread

theorem exists_of_mem_subdirectories (hfs : fs.WellFormed) (hdir : fs.directoryAt? p = some dir)
    (hnames : subdirectories fs p = .ok names) (hname : name ∈ names) :
    IsName name ∧ ∃ location, fs.directoryAt? (p.child name) = some location := by
  rw [subdirectories_eq hdir] at hnames
  cases hnames
  obtain ⟨hlisted, hisdir⟩ := List.mem_filter.mp (List.mem_mergeSort.mp hname)
  obtain ⟨node, hnode⟩ := hfs.mem_namesIn_iff.mp hlisted
  exact ⟨hfs.isName hnode (by simp), Option.isSome_iff_exists.mp hisdir⟩

theorem scanEntry_of_mem_findings (hfs : fs.WellFormed) (hroot : fs.directoryAt? root = some store)
    (hscan : scan fs root = .ok layout) (hfinding : finding ∈ layout.findings) :
    (IsName finding.name ∧ ∃ location, fs.directoryAt? (root.child finding.name) = some location) ∧
      scanEntry fs root finding.name = .ok finding := by
  obtain ⟨names, hnames, hall⟩ := (scan_eq_ok_iff hroot).mp hscan
  obtain ⟨name, hname, hscanned⟩ := (mem_of_forall₂_ok hall).mp hfinding
  rw [name_of_scanEntry hscanned]
  exact ⟨exists_of_mem_subdirectories hfs hroot hnames hname, hscanned⟩

theorem isAt_of_mem_layout (hfs : fs.WellFormed) (hroot : fs.directoryAt? root = some store)
    (hscan : scan fs root = .ok layout) (hfinding : finding ∈ layout.findings) :
    finding.IsAt root :=
  isAt_of_scanEntry (scanEntry_of_mem_findings hfs hroot hscan hfinding).2

theorem scanPart_of_mem_parts (hfs : fs.WellFormed) (hroot : fs.directoryAt? root = some store)
    (hscan : scan fs root = .ok layout) (hr : Finding.record r ∈ layout.findings)
    (hpart : part ∈ r.parts) :
    IsName r.id ∧ IsName part.name ∧
      (∃ m, readMeta fs (root.child r.id) = .ok (some m) ∧ m.kind = .record) ∧
      (∃ dir, fs.directoryAt? (root.child r.id) = some dir) ∧
      scanPart fs (root.child r.id) part.name = .ok part := by
  obtain ⟨⟨hid, dir, hdir⟩, hentry⟩ := scanEntry_of_mem_findings hfs hroot hscan hr
  simp only [Finding.name_record] at hid hdir hentry
  rcases scanEntry_eq_ok_iff.mp hentry with
    ⟨-, heq⟩ | ⟨m, -, -, heq⟩ | ⟨m, names, parts, hread, hkind, hnames, hall, heq⟩
  · split at heq <;> cases heq
  · cases heq
  · have hparts : r.parts = parts := congrArg Record.parts (Finding.record.inj heq)
    rw [hparts] at hpart
    obtain ⟨name, hname, hscanned⟩ := (mem_of_forall₂_ok hall).mp hpart
    rw [name_of_scanPart hscanned]
    exact ⟨hid, (exists_of_mem_subdirectories hfs hdir hnames hname).1, ⟨m, hread, hkind⟩,
      ⟨dir, hdir⟩, hscanned⟩

/-! ## Where candidates stand -/

theorem isLinkedPart_or_inside (hroot : fs.directoryAt? root = some store) (hid : IsName record)
    (hname : IsName name) (hdir : fs.directoryAt? (root.child record) = some dir)
    (hentry : ∃ m, readMeta fs (root.child record) = .ok (some m) ∧ m.kind = .record)
    (hstat : fs.linkStat ((root.child record).child name) = .ok (location, node)) :
    store ++ [record] <+: location ∨ IsLinkedPart fs root store record name location := by
  have hlocation := linkStat_child hdir hname hstat
  rcases directoryAt?_child_or_link hroot hid hdir with rfl | hlink
  · exact .inl ⟨[name], hlocation.symm⟩
  · exact .inr ⟨hlink, hentry, dir, hdir, hlocation⟩

theorem isReached_transient (hfs : fs.WellFormed) (hroot : fs.directoryAt? root = some store)
    (hscan : scan fs root = .ok layout) {c : Candidate} (hc : c ∈ transientCandidates fs layout)
    (hstat : fs.linkStat c.path = .ok (location, node)) :
    IsReached fs root store now window location := by
  rw [transientCandidates, Layout.transient_eq fun _ => isAt_of_mem_layout hfs hroot hscan] at hc
  simp only [List.map_map, List.mem_map] at hc
  obtain ⟨place, hplace, rfl⟩ := hc
  rcases mem_scratchPlaces.mp hplace with ⟨name, path, hfinding, rfl⟩ | ⟨r, name, hr, hpart, rfl⟩
  · obtain ⟨⟨hname, -⟩, -⟩ := scanEntry_of_mem_findings hfs hroot hscan hfinding
    exact .inl ⟨name, by rw [linkStat_child hroot hname hstat]; exact List.prefix_rfl⟩
  · obtain ⟨hid, hname, hentry, ⟨dir, hdir⟩, hscanned⟩ :=
      scanPart_of_mem_parts hfs hroot hscan hr hpart
    rcases isLinkedPart_or_inside hroot hid hname hdir hentry hstat with hinside | hlinked
    · exact .inl ⟨r.id, hinside⟩
    · rcases scanPart_eq_ok_iff.mp hscanned with ⟨hread, heq⟩ | ⟨m, -, -, heq⟩
      · split at heq
        · next hscratch => exact .inr (.scratch hlinked (by simpa using hscratch) hread)
        · cases heq
      · cases heq

theorem isReached_stale (hmid : Shrinks fs mid) (hroot : mid.directoryAt? root = some store)
    (hscan : scan mid root = .ok layout) {c : Candidate}
    (hc : c ∈ staleCandidates mid now window layout)
    (hstat : fs.linkStat c.path = .ok (location, node)) :
    IsReached fs root store now window location := by
  have hroot' := directoryAt?_mono hmid.keeps hroot
  simp only [staleCandidates, List.mem_map, List.mem_mergeSort, List.mem_filter] at hc
  rw [Layout.artifacts_eq fun _ => isAt_of_mem_layout hmid.wellFormed hroot hscan] at hc
  obtain ⟨a, ⟨ha, hexpired⟩, rfl⟩ := hc
  obtain ⟨⟨place, used⟩, hused, rfl⟩ := List.mem_map.mp ha
  rcases mem_artifactPlaces.mp hused with ⟨a, hfinding, rfl, rfl⟩ | ⟨r, name, hr, hpart, rfl⟩
  · obtain ⟨⟨hname, -⟩, -⟩ := scanEntry_of_mem_findings hmid.wellFormed hroot hscan hfinding
    exact .inl ⟨a.id, by rw [linkStat_child hroot' hname hstat]; exact List.prefix_rfl⟩
  · obtain ⟨hid, hname, ⟨m, hread, hkind⟩, ⟨dir, hdir⟩, hscanned⟩ :=
      scanPart_of_mem_parts hmid.wellFormed hroot hscan hr hpart
    have hentry : ∃ m, readMeta fs (root.child r.id) = .ok (some m) ∧ m.kind = .record :=
      ⟨m, readMeta_mono hmid.keeps hread, hkind⟩
    have hdir' := directoryAt?_mono hmid.keeps hdir
    rcases isLinkedPart_or_inside hroot' hid hname hdir' hentry hstat with hinside | hlinked
    · exact .inl ⟨r.id, hinside⟩
    · rcases scanPart_eq_ok_iff.mp hscanned with ⟨-, heq⟩ | ⟨a, hartifact, hkind, heq⟩
      · split at heq <;> cases heq
      · cases heq
        exact .inr (.stale hlinked (readMeta_mono hmid.keeps hartifact) hkind hexpired)

theorem isReached_orphaned (hmid : Shrinks fs mid) (hroot : mid.directoryAt? root = some store)
    (hscan : scan mid root = .ok layout) {c : Candidate}
    (hc : c ∈ orphanedCandidates mid now window layout)
    (hstat : fs.linkStat c.path = .ok (location, node)) :
    IsReached fs root store now window location := by
  simp only [orphanedCandidates, List.mem_map, List.mem_filter, mem_records_iff] at hc
  obtain ⟨r, ⟨hr, -⟩, rfl⟩ := hc
  obtain ⟨⟨hname, -⟩, -⟩ := scanEntry_of_mem_findings hmid.wellFormed hroot hscan hr
  have hpath : r.path = root.child r.id := isAt_of_mem_layout hmid.wellFormed hroot hscan hr
  rw [hpath] at hstat
  have hlocation := linkStat_child (directoryAt?_mono hmid.keeps hroot) hname hstat
  exact .inl ⟨r.id, hlocation ▸ List.prefix_rfl⟩

theorem isReached_of_selection {select : FileSystem → Layout → List Candidate}
    (hmid : Shrinks fs mid) (hselect : IsSelection fs now window mid select)
    (hroot : mid.directoryAt? root = some store) (hscan : scan mid root = .ok layout)
    {c : Candidate} (hc : c ∈ select mid layout)
    (hstat : fs.linkStat c.path = .ok (location, node)) :
    IsReached fs root store now window location := by
  cases hselect with
  | transient => exact isReached_transient hmid.wellFormed hroot hscan hc hstat
  | stale mid => exact isReached_stale hmid hroot hscan hc hstat
  | orphaned mid => exact isReached_orphaned hmid hroot hscan hc hstat

/-! ## Locations that stay -/

theorem Removes.node?_eq {paths : List Path} {failure : Option PruneError}
    (h : Removes remove paths mid failure left) (hremove : RemovesOnly remove)
    (hmid : Shrinks fs mid)
    (hout : ∀ path ∈ paths, ∀ {dir node}, fs.linkStat path = .ok (dir, node) →
      ¬ dir <+: location) :
    left.node? location = mid.node? location := by
  induction h with
  | done mid => rfl
  | fails hfails =>
      refine hremove.error hfails fun dir node hstat => ?_
      exact hout _ List.mem_cons_self (find_mono hmid.keeps hstat)
  | next hgone hrest ih =>
      have hfirst := hremove.shrinks hmid.wellFormed hgone
      rw [ih (hmid.trans hfirst) fun path hpath => hout path (List.mem_cons_of_mem _ hpath)]
      obtain ⟨dir, node, hstat, rfl⟩ := hremove.ok hgone
      exact node?_without (hout _ List.mem_cons_self (find_mono hmid.keeps hstat))

theorem StepEnds.node?_eq {select : FileSystem → Layout → List Candidate} {dryRun : Bool}
    {failure : Option PruneError} (h : StepEnds remove root dryRun select mid failure left)
    (hselect : IsSelection fs now window mid select) (hremove : RemovesOnly remove)
    (hmid : Shrinks fs mid)
    (hout : ∀ {store dir}, fs.directoryAt? root = some store →
      IsReached fs root store now window dir → ¬ dir <+: location) :
    left.node? location = mid.node? location := by
  cases h with
  | unscanned hscan => rfl
  | predicts hscan hdry => rfl
  | removes hscan hreal hremoves =>
      refine hremoves.node?_eq hremove hmid fun path hpath dir node hstat => ?_
      obtain ⟨c, hc, rfl⟩ := List.mem_map.mp hpath
      cases hroot : mid.directoryAt? root with
      | some store =>
          exact hout (directoryAt?_mono hmid.keeps hroot)
            (isReached_of_selection hmid hselect hroot hscan hc hstat)
      | none =>
          rw [scan_of_not_isDirectory (by simp [isDirectory, hroot])] at hscan
          cases hscan
          rw [hselect.empty] at hc
          cases hc

theorem PruneEnds.node?_eq {failure : Option PruneError}
    (h : PruneEnds remove root now window false fs failure left) (hremove : RemovesOnly remove)
    (hfs : fs.WellFormed)
    (hout : ∀ {store dir}, fs.directoryAt? root = some store →
      IsReached fs root store now window dir → ¬ dir <+: location) :
    left.node? location = fs.node? location := by
  refine h.preserves_of_removesOnly (fun _ left => left.node? location = fs.node? location)
    hremove hfs rfl ?_
  intro select mid failure last hselect hmid hsame hstep
  exact (hstep.node?_eq hselect hremove hmid hout).trans hsame

/--
A prune, however it ends, changes nothing outside of the store but scratch directories
and stale artifacts of records that are links.
-/
theorem prune_changes_nothing_outside (hremove : RemovesOnly remove) (hfs : fs.WellFormed)
    (hroot : fs.directoryAt? root = some store)
    (hout : ∀ name, ¬ store ++ [name] <+: location)
    (hexposed : ∀ dir, IsExposed fs root store now window dir → ¬ dir <+: location) :
    ((prune (LocalStore.backendWith remove ⟨root, now⟩) ⟨window, false⟩).outcome fs).2.node?
      location = fs.node? location := by
  refine (pruneEnds_of_prune remove root now window false fs).node?_eq hremove hfs ?_
  intro found dir hfound hreached hpre
  rw [hroot] at hfound
  cases hfound
  rcases hreached with ⟨name, hinside⟩ | hreached
  · exact hout name (hinside.trans hpre)
  · exact hexposed dir hreached hpre

namespace Sample

def linkedFiles : FileSystem :=
  ⟨[(["outside"], .directory), (["outside", "rec"], .directory),
    (["outside", "rec", "source"], .directory),
    (["outside", "rec", "source", "f"], .file 0 "x".toUTF8 false),
    (["outside", "rec", ".entry.json"],
      .file 1 (EntryMeta.write ⟨"rec", .record, clock⟩).toUTF8 false),
    (["store"], .directory), (["store", "rec"], .link ⟨["..", "outside", "rec"]⟩)], 2, []⟩

theorem wellFormed_linkedFiles : linkedFiles.WellFormed := by
  decide

theorem named_linkedFiles : linkedFiles.directoryAt? ⟨["store"]⟩ = some ["store"] := by
  decide

theorem location_of_isLinkedPart {record name : String} {location : Location}
    (h : IsLinkedPart linkedFiles ⟨["store"]⟩ ["store"] record name location) :
    location = ["outside", "rec", name] := by
  obtain ⟨⟨target, hlink⟩, -, dir, hdir, rfl⟩ := h
  rw [← wellFormed_linkedFiles.mem_entries_iff (by simp)] at hlink
  have hrecord : record = "rec" := by
    simp [linkedFiles] at hlink
    exact hlink.1
  have hleads : linkedFiles.directoryAt? ((⟨["store"]⟩ : Path).child "rec") =
      some ["outside", "rec"] := by
    decide
  rw [hrecord, hleads] at hdir
  cases hdir
  rfl

theorem not_prefix_of_isExposed {dir : Location}
    (h : IsExposed linkedFiles ⟨["store"]⟩ ["store"] clock .standard dir) :
    ¬ dir <+: ["outside", "rec"] := by
  have hlength : dir.length = 3 := by
    cases h with
    | scratch part => rw [location_of_isLinkedPart part]; rfl
    | stale part => rw [location_of_isLinkedPart part]; rfl
  intro hpre
  have hle := hpre.length_le
  rw [hlength] at hle
  simp at hle

end Sample

/-- The directory that a linked record leads to stays. -/
theorem prune_changes_nothing_outside_sample :
    (RemovesOnly removeTree ∧ Sample.linkedFiles.WellFormed ∧
      Sample.linkedFiles.directoryAt? ⟨["store"]⟩ = some ["store"] ∧
      (∀ name, ¬ ["store"] ++ [name] <+: ["outside", "rec"]) ∧
      ∀ dir, IsExposed Sample.linkedFiles ⟨["store"]⟩ ["store"] Sample.clock .standard dir →
        ¬ dir <+: ["outside", "rec"]) ∧
    ((prune (LocalStore.backendWith removeTree ⟨⟨["store"]⟩, Sample.clock⟩)
      ⟨.standard, false⟩).outcome Sample.linkedFiles).2.node? ["outside", "rec"] =
        Sample.linkedFiles.node? ["outside", "rec"] := by
  have hout : ∀ name, ¬ ["store"] ++ [name] <+: ["outside", "rec"] := by
    intro name hpre
    exact absurd (List.cons_prefix_cons.mp hpre).1 (by decide)
  exact ⟨⟨removesOnly_removeTree, Sample.wellFormed_linkedFiles, Sample.named_linkedFiles, hout,
      fun _ => Sample.not_prefix_of_isExposed⟩,
    prune_changes_nothing_outside removesOnly_removeTree Sample.wellFormed_linkedFiles
      Sample.named_linkedFiles hout fun _ => Sample.not_prefix_of_isExposed⟩

/-- A scratch directory is removed through a link to the record that holds it. -/
theorem prune_removes_through_link :
    (Sample.linkedFiles.WellFormed ∧
      Sample.linkedFiles.directoryAt? ⟨["store"]⟩ = some ["store"] ∧
      Sample.linkedFiles.node? ["store"] = some .directory) ∧
    ¬ ∀ location, (∀ name, ¬ ["store"] ++ [name] <+: location) →
      ((prune (LocalStore.backend ⟨⟨["store"]⟩, Sample.clock⟩) ⟨.standard, false⟩).outcome
        Sample.linkedFiles).2.node? location = Sample.linkedFiles.node? location := by
  refine ⟨⟨Sample.wellFormed_linkedFiles, Sample.named_linkedFiles, rfl⟩, fun h => ?_⟩
  have hgone : ((prune (LocalStore.backend ⟨⟨["store"]⟩, Sample.clock⟩)
      ⟨.standard, false⟩).outcome Sample.linkedFiles).2.node? ["outside", "rec", "source"] =
        none := by
    decide +kernel
  have hout : ∀ name, ¬ ["store"] ++ [name] <+: ["outside", "rec", "source"] := by
    intro name hpre
    exact absurd (List.cons_prefix_cons.mp hpre).1 (by decide)
  rw [h _ hout] at hgone
  cases hgone

end CacheUpkeep.Store
