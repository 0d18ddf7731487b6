import CacheUpkeep.Proofs.Store.Effect
import CacheUpkeep.Proofs.Store.Metadata

/-!
# Exactness of a prune

What a prune removes, in which order it does so and how many octets it counts,
all in terms of the store as it was at first.  The path of the store has to name
it also while parts of it go: one that leads through a scratch directory and up
again does not.  A file whose path is too long to be looked up goes with its
directory, and does not count.
-/

namespace CacheUpkeep.Store

open CacheUpkeep.Calendar CacheUpkeep.FileSystem CacheUpkeep.Prune

variable {fs : FileSystem} {root : Path} {store place : Location} {layout : Layout}
  {now : Instant} {window : RetentionWindow}

/--
A real prune that ends with `report` and leaves `left` has removed the scratch
directories by name, the stale artifacts by last use and the orphaned records by
name, each once, and has counted the octets that are gone, as far as they could be found.
-/
structure IsExactPrune (fs : FileSystem) (root : Path) (store : Location) (now : Instant)
    (window : RetentionWindow) (report : Report) (left : FileSystem)
    (scratch stale orphaned : List Location) : Prop where
  outcome : (prune (LocalStore.backend ⟨root, now⟩) ⟨window, false⟩).outcome fs =
    (.ok report, left)
  left_eq : left = withoutPlaces fs store (scratch ++ stale ++ orphaned)
  mem_scratch : ∀ place, place ∈ scratch ↔ IsScratch fs store place
  mem_stale : ∀ place, place ∈ stale ↔ IsStale fs store now window place
  mem_orphaned : ∀ place, place ∈ orphaned ↔ IsOrphaned fs store now window place
  scratch_sorted : scratch.Pairwise (· < ·)
  stale_sorted : stale.Pairwise fun a b =>
    ∀ usedA usedB, IsArtifact fs store a usedA → IsArtifact fs store b usedB →
      Layout.placeUsedBefore (a, usedA) (b, usedB) = true
  orphaned_sorted : orphaned.Pairwise (· < ·)
  transient_removed : report.transient.removed = scratch.map idAt
  artifacts_removed : report.artifacts.removed = stale.map idAt
  records_removed : report.records.removed = orphaned.map idAt
  removed_nodup : report.removed.Nodup
  bytes_add_left : report.bytes + findableSize left root store = findableSize fs root store
  bytes_le : report.bytes ≤ fs.totalSize

theorem mem_scratchPlaces_iff_isScratch (hs : IsStore fs root store)
    (hmeta : MetadataScans fs root store) (hscan : scan fs root = .ok layout) :
    place ∈ layout.scratchPlaces ↔ IsScratch fs store place :=
  (mem_scratchPlaces_iff hs hscan).trans
    (and_iff_left_of_imp fun h => h.isTooLong_eq_false hs hmeta)

theorem mem_stalePlaces_iff_isStale (hs : IsStore fs root store)
    (hmeta : MetadataScans fs root store) (hscan : scan fs root = .ok layout) :
    place ∈ layout.stalePlaces now window ↔ IsStale fs store now window place :=
  (mem_stalePlaces_iff hs hscan).trans
    (and_iff_left_of_imp fun ⟨_, h, _⟩ => h.isTooLong_eq_false hs hmeta)

theorem mem_selectedPlaces_iff (hs : IsStore fs root store)
    (hmeta : MetadataScans fs root store) (hscan : scan fs root = .ok layout) :
    place ∈ layout.selectedPlaces now window ↔ IsSelected fs store now window place := by
  rw [Layout.selectedPlaces, Layout.earlierPlaces, List.mem_append, List.mem_append,
    mem_scratchPlaces_iff_isScratch hs hmeta hscan, mem_stalePlaces_iff_isStale hs hmeta hscan,
    mem_orphanedPlaces_iff hs hscan hmeta, or_assoc]
  rfl

/-- A prune removes exactly what the store, as it was at first, says may go. -/
theorem prune_isExact (hs : IsStore fs root store) (hmeta : MetadataScans fs root store)
    (hnames : NamesWithout fs root store (IsSelected fs store now window)) :
    ∃ report left scratch stale orphaned,
      IsExactPrune fs root store now window report left scratch stale orphaned := by
  obtain ⟨layout, hscan⟩ := hmeta.scan hs
  have hselected : NamesWithout fs root store (· ∈ layout.selectedPlaces now window) :=
    hnames.mono fun _ => (mem_selectedPlaces_iff hs hmeta hscan).mp
  have hbytes := predictedReport_bytes hs hscan hselected false
  refine ⟨_, _, layout.scratchPlaces, layout.stalePlaces now window,
    layout.orphanedPlaces now window, prune_real hs hscan hselected, rfl,
    fun _ => mem_scratchPlaces_iff_isScratch hs hmeta hscan,
    fun _ => mem_stalePlaces_iff_isStale hs hmeta hscan,
    fun _ => mem_orphanedPlaces_iff hs hscan hmeta, scratchPlaces_sorted hs hscan,
    stalePlaces_sorted hs hscan, orphanedPlaces_sorted hs hscan, ?_, ?_,
    orphanedCandidates_id layout, predictedReport_removed_nodup hs hscan false, hbytes,
    Nat.le_trans (Nat.le.intro hbytes) (sizeWhere_le_totalSize fs _)⟩
  · simp only [predictedReport, outcomeOf, transientCandidates_eq hs hscan, candidateAt_id]
  · simp only [predictedReport, outcomeOf, staleCandidates_eq hs hscan, candidateAt_id]

/-! ## A store reached through its scratch directory -/

namespace Sample

def lastUse : Instant :=
  ⟨⟨2024, 1, 1, by decide⟩, 0, 0, by decide⟩

def clock : Instant :=
  ⟨⟨2024, 6, 1, by decide⟩, 0, 0, by decide⟩

def files : FileSystem :=
  ⟨[(["store"], .directory), (["store", "tmp"], .directory), (["store", "a"], .directory),
    (["store", "a", ".entry.json"],
      .file 0 (EntryMeta.write ⟨"a", .artifact, lastUse⟩).toUTF8 false)], 1, []⟩

def throughScratch : Path :=
  ⟨["store", "tmp", ".."]⟩

theorem wellFormed : files.WellFormed := by
  decide

theorem noLinks (dir : Location) : HasNoLinks files dir :=
  hasNoLinks_of_entries wellFormed (by simp [files]) dir

theorem isStore : IsStore files ⟨["store"]⟩ ["store"] :=
  ⟨wellFormed, noLinks _, by decide⟩

theorem isStore_throughScratch : IsStore files throughScratch ["store"] :=
  ⟨wellFormed, noLinks _, by decide⟩

theorem isEntry : IsEntry files .artifact ["store", "a"] lastUse :=
  ⟨rfl, "a", metadataAt?_of_written_isRegular (by decide) (by rfl)⟩

theorem isBare : IsBare files ["store", "tmp"] := ⟨rfl, rfl⟩

theorem name_of_directory {name : String}
    (hnode : files.node? ["store", name] = some .directory) : name = "tmp" ∨ name = "a" := by
  rw [← wellFormed.mem_entries_iff (by simp)] at hnode
  simpa [files] using hnode

theorem metadataScans {root : Path} (hs : IsStore files root ["store"])
    (htmp : isTooLong ((root.child "tmp").child metadataName) = false)
    (ha : isTooLong ((root.child "a").child metadataName) = false) :
    MetadataScans files root ["store"] where
  entries := by
    intro name hnode
    have hvisible : ∀ x, isTooLong ((root.child x).child metadataName) = false →
        files.node? (["store"] ++ [x]) = some .directory →
        IsStore files (root.child x) ["store", x] := by
      intro x hlong hx
      have hshort : isTooLong (root.child x) = false := by
        rw [Bool.eq_false_iff]
        intro h
        have habove : isTooLong ((root.child x).child metadataName) = true :=
          Path.isTooLong_child (isEmpty_pathAt hs.isEmpty_eq_false [x]) h
        rw [habove] at hlong
        contradiction
      have hvisible : IsVisible files root ["store"] [x] := ⟨hx, hshort⟩
      exact hs.below (by simp) hvisible
    rcases name_of_directory hnode with rfl | rfl
    · have hbelow := hvisible "tmp" htmp hnode
      exact ⟨none, (readMeta_eq_ok_none hbelow.named hbelow.noLinks).mpr ⟨htmp, isBare.2⟩⟩
    · have hbelow := hvisible "a" ha hnode
      obtain ⟨-, key, hmeta⟩ := isEntry
      exact ⟨_, (readMeta_eq_ok_some hbelow.named hbelow.noLinks).mpr ⟨ha, hmeta⟩⟩
  parts := by
    intro record name lastUsed hentry
    rcases name_of_directory hentry.1 with rfl | rfl
    · exact absurd hentry isBare.not_isEntry
    · cases (isEntry.unique hentry).1

theorem namesWithout {gone : Location → Prop} (hgone : ∀ place, gone place → place ≠ []) :
    NamesWithout files ⟨["store"]⟩ ["store"] gone :=
  namesWithout_of_descend (noLinks []) isStore.named (by decide) hgone

end Sample

theorem prune_isExact_sample :
    (IsStore Sample.files ⟨["store"]⟩ ["store"] ∧
      MetadataScans Sample.files ⟨["store"]⟩ ["store"] ∧
      NamesWithout Sample.files ⟨["store"]⟩ ["store"]
        (IsSelected Sample.files ["store"] Sample.clock .standard)) ∧
    ∃ report left scratch stale orphaned,
      IsExactPrune Sample.files ⟨["store"]⟩ ["store"] Sample.clock .standard report left
        scratch stale orphaned := by
  have hmeta : MetadataScans Sample.files ⟨["store"]⟩ ["store"] :=
    Sample.metadataScans Sample.isStore (by decide) (by decide)
  have hnames : NamesWithout Sample.files ⟨["store"]⟩ ["store"]
      (IsSelected Sample.files ["store"] Sample.clock .standard) :=
    Sample.namesWithout fun _ h => h.ne_nil
  exact ⟨⟨Sample.isStore, hmeta, hnames⟩, prune_isExact Sample.isStore hmeta hnames⟩

namespace Sample

theorem isScratch_iff {place : Location} :
    IsScratch files ["store"] place ↔ place = ["tmp"] := by
  constructor
  · intro h
    cases h with
    | inStore bare => rfl
    | @inRecord record name lastUsed entry scratch bare =>
        rcases name_of_directory entry.1 with rfl | rfl
        · exact absurd entry isBare.not_isEntry
        · cases (isEntry.unique entry).1
  · rintro rfl
    exact .inStore isBare

theorem isStale : IsStale files ["store"] clock .standard ["a"] :=
  ⟨lastUse, .inStore isEntry, by decide⟩

theorem metadataScans_throughScratch : MetadataScans files throughScratch ["store"] :=
  metadataScans isStore_throughScratch (by decide) (by decide)

theorem prune_throughScratch :
    (prune (LocalStore.backend ⟨throughScratch, clock⟩) ⟨.standard, false⟩).outcome files =
      (.ok ⟨"local", ⟨.standard, false⟩, outcomeOf [candidateAt files throughScratch ["tmp"]],
        Outcome.none, Outcome.none⟩, withoutPlaces files ["store"] [["tmp"]]) := by
  obtain ⟨layout, hscan⟩ := metadataScans_throughScratch.scan isStore_throughScratch
  have hplaces : layout.scratchPlaces = [["tmp"]] := by
    refine eq_singleton_of_sorted (scratchPlaces_sorted isStore_throughScratch hscan)
      fun place => ?_
    rw [← isScratch_iff]
    exact mem_scratchPlaces_iff_isScratch isStore_throughScratch metadataScans_throughScratch hscan
  have hgone : (withoutPlaces files ["store"] [["tmp"]]).isDirectory throughScratch = false := by
    decide
  have hfirst : (selectAndRemove removeTree throughScratch false transientCandidates).outcome
      files = (.ok (outcomeOf [candidateAt files throughScratch ["tmp"]]),
        withoutPlaces files ["store"] [["tmp"]]) := by
    rw [selectAndRemove_eq hscan, transientCandidates_eq isStore_throughScratch hscan, hplaces]
    exact removeEach_single isStore_throughScratch (by simp) ⟨isBare.1, by decide⟩
  exact prune_of_steps hfirst (selectAndRemove_missing hgone staleCandidates_nil)
    (selectAndRemove_missing hgone rfl)

end Sample

/-! ## A store named by a long path -/

namespace Sample

def spelledOut (n : Nat) (names : List String) : Path :=
  ⟨"store" :: (List.replicate n "." ++ names)⟩

theorem size_spelledOut (n : Nat) (names : List String) :
    (spelledOut n names).text.utf8ByteSize =
      2 * n + (spelledOut 0 names).text.utf8ByteSize := by
  induction n with
  | zero => simp
  | succ n ih =>
      have hstep := Path.size_text_here "store" (List.replicate n "." ++ names)
      have hfirst : spelledOut (n + 1) names =
          ⟨"store" :: "." :: (List.replicate n "." ++ names)⟩ := rfl
      rw [hfirst, hstep]
      simp only [spelledOut] at ih ⊢
      omega

theorem isTooLong_spelledOut (n : Nat) (names : List String) :
    isTooLong (spelledOut n names) =
      decide (4096 ≤ 2 * n + (spelledOut 0 names).text.utf8ByteSize) := by
  rw [isTooLong, size_spelledOut]
  rfl

theorem pathAt_spelledOut {n : Nat} {place : Location} (hplace : "" ∉ place) :
    pathAt (spelledOut n []) place = spelledOut n place := by
  by_cases hnil : place = []
  · rw [hnil, pathAt_nil]
  · have hempty : (spelledOut n []).isEmpty = false := by simp [spelledOut, Path.isEmpty]
    have hlast : (spelledOut n []).segments.getLast? ≠ some "" := by
      intro hlast
      have hmem := List.mem_of_getLast? hlast
      simp [spelledOut] at hmem
    have hnames : ∀ name ∈ place, name ≠ "" := fun name hname hempty => hplace (hempty ▸ hname)
    rw [pathAt_eq hempty hnames hnil, Path.stem, if_neg hlast]
    simp [spelledOut]

theorem isTooLong_pathAt_spelledOut {n : Nat} {place : Location} (hplace : "" ∉ place) :
    isTooLong (pathAt (spelledOut n []) place) =
      decide (4096 ≤ 2 * n + (spelledOut 0 place).text.utf8ByteSize) := by
  rw [pathAt_spelledOut hplace, isTooLong_spelledOut]

theorem steps_spelledOut (n : Nat) :
    (spelledOut n []).steps = .down "store" :: List.replicate n .here := by
  simp [spelledOut, Path.steps, Path.stepOf]

theorem walkWith_here (fs : FileSystem) (n : Nat)
    (jump : Path → Location → List Path.Step → Except IoError Place) (dir : Location) :
    fs.walkWith true jump dir (List.replicate n .here) = .ok (.present dir .directory) := by
  induction n with
  | zero => rfl
  | succ n ih => exact ih

theorem directoryAt?_spelledOut {fs : FileSystem} {n : Nat} (hhere : fs.here = [])
    (hstore : fs.node? ["store"] = some .directory)
    (hshort : isTooLong (spelledOut n []) = false) :
    fs.directoryAt? (spelledOut n []) = some ["store"] := by
  have hlast : (spelledOut n []).endsWithSlash = false := by
    simp [spelledOut, Path.endsWithSlash, List.getLast?_cons, List.getLast?_replicate]
    split <;> simp
  have hstart : startOf fs.here (spelledOut n []) = [] := by
    simp [startOf, hhere]
  rw [directoryAt?_eq_some_iff, stat, find_eq_ok_iff, place_eq_ok_iff, lookupSteps, hlast,
    if_neg Bool.false_ne_true, steps_spelledOut, hstart]
  refine ⟨⟨by simp [spelledOut, Path.hasNul], by simp [spelledOut, Path.isEmpty], hshort⟩, ?_⟩
  simp only [walk, walkWith, List.nil_append, hstore, linkLimit]
  exact walkWith_here fs n _ ["store"]

def objectFiles : FileSystem :=
  ⟨[(["store"], .directory), (["store", "tmp"], .directory),
    (["store", "tmp", "object-files"], .file 0 "octet".toUTF8 false)], 1, []⟩

/-- The path of the store from which the one of the file is just too long. -/
def farRoot : Path :=
  spelledOut 2037 []

theorem wellFormed_objectFiles : objectFiles.WellFormed := by
  decide

theorem noLinks_objectFiles (dir : Location) : HasNoLinks objectFiles dir :=
  hasNoLinks_of_entries wellFormed_objectFiles (by simp [objectFiles]) dir

theorem isBare_objectFiles : IsBare objectFiles ["store", "tmp"] := ⟨rfl, rfl⟩

theorem isStore_objectFiles : IsStore objectFiles farRoot ["store"] :=
  ⟨wellFormed_objectFiles, noLinks_objectFiles _,
    directoryAt?_spelledOut rfl rfl (by rw [isTooLong_spelledOut]; rfl)⟩

theorem metadataScans_objectFiles : MetadataScans objectFiles farRoot ["store"] := by
  have htmp : ∀ name, objectFiles.node? ["store", name] = some .directory → name = "tmp" := by
    intro name hnode
    rw [← wellFormed_objectFiles.mem_entries_iff (by simp)] at hnode
    simpa [objectFiles] using hnode
  constructor
  · intro name hnode
    obtain rfl := htmp name hnode
    have hvisible : IsVisible objectFiles farRoot ["store"] ["tmp"] :=
      ⟨hnode, by rw [farRoot, isTooLong_pathAt_spelledOut (by simp)]; rfl⟩
    have hbelow := isStore_objectFiles.below (by simp) hvisible
    have hshort : isTooLong ((farRoot.child "tmp").child metadataName) = false := by
      rw [← pathAt_pair, farRoot, isTooLong_pathAt_spelledOut (by simp [metadataName])]
      rfl
    rw [pathAt_single] at hbelow
    exact ⟨none, (readMeta_eq_ok_none hbelow.named hbelow.noLinks).mpr
      ⟨hshort, isBare_objectFiles.2⟩⟩
  · intro record name lastUsed hentry
    obtain rfl := htmp record hentry.1
    exact absurd hentry isBare_objectFiles.not_isEntry

theorem namesWithout_objectFiles :
    NamesWithout objectFiles farRoot ["store"]
      (IsSelected objectFiles ["store"] clock .standard) := by
  refine namesWithout_of_descend (noLinks_objectFiles []) isStore_objectFiles.named ?_
    fun _ h => h.ne_nil
  rw [farRoot, steps_spelledOut, List.mem_cons, List.mem_replicate]
  rintro (h | ⟨-, h⟩) <;> contradiction

theorem sizeWhere_objectFiles {counts : Location → Bool}
    (hcounts : counts ["store", "tmp", "object-files"] = false) :
    objectFiles.sizeWhere counts = 0 := by
  refine sizeWhere_eq_zero fun e he hsize => ?_
  simp only [objectFiles, List.mem_cons, List.not_mem_nil, or_false] at he
  rcases he with rfl | rfl | rfl
  · contradiction
  · contradiction
  · exact hcounts

theorem findableSize_objectFiles : findableSize objectFiles farRoot ["store"] = 0 := by
  refine sizeWhere_objectFiles ?_
  have hplace := isFindable_append farRoot ["store"] ["tmp", "object-files"]
  rw [farRoot, isTooLong_pathAt_spelledOut (by simp)] at hplace
  exact hplace

theorem totalSize_objectFiles_without {places : List Location} (htmp : ["tmp"] ∈ places) :
    (withoutPlaces objectFiles ["store"] places).totalSize = 0 := by
  rw [totalSize_eq, withoutPlaces, sizeWhere_withoutAll]
  refine sizeWhere_objectFiles ?_
  rw [Bool.true_and, Bool.not_eq_false', any_isWithin_iff]
  exact ⟨["store", "tmp"], List.mem_map.mpr ⟨["tmp"], htmp, rfl⟩, by simp⟩

end Sample

/--
A path through a directory that goes hides what is left from the later steps, and a
file with a path that is too long goes without being counted.
-/
theorem prune_not_exact :
    ((IsStore Sample.files Sample.throughScratch ["store"] ∧
        MetadataScans Sample.files Sample.throughScratch ["store"]) ∧
      ¬ ∃ report left scratch stale orphaned,
        IsExactPrune Sample.files Sample.throughScratch ["store"] Sample.clock .standard report
          left scratch stale orphaned) ∧
    (IsStore Sample.objectFiles Sample.farRoot ["store"] ∧
        MetadataScans Sample.objectFiles Sample.farRoot ["store"] ∧
        NamesWithout Sample.objectFiles Sample.farRoot ["store"]
          (IsSelected Sample.objectFiles ["store"] Sample.clock .standard)) ∧
      ∃ report left,
        (prune (LocalStore.backend ⟨Sample.farRoot, Sample.clock⟩) ⟨.standard, false⟩).outcome
          Sample.objectFiles = (.ok report, left) ∧
        report.bytes + left.totalSize ≠ Sample.objectFiles.totalSize := by
  refine ⟨⟨⟨Sample.isStore_throughScratch, Sample.metadataScans_throughScratch⟩, ?_⟩,
    ⟨Sample.isStore_objectFiles, Sample.metadataScans_objectFiles,
      Sample.namesWithout_objectFiles⟩, ?_⟩
  · rintro ⟨report, left, scratch, stale, orphaned, hexact⟩
    have houtcome := hexact.outcome
    rw [Sample.prune_throughScratch] at houtcome
    have hremoved := hexact.artifacts_removed
    cases houtcome
    have hmem : ["a"] ∈ stale := (hexact.mem_stale ["a"]).mpr Sample.isStale
    have hnil : stale = [] := List.map_eq_nil_iff.mp hremoved.symm
    rw [hnil] at hmem
    contradiction
  · have hs := Sample.isStore_objectFiles
    have hmeta := Sample.metadataScans_objectFiles
    obtain ⟨layout, hscan⟩ := hmeta.scan hs
    have hselected : NamesWithout Sample.objectFiles Sample.farRoot ["store"]
        (· ∈ layout.selectedPlaces Sample.clock .standard) :=
      Sample.namesWithout_objectFiles.mono fun _ => (mem_selectedPlaces_iff hs hmeta hscan).mp
    have hscratch : ["tmp"] ∈ layout.selectedPlaces Sample.clock .standard :=
      (mem_selectedPlaces_iff hs hmeta hscan).mpr (.inl (.inStore Sample.isBare_objectFiles))
    refine ⟨_, _, prune_real hs hscan hselected, ?_⟩
    have hbytes := predictedReport_bytes hs hscan hselected false
    rw [Sample.findableSize_objectFiles, Nat.add_eq_zero_iff] at hbytes
    rw [hbytes.1, Sample.totalSize_objectFiles_without hscratch]
    decide

end CacheUpkeep.Store
