import CacheUpkeep.Proofs.FileSystem.ListingOrder
import CacheUpkeep.Proofs.Store.Resumption
import CacheUpkeep.RunnerStorage

/-!
# Prunes and the order of listings

A store is visited by name, so that neither its layout nor the first fault in it shows in
which order its directories list their entries.  A prune has one report or error and leaves
the same tree, whatever the order; the storage directories of runners are found in one order.
-/

namespace CacheUpkeep.Store

open CacheUpkeep.Action CacheUpkeep.Calendar CacheUpkeep.FileSystem CacheUpkeep.Prune

variable {fs fs' : FileSystem} {remove remove' : Remover}

section Scan

variable (h : SameTree fs fs')

include h

theorem subdirectories_eq_of_sameTree (dir : Path) :
    subdirectories fs dir = subdirectories fs' dir := by
  unfold subdirectories
  rcases h.list_cases dir with ⟨names, names', hnames, hnames', hperm⟩ | ⟨e, hfs, hfs'⟩
  · simp only [hnames, hnames', h.isDirectory_eq]
    rw [mergeSort_eq_of_perm (hperm.filter _)]
  · rw [hfs, hfs']

theorem readMeta_eq_of_sameTree (dir : Path) : readMeta fs dir = readMeta fs' dir := by
  simp only [readMeta, h.readText_eq]

theorem scanPart_eq_of_sameTree (record : Path) : scanPart fs record = scanPart fs' record := by
  funext name
  simp only [scanPart, readMeta_eq_of_sameTree h]

theorem scanEntry_eq_of_sameTree (root : Path) : scanEntry fs root = scanEntry fs' root := by
  funext name
  simp only [scanEntry, readMeta_eq_of_sameTree h, subdirectories_eq_of_sameTree h,
    scanPart_eq_of_sameTree h]

theorem scan_eq_of_sameTree (root : Path) : scan fs root = scan fs' root := by
  simp only [scan, h.isDirectory_eq, subdirectories_eq_of_sameTree h, scanEntry_eq_of_sameTree h]

end Scan

/-! ## Steps -/

theorem alike_removeEach (hremove : ∀ p, Alike SameTree (remove p) (remove' p)) (dryRun : Bool)
    (candidates : List Candidate) :
    Alike SameTree (removeEach remove dryRun candidates)
      (removeEach remove' dryRun candidates) := by
  induction candidates with
  | nil => exact .pure _
  | cons c rest ih =>
      unfold removeEach
      cases dryRun with
      | true => exact ih.bind fun _ => .pure _
      | false => exact ((hremove c.path).mapError _).bind fun _ => ih.bind fun _ => .pure _

theorem alike_selectAndRemove (hremove : ∀ p, Alike SameTree (remove p) (remove' p)) (root : Path)
    (dryRun : Bool) {select : FileSystem → Layout → List Candidate}
    (hselect : ∀ fs fs', SameTree fs fs' → select fs = select fs') :
    Alike SameTree (selectAndRemove remove root dryRun select)
      (selectAndRemove remove' root dryRun select) := by
  refine Alike.bind (.reading fun fs fs' h => ?_) fun candidates =>
    alike_removeEach hremove dryRun candidates
  rw [scan_eq_of_sameTree h, hselect fs fs' h]

theorem alike_prune (hremove : ∀ p, Alike SameTree (remove p) (remove' p)) (store : LocalStore)
    (policy : Policy) :
    Alike SameTree (prune (store.backendWith remove) policy)
      (prune (store.backendWith remove') policy) := by
  refine Alike.bind (alike_selectAndRemove hremove _ _ fun fs fs' h => ?_) fun transient =>
    Alike.bind (alike_selectAndRemove hremove _ _ fun fs fs' h => ?_) fun artifacts =>
      Alike.bind (alike_selectAndRemove hremove _ _ fun fs fs' h => ?_) fun records => .pure _
  · funext layout
    simp only [transientCandidates, h.treeSize_eq]
  · funext layout
    simp only [staleCandidates, h.treeSize_eq]
  · funext layout
    simp only [orphanedCandidates, h.treeSize_eq]

theorem discover_eq_of_sameTree (h : SameTree fs fs') (s : RunnerStorage) :
    s.discover fs = s.discover fs' := by
  unfold RunnerStorage.discover
  rcases h.list_cases s.root with ⟨names, names', hnames, hnames', hperm⟩ | ⟨e, hfs, hfs'⟩
  · simp only [hnames, hnames', h.isDirectory_eq]
    rw [mergeSort_eq_of_perm (hperm.filter _)]
  · rw [hfs, hfs']
    cases e <;> rfl

/--
Whatever the order in which directories list their entries, a prune has one report or error
and leaves the same tree, and the same storage directories are found in one order.  The prune
may remove directories in any way that does alike on trees that differ in order only.
-/
theorem prune_forgets_listingOrder (h : SameTree fs fs') (store : LocalStore) (policy : Policy) :
    (((prune store.backend policy).outcome fs).1 = ((prune store.backend policy).outcome fs').1 ∧
      SameTree ((prune store.backend policy).outcome fs).2
        ((prune store.backend policy).outcome fs').2) ∧
    (∀ remove remove' : Remover, (∀ p, Alike SameTree (remove p) (remove' p)) →
      ((prune (store.backendWith remove) policy).outcome fs).1 =
          ((prune (store.backendWith remove') policy).outcome fs').1 ∧
        SameTree ((prune (store.backendWith remove) policy).outcome fs).2
          ((prune (store.backendWith remove') policy).outcome fs').2) ∧
    ∀ s : RunnerStorage, s.discover fs = s.discover fs' :=
  ⟨alike_prune alike_removeTree store policy fs fs' h,
    fun _ _ hremove => alike_prune hremove store policy fs fs' h, discover_eq_of_sameTree h⟩

namespace Sample

def relistedFiles : FileSystem :=
  { files with entries := files.entries.reverse }

theorem sameTree_relistedFiles : SameTree files relistedFiles :=
  sameTree_of_perm wellFormed (by decide) (List.reverse_perm _).symm rfl rfl

end Sample

/-- The sample store lists its two directories in two orders, and is pruned alike. -/
theorem prune_forgets_listingOrder_sample :
    (SameTree Sample.files Sample.relistedFiles ∧
      Sample.files.namesIn ["store"] = ["tmp", "a"] ∧
      Sample.relistedFiles.namesIn ["store"] = ["a", "tmp"]) ∧
    ((prune (LocalStore.backend ⟨⟨["store"]⟩, Sample.clock⟩) ⟨.standard, false⟩).outcome
        Sample.files).1 =
      ((prune (LocalStore.backend ⟨⟨["store"]⟩, Sample.clock⟩) ⟨.standard, false⟩).outcome
        Sample.relistedFiles).1 :=
  ⟨⟨Sample.sameTree_relistedFiles, by decide, by decide⟩,
    (prune_forgets_listingOrder Sample.sameTree_relistedFiles ⟨⟨["store"]⟩, Sample.clock⟩
      ⟨.standard, false⟩).1.1⟩

/-! ## A removal that stops on its way -/

theorem clears_files {dir : Location} {names : List String} (hfs : fs.WellFormed)
    (hnodup : names.Nodup)
    (hfiles : ∀ name ∈ names, ((fs.node? (dir ++ [name])).bind Node.number?).isSome = true) :
    Clears dir fs (fs.withoutAll (names.map fun name => dir ++ [name])) := by
  induction names generalizing fs with
  | nil =>
      rw [List.map_nil, withoutAll_nil]
      exact .done fs
  | cons name rest ih =>
      obtain ⟨hnew, hrest⟩ := List.nodup_cons.mp hnodup
      obtain ⟨id, hid⟩ := Option.isSome_iff_exists.mp (hfiles name List.mem_cons_self)
      obtain ⟨node, hnode, hnumber⟩ := Option.bind_eq_some_iff.mp hid
      have hempty : ∀ below, fs.node? (dir ++ [name] ++ [below]) = none := by
        intro below
        by_contra hchild
        obtain ⟨child, hchild⟩ := Option.ne_none_iff_exists'.mp hchild
        rw [hfs.node?_of_append (by simp) hchild] at hnode
        cases hnode
        cases hnumber
      have hleft : fs.withoutAll ((name :: rest).map fun name => dir ++ [name]) =
          (fs.without (dir ++ [name])).withoutAll (rest.map fun name => dir ++ [name]) := by
        rw [without_eq_withoutAll, withoutAll_withoutAll]
        rfl
      rw [hleft]
      refine .next (List.prefix_append dir [name]) hnode hempty (ih ?_ hrest ?_)
      · rw [without_eq_withoutAll]
        exact hfs.withoutAll _
      · intro other hother
        rw [node?_without, hfiles other (List.mem_cons_of_mem _ hother)]
        intro hprefix
        obtain rfl : name = other := by simpa using hprefix.eq_of_length (by simp)
        exact hnew hother

namespace Sample

/-- Removes the files in a directory in the order of the listing, and stops at one of them. -/
def removeListed (pinned : Location) : Remover := fun path =>
  Action.ofOutcome fun fs =>
    match fs.linkStat path with
    | .ok (dir, .directory) =>
        let gone := (fs.namesIn dir).takeWhile fun name =>
          ((fs.node? (dir ++ [name])).bind Node.number?).isSome && dir ++ [name] != pinned
        if gone = fs.namesIn dir then (removeTree path).outcome fs
        else (.error .permissionDenied, fs.withoutAll (gone.map fun name => dir ++ [name]))
    | _ => (removeTree path).outcome fs

theorem removesStepwise_removeListed (pinned : Location) :
    RemovesStepwise (removeListed pinned) where
  ok := by
    intro path fs left h
    simp only [removeListed, Action.outcome_ofOutcome] at h
    split at h
    · split at h
      · exact removesStepwise_removeTree.ok h
      · cases h
    · exact removesStepwise_removeTree.ok h
  error := by
    intro path fs left e hfs h
    simp only [removeListed, Action.outcome_ofOutcome] at h
    split at h
    · next dir hstat =>
        split at h
        · exact removesStepwise_removeTree.error hfs h
        · cases h
          refine .inr ⟨dir, .directory, hstat, clears_files hfs ?_ fun name hname => ?_⟩
          · exact (List.takeWhile_sublist _).nodup (hfs.namesIn_nodup dir)
          · have hkept := List.all_eq_true.mp List.all_takeWhile name hname
            exact (Bool.and_eq_true_iff.mp hkept).1
    · exact removesStepwise_removeTree.error hfs h

def twoFiles : FileSystem :=
  ⟨[(["store"], .directory), (["store", "tmp"], .directory),
    (["store", "tmp", "x"], .file 0 "".toUTF8 false),
    (["store", "tmp", "y"], .file 1 "".toUTF8 false)], 2, []⟩

def relistedTwoFiles : FileSystem :=
  { twoFiles with entries := twoFiles.entries.reverse }

theorem sameTree_relistedTwoFiles : SameTree twoFiles relistedTwoFiles :=
  sameTree_of_perm (by decide) (by decide) (List.reverse_perm _).symm rfl rfl

end Sample

/-- What a removal that fails on its way has taken depends on the order of the listing. -/
theorem prune_shows_listingOrder :
    (RemovesStepwise (Sample.removeListed ["store", "tmp", "y"]) ∧
      SameTree Sample.twoFiles Sample.relistedTwoFiles) ∧
    let run := (prune (LocalStore.backendWith (Sample.removeListed ["store", "tmp", "y"])
      ⟨⟨["store"]⟩, Sample.clock⟩) ⟨.standard, false⟩).outcome
    (run Sample.twoFiles).1 = .error (.remove ⟨["store", "tmp"]⟩ .permissionDenied) ∧
      (run Sample.relistedTwoFiles).1 = .error (.remove ⟨["store", "tmp"]⟩ .permissionDenied) ∧
      (run Sample.twoFiles).2.node? ["store", "tmp", "x"] = none ∧
      (run Sample.relistedTwoFiles).2.node? ["store", "tmp", "x"] ≠ none :=
  ⟨⟨Sample.removesStepwise_removeListed _, Sample.sameTree_relistedTwoFiles⟩,
    by decide +kernel, by decide +kernel, by decide +kernel, by decide +kernel⟩

end CacheUpkeep.Store
