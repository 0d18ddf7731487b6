import CacheUpkeep.Proofs.Store.Ending
import CacheUpkeep.Proofs.Store.Exact
import CacheUpkeep.Proofs.Store.Reselection

/-!
# Prunes that are cut short

A directory tree is removed node by node, each directory after what is in it.  When
that stops somewhere, in whatever order it went, the next prune succeeds and makes up
for it, unless an entry has lost its metadata and its directory is left.
-/

namespace CacheUpkeep.Store

open CacheUpkeep.Calendar CacheUpkeep.FileSystem CacheUpkeep.Prune

/-- Some of the nodes at a location and below it go one by one, each after what is below it. -/
inductive Clears (dir : Location) : FileSystem → FileSystem → Prop where
  | done (fs : FileSystem) : Clears dir fs fs
  | next {fs left : FileSystem} {location : Location} {node : Node}
      (hbelow : dir <+: location) (hnode : fs.node? location = some node)
      (hempty : ∀ name, fs.node? (location ++ [name]) = none)
      (hrest : Clears dir (fs.without location) left) : Clears dir fs left

/-- A remover that removes node by node, and may stop after any of them. -/
structure RemovesStepwise (remove : Remover) : Prop where
  ok : ∀ {path fs left}, (remove path).outcome fs = (.ok (), left) →
    ∃ location node, fs.linkStat path = .ok (location, node) ∧ left = fs.without location
  error : ∀ {path fs left e}, fs.WellFormed → (remove path).outcome fs = (.error e, left) →
    left = fs ∨ ∃ location node, fs.linkStat path = .ok (location, node) ∧ Clears location fs left

theorem removesStepwise_removeTree : RemovesStepwise removeTree where
  ok h := removeTree_eq_ok (Action.outcome_changing_eq_ok h)
  error _ h := .inl (Action.outcome_changing_eq_error h)

variable {remove : Remover} {fs mid left : FileSystem} {root : Path} {store dir : Location}
  {places : List Location} {paths : List Path} {layout : Layout} {now : Instant}
  {window : RetentionWindow} {dryRun : Bool} {failure : Option PruneError}
  {select : FileSystem → Layout → List Candidate}

/-! ## What is left is a remainder -/

theorem Clears.exists_gone (h : Clears dir fs left) :
    ∃ gone : List Location, left = fs.withoutAll gone ∧ ∀ location ∈ gone, dir <+: location := by
  induction h with
  | done fs => exact ⟨[], (withoutAll_nil fs).symm, by simp⟩
  | @next fs left location node hbelow hnode hempty hrest ih =>
      obtain ⟨gone, rfl, hgone⟩ := ih
      refine ⟨location :: gone, ?_, fun other hother => ?_⟩
      · rw [without_eq_withoutAll, withoutAll_withoutAll]
        rfl
      · rcases List.mem_cons.mp hother with rfl | hother
        · exact hbelow
        · exact hgone other hother

theorem Removes.isRemainder (h : Removes remove paths mid failure left)
    (hremove : RemovesStepwise remove) (hfs : fs.WellFormed)
    (hmid : IsRemainder fs store places mid)
    (hpaths : ∀ path ∈ paths, ∃ place ∈ places, ∀ {location node},
      fs.linkStat path = .ok (location, node) → location = store ++ place) :
    IsRemainder fs store places left := by
  have hplace : ∀ {path mid location node}, path ∈ paths → IsRemainder fs store places mid →
      mid.linkStat path = .ok (location, node) → ∃ place ∈ places, location = store ++ place := by
    intro path mid location node hpath hmid hstat
    obtain ⟨place, hmem, heq⟩ := hpaths path hpath
    exact ⟨place, hmem, heq (find_mono hmid.extends_left hstat)⟩
  induction h with
  | done mid => exact hmid
  | fails hfails =>
      rcases hremove.error (hmid.shrinks hfs).wellFormed hfails with
        rfl | ⟨location, node, hstat, hclears⟩
      · exact hmid
      · obtain ⟨gone, rfl, hgone⟩ := hclears.exists_gone
        obtain ⟨place, hmem, rfl⟩ := hplace List.mem_cons_self hmid hstat
        exact hmid.withoutAll fun other hother =>
          ⟨_, List.mem_map.mpr ⟨place, hmem, rfl⟩, hgone other hother⟩
  | next hgone hrest ih =>
      obtain ⟨location, node, hstat, rfl⟩ := hremove.ok hgone
      obtain ⟨place, hmem, rfl⟩ := hplace List.mem_cons_self hmid hstat
      refine ih ?_ (fun path hpath => hpaths path (List.mem_cons_of_mem _ hpath))
        fun hpath => hplace (List.mem_cons_of_mem _ hpath)
      rw [without_eq_withoutAll]
      refine hmid.withoutAll fun other hother => ?_
      rw [List.mem_singleton] at hother
      exact ⟨_, List.mem_map.mpr ⟨place, hmem, rfl⟩, hother ▸ List.prefix_rfl⟩

theorem IsSelection.path_of_mem {path : Path} (h : IsSelection fs now window mid select)
    (hs : IsStore mid root store) (hscan : scan mid root = .ok layout)
    (hpath : path ∈ (select mid layout).map Candidate.path) :
    ∃ place ∈ layout.selectedPlaces now window, path = pathAt root place := by
  cases h with
  | transient =>
      rw [transientCandidates_eq hs hscan, candidateAt_path] at hpath
      obtain ⟨place, hplace, rfl⟩ := List.mem_map.mp hpath
      exact ⟨place, mem_selectedPlaces.mpr (.inl hplace), rfl⟩
  | stale mid =>
      simp only [staleCandidates_eq hs hscan, candidateAt_path] at hpath
      obtain ⟨place, hplace, rfl⟩ := List.mem_map.mp hpath
      exact ⟨place, mem_selectedPlaces.mpr (.inr (.inl hplace)), rfl⟩
  | orphaned mid =>
      simp only [orphanedCandidates_path hs hscan] at hpath
      obtain ⟨place, hplace, rfl⟩ := List.mem_map.mp hpath
      exact ⟨place, mem_selectedPlaces.mpr (.inr (.inr hplace)), rfl⟩

section Prune

variable (hremove : RemovesStepwise remove) (hs : IsStore fs root store)
  (hscan : scan fs root = .ok layout)
  (hnames : NamesWithout fs root store (· ∈ layout.selectedPlaces now window))

include hremove hs hscan hnames

theorem StepEnds.isRemainder (hselect : IsSelection fs now window mid select)
    (hmid : IsRemainder fs store (layout.selectedPlaces now window) mid)
    (h : StepEnds remove root dryRun select mid failure left) :
    IsRemainder fs store (layout.selectedPlaces now window) left := by
  cases h with
  | unscanned hfails => exact hmid
  | predicts hrest hdry => exact hmid
  | removes hrest hreal hremoves =>
      have hsmall := hmid.isStore hs hnames
      refine hremoves.isRemainder hremove hs.wellFormed hmid fun path hpath => ?_
      obtain ⟨place, hplace, rfl⟩ := hselect.path_of_mem hsmall hrest hpath
      have hplace' := mem_selectedPlaces_of_remainder hs hscan hmid hsmall hrest hplace
      obtain ⟨hnil, hvisible⟩ := isVisible_of_mem_selectedPlaces hs hscan hplace'
      refine ⟨place, hplace', fun {location node} hstat => ?_⟩
      rw [linkStat, hs.find_pathAt false hnil hvisible] at hstat
      cases hstat
      rfl

/-- Wherever a prune ends, it has removed nothing but what its first scan selects. -/
theorem PruneEnds.isRemainder (h : PruneEnds remove root now window dryRun fs failure left) :
    IsRemainder fs store (layout.selectedPlaces now window) left :=
  h.preserves (fun _ left => IsRemainder fs store (layout.selectedPlaces now window) left)
    (isRemainder_self fs store _)
    fun hselect hmid hstep => hstep.isRemainder hremove hs hscan hnames hselect hmid

end Prune

/--
After a prune that was cut short another one succeeds.  It ends in the files that one
prune would have ended in exactly if the first has left no entry without its metadata.
-/
theorem prune_resumes (hremove : RemovesStepwise remove) (hs : IsStore fs root store)
    (hscan : scan fs root = .ok layout)
    (hnames : NamesWithout fs root store (· ∈ layout.selectedPlaces now window))
    (hleft : ((prune (LocalStore.backendWith remove ⟨root, now⟩) ⟨window, false⟩).outcome fs).2 =
      left) :
    ∃ resumed once last whole,
      (prune (LocalStore.backend ⟨root, now⟩) ⟨window, false⟩).outcome left =
        (.ok resumed, last) ∧
      (prune (LocalStore.backend ⟨root, now⟩) ⟨window, false⟩).outcome fs = (.ok once, whole) ∧
      (last = whole ↔ ∀ place, ¬ IsStranded fs left root store place) := by
  have h : IsRemainder fs store (layout.selectedPlaces now window) left :=
    hleft ▸ (pruneEnds_of_prune remove root now window false fs).isRemainder hremove hs hscan hnames
  have hsmall := h.isStore hs hnames
  obtain ⟨rest, hrest⟩ := h.exists_scan hs hscan
  exact ⟨_, _, _, _, prune_of_remainder hs hscan h hsmall hrest hnames,
    prune_real hs hscan hnames, withoutPlaces_eq_iff hs hscan h hsmall hrest⟩

/-! ## A removal that stops after the metadata -/

namespace Sample

/-- Removes trees, but of the one that holds a certain file only that file. -/
def removeUpTo (file : Location) : Remover := fun path =>
  Action.ofOutcome fun fs =>
    match (removeTree path).outcome fs, (fs.node? file).bind Node.number? with
    | (.ok (), left), some _ =>
        if left.node? file = none then (.error .permissionDenied, fs.without file)
        else (.ok (), left)
    | result, _ => result

theorem removesStepwise_removeUpTo (file : Location) : RemovesStepwise (removeUpTo file) where
  ok := by
    intro path fs left h
    simp only [removeUpTo, Action.outcome_ofOutcome] at h
    split at h
    · next hremoved hnumber =>
        split at h
        · cases h
        · cases h
          exact removesStepwise_removeTree.ok hremoved
    · exact removesStepwise_removeTree.ok h
  error := by
    intro path fs left e hfs h
    simp only [removeUpTo, Action.outcome_ofOutcome] at h
    split at h
    · next gone id hremoved hnumber =>
        split at h
        · next hgone =>
            cases h
            obtain ⟨location, node, hstat, rfl⟩ := removesStepwise_removeTree.ok hremoved
            obtain ⟨found, hnode, hfile⟩ := Option.bind_eq_some_iff.mp hnumber
            have hbelow : location <+: file := by
              by_contra hnot
              rw [node?_without hnot, hnode] at hgone
              cases hgone
            refine .inr ⟨location, node, hstat, .next hbelow hnode (fun name => ?_) (.done _)⟩
            by_contra hchild
            obtain ⟨child, hchild⟩ := Option.ne_none_iff_exists'.mp hchild
            rw [hfs.node?_of_append (by simp) hchild] at hnode
            cases hnode
            cases hfile
        · cases h
    · exact removesStepwise_removeTree.error hfs h

def staleFiles : FileSystem :=
  ⟨[(["store"], .directory), (["store", "a"], .directory),
    (["store", "a", ".entry.json"],
      .file 0 (EntryMeta.write ⟨"a", .artifact, lastUse⟩).toUTF8 false)], 1, []⟩

def staleLayout : Layout :=
  ⟨[.artifact ⟨"a", ⟨["store", "a"]⟩, lastUse⟩]⟩

theorem wellFormed_staleFiles : staleFiles.WellFormed := by
  decide

theorem isStore_staleFiles : IsStore staleFiles ⟨["store"]⟩ ["store"] :=
  ⟨wellFormed_staleFiles, hasNoLinks_of_entries wellFormed_staleFiles (by simp [staleFiles]) _,
    by decide⟩

theorem scan_staleFiles : scan staleFiles ⟨["store"]⟩ = .ok staleLayout :=
  eq_ok_of_toOption (by decide +kernel)

theorem namesWithout_staleFiles : NamesWithout staleFiles ⟨["store"]⟩ ["store"]
    (· ∈ staleLayout.selectedPlaces clock .standard) :=
  namesWithout_of_descend (hasNoLinks_of_entries wellFormed_staleFiles (by simp [staleFiles]) [])
    isStore_staleFiles.named (by decide)
    fun _ hplace => (isVisible_of_mem_selectedPlaces isStore_staleFiles scan_staleFiles hplace).1

def stoppedFiles : FileSystem :=
  ((prune (LocalStore.backendWith (removeUpTo ["store", "a", ".entry.json"]) ⟨⟨["store"]⟩, clock⟩)
    ⟨.standard, false⟩).outcome staleFiles).2

end Sample

theorem prune_resumes_sample :
    (RemovesStepwise (Sample.removeUpTo ["store", "a", ".entry.json"]) ∧
      IsStore Sample.staleFiles ⟨["store"]⟩ ["store"] ∧
      scan Sample.staleFiles ⟨["store"]⟩ = .ok Sample.staleLayout ∧
      NamesWithout Sample.staleFiles ⟨["store"]⟩ ["store"]
        (· ∈ Sample.staleLayout.selectedPlaces Sample.clock .standard) ∧
      ((prune (LocalStore.backendWith (Sample.removeUpTo ["store", "a", ".entry.json"])
        ⟨⟨["store"]⟩, Sample.clock⟩) ⟨.standard, false⟩).outcome Sample.staleFiles).2 =
          Sample.stoppedFiles) ∧
    ∃ resumed once last whole,
      (prune (LocalStore.backend ⟨⟨["store"]⟩, Sample.clock⟩) ⟨.standard, false⟩).outcome
        Sample.stoppedFiles = (.ok resumed, last) ∧
      (prune (LocalStore.backend ⟨⟨["store"]⟩, Sample.clock⟩) ⟨.standard, false⟩).outcome
        Sample.staleFiles = (.ok once, whole) ∧
      (last = whole ↔
        ∀ place, ¬ IsStranded Sample.staleFiles Sample.stoppedFiles ⟨["store"]⟩ ["store"] place) :=
  ⟨⟨Sample.removesStepwise_removeUpTo _, Sample.isStore_staleFiles, Sample.scan_staleFiles,
      Sample.namesWithout_staleFiles, rfl⟩,
    prune_resumes (Sample.removesStepwise_removeUpTo _) Sample.isStore_staleFiles
      Sample.scan_staleFiles Sample.namesWithout_staleFiles rfl⟩

namespace Sample

def removeNothing : Remover := fun _ =>
  throw .permissionDenied

theorem removesStepwise_removeNothing : RemovesStepwise removeNothing where
  ok h := by cases h
  error _ h := by
    cases h
    exact .inl rfl

def scratchFiles : FileSystem :=
  ⟨[(["store"], .directory), (["store", "tmp"], .directory), (["store", "z"], .directory),
    (["store", "z", ".entry.json"],
      .file 0 (EntryMeta.write ⟨"z", .record, clock⟩).toUTF8 false),
    (["store", "z", "source"], .directory)], 1, []⟩

def scratchLayout : Layout :=
  ⟨[.scratch "tmp" (throughScratch.child "tmp"),
    .record ⟨"z", throughScratch.child "z", clock, [.scratch "source"]⟩]⟩

theorem wellFormed_scratchFiles : scratchFiles.WellFormed := by
  decide

theorem isStore_scratchFiles : IsStore scratchFiles throughScratch ["store"] :=
  ⟨wellFormed_scratchFiles,
    hasNoLinks_of_entries wellFormed_scratchFiles (by simp [scratchFiles]) _, by decide⟩

theorem scan_scratchFiles : scan scratchFiles throughScratch = .ok scratchLayout := by
  have hnames : ((scratchFiles.namesIn ["store"]).filter fun name =>
      scratchFiles.isDirectory (throughScratch.child name)) = ["tmp", "z"] := by
    decide
  exact scan_of_sorted isStore_scratchFiles.named hnames (by decide)
    (.cons (eq_ok_of_toOption (by decide))
      (.cons (eq_ok_of_toOption (by decide +kernel)) .nil))

theorem prune_removeNothing : ∃ e,
    (prune (LocalStore.backendWith removeNothing ⟨throughScratch, clock⟩)
      ⟨.standard, false⟩).outcome scratchFiles = (.error e, scratchFiles) := by
  have hfirst : (selectAndRemove removeNothing throughScratch false transientCandidates).outcome
      scratchFiles = (.error (.remove (throughScratch.child "tmp") .permissionDenied),
        scratchFiles) := by
    rw [selectAndRemove_eq scan_scratchFiles]
    rfl
  exact ⟨_, Action.outcome_bind_error hfirst⟩

theorem prune_scratchFiles : ∃ e left,
    (prune (LocalStore.backend ⟨throughScratch, clock⟩) ⟨.standard, false⟩).outcome
      scratchFiles = (.error e, left) := by
  cases hfirst : (selectAndRemove removeTree throughScratch false transientCandidates).outcome
      scratchFiles with
  | mk result left =>
      cases result with
      | error e => exact ⟨e, left, Action.outcome_bind_error hfirst⟩
      | ok outcome =>
          rw [selectAndRemove_eq scan_scratchFiles] at hfirst
          have hfails : ((removeEach removeTree false
              (transientCandidates scratchFiles scratchLayout)).outcome
                scratchFiles).1.toOption = none := by
            decide
          rw [hfirst] at hfails
          cases hfails

end Sample

/--
An artifact without its metadata is no entry, and no later prune removes it.  A later
prune fails where its path leads through what it removes first.
-/
theorem prune_not_resumed :
    ((RemovesStepwise (Sample.removeUpTo ["store", "a", ".entry.json"]) ∧
        IsStore Sample.staleFiles ⟨["store"]⟩ ["store"] ∧
        scan Sample.staleFiles ⟨["store"]⟩ = .ok Sample.staleLayout) ∧
      ¬ ∃ resumed once last,
        (prune (LocalStore.backend ⟨⟨["store"]⟩, Sample.clock⟩) ⟨.standard, false⟩).outcome
          Sample.stoppedFiles = (.ok resumed, last) ∧
        (prune (LocalStore.backend ⟨⟨["store"]⟩, Sample.clock⟩) ⟨.standard, false⟩).outcome
          Sample.staleFiles = (.ok once, last)) ∧
    (RemovesStepwise Sample.removeNothing ∧
        IsStore Sample.scratchFiles Sample.throughScratch ["store"] ∧
        scan Sample.scratchFiles Sample.throughScratch = .ok Sample.scratchLayout) ∧
      ¬ ∃ resumed last,
        (prune (LocalStore.backend ⟨Sample.throughScratch, Sample.clock⟩)
          ⟨.standard, false⟩).outcome
            ((prune (LocalStore.backendWith Sample.removeNothing
              ⟨Sample.throughScratch, Sample.clock⟩) ⟨.standard, false⟩).outcome
                Sample.scratchFiles).2 = (.ok resumed, last) := by
  refine ⟨⟨⟨Sample.removesStepwise_removeUpTo _, Sample.isStore_staleFiles,
      Sample.scan_staleFiles⟩, ?_⟩, ⟨Sample.removesStepwise_removeNothing,
      Sample.isStore_scratchFiles, Sample.scan_scratchFiles⟩, ?_⟩
  · rintro ⟨resumed, once, last, hresumed, honce⟩
    have hstays : ((prune (LocalStore.backend ⟨⟨["store"]⟩, Sample.clock⟩)
        ⟨.standard, false⟩).outcome Sample.stoppedFiles).2.node? ["store", "a"] =
          some .directory := by
      decide +kernel
    have hgoes : ((prune (LocalStore.backend ⟨⟨["store"]⟩, Sample.clock⟩)
        ⟨.standard, false⟩).outcome Sample.staleFiles).2.node? ["store", "a"] = none := by
      decide +kernel
    rw [hresumed] at hstays
    rw [honce, hstays] at hgoes
    cases hgoes
  · rintro ⟨resumed, last, hresumed⟩
    obtain ⟨e, hnothing⟩ := Sample.prune_removeNothing
    obtain ⟨e', left, hfails⟩ := Sample.prune_scratchFiles
    rw [hnothing, hfails] at hresumed
    cases hresumed

end CacheUpkeep.Store
