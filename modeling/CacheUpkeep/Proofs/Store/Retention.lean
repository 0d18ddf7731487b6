import CacheUpkeep.Proofs.Store.Exact
import CacheUpkeep.Proofs.Store.Put
import CacheUpkeep.Proofs.Store.Spared

/-!
# Retention

An entry within the window stays, with its metadata, unless it lies below
something that goes as a whole: a scratch directory or a stale artifact.
-/

namespace CacheUpkeep.Store

open CacheUpkeep.Calendar CacheUpkeep.FileSystem CacheUpkeep.Prune

variable {remove : Remover} {fs : FileSystem} {root : Path} {store place : Location}
  {layout : Layout} {now : Instant} {window : RetentionWindow}

/--
An entry within the window at a place whose path is not too long, and that lies below
no scratch directory and no stale artifact.
-/
structure IsKept (fs : FileSystem) (root : Path) (store : Location) (now : Instant)
    (window : RetentionWindow) (place : Location) : Prop where
  entry : ∃ kind lastUsed, IsEntry fs kind (store ++ place) lastUsed ∧
    window.expired lastUsed now = false
  isTooLong_eq_false : isTooLong (pathAt root place) = false
  above : ∀ dir, dir <+: place → dir ≠ place →
    ¬ IsScratch fs store dir ∧ ¬ IsStale fs store now window dir

theorem IsEntry.not_expired_of {kind kind' : EntryKind} {lastUsed lastUsed' : Instant}
    (h : IsEntry fs kind store lastUsed) (h' : IsEntry fs kind' store lastUsed')
    (hfresh : window.expired lastUsed now = false) : ¬ window.expired lastUsed' now = true := by
  obtain ⟨-, rfl⟩ := h.unique h'
  simp [hfresh]

theorem IsKept.not_isScratch (h : IsKept fs root store now window place) {dir : Location}
    (hpre : dir <+: place) : ¬ IsScratch fs store dir := by
  intro hscratch
  by_cases heq : dir = place
  · subst heq
    obtain ⟨kind, lastUsed, hentry, -⟩ := h.entry
    cases hscratch with
    | inStore bare => exact bare.not_isEntry hentry
    | inRecord entry scratch bare => exact bare.not_isEntry hentry
  · exact (h.above dir hpre heq).1 hscratch

theorem IsKept.not_isStale (h : IsKept fs root store now window place) {dir : Location}
    (hpre : dir <+: place) : ¬ IsStale fs store now window dir := by
  intro hstale
  by_cases heq : dir = place
  · subst heq
    obtain ⟨kind, lastUsed, hentry, hfresh⟩ := h.entry
    obtain ⟨used, hartifact, hexpired⟩ := hstale
    cases hartifact with
    | inStore entry => exact hentry.not_expired_of entry hfresh hexpired
    | inRecord entry part => exact hentry.not_expired_of part hfresh hexpired
  · exact (h.above dir hpre heq).2 hstale

theorem IsKept.not_isOrphaned {r : Record} (h : IsKept fs root store now window place)
    (hs : IsStore fs root store) (hscan : scan fs root = .ok layout)
    (hr : Finding.record r ∈ layout.findings) (horphaned : isOrphaned now window r = true) :
    ¬ [r.id] <+: place := by
  intro hpre
  obtain ⟨hunknown, hexpired, hartifacts⟩ := isOrphaned_iff.mp horphaned
  obtain ⟨kind, lastUsed, hentry, hfresh⟩ := h.entry
  obtain ⟨rest, rfl⟩ := hpre
  cases rest with
  | nil =>
      obtain ⟨-, -, hrecord, -⟩ := record_of_mem hs hscan hr
      rw [List.append_nil] at hentry
      exact hentry.not_expired_of hrecord hfresh hexpired
  | cons name rest =>
      have hplace : [r.id] ++ name :: rest = [r.id, name] ++ rest := rfl
      rw [hplace] at h hentry
      have hvisible : IsVisible fs root store [r.id, name] := by
        refine ⟨?_, isTooLong_pathAt_of_append hs.isEmpty_eq_false h.isTooLong_eq_false⟩
        by_cases hnil : rest = []
        · simpa [hnil] using hentry.1
        · have hdir := hentry.1
          rw [← List.append_assoc] at hdir
          exact hs.wellFormed.node?_of_append hnil hdir
      -- The directory in the record that holds it is of some kind, and none lets the record go.
      obtain ⟨part, hpart, rfl⟩ := exists_part hs hscan hr hvisible
      cases part with
      | unknown name => exact hunknown name hpart
      | scratch name =>
          obtain ⟨-, hbare, hname⟩ := (scratch_mem_parts_iff hs hscan hr).mp hpart
          obtain ⟨-, -, hrecord, -⟩ := record_of_mem hs hscan hr
          exact h.not_isScratch (List.prefix_append _ rest) (.inRecord hrecord hname hbare)
      | artifact name used =>
          obtain ⟨-, hartifact⟩ := (artifact_mem_parts_iff hs hscan hr).mp hpart
          obtain ⟨-, -, hrecord, -⟩ := record_of_mem hs hscan hr
          exact h.not_isStale (List.prefix_append _ rest)
            ⟨used, .inRecord hrecord hartifact, hartifacts name used hpart⟩

theorem IsKept.not_isCovered (h : IsKept fs root store now window place)
    (hs : IsStore fs root store) (hscan : scan fs root = .ok layout) :
    ¬ IsCovered (layout.selectedPlaces now window) place := by
  rintro ⟨dir, hdir, hpre⟩
  rcases List.mem_append.mp hdir with hdir | hdir
  · rcases List.mem_append.mp hdir with hdir | hdir
    · exact h.not_isScratch hpre ((mem_scratchPlaces_iff hs hscan).mp hdir).1
    · exact h.not_isStale hpre ((mem_stalePlaces_iff hs hscan).mp hdir).1
  · obtain ⟨r, hr, horphaned, rfl⟩ := mem_orphanedPlaces.mp hdir
    exact h.not_isOrphaned hs hscan hr horphaned hpre

theorem prune_of_scan_error {e : PruneError} (hscan : scan fs root = .error e) :
    (prune (LocalStore.backendWith remove ⟨root, now⟩) ⟨window, false⟩).outcome fs =
      (.error e, fs) := by
  refine Action.outcome_bind_error (Action.outcome_bind_error ?_)
  simp [hscan, Except.map]

theorem IsKept.stays (h : IsKept fs root store now window place) (hremove : RemovesOnly remove)
    (hs : IsStore fs root store) :
    let left :=
      ((prune (LocalStore.backendWith remove ⟨root, now⟩) ⟨window, false⟩).outcome fs).2
    left.node? (store ++ place) = some .directory ∧
      left.node? (store ++ place ++ [metadataName]) =
        fs.node? (store ++ place ++ [metadataName]) := by
  obtain ⟨kind, lastUsed, ⟨hdir, key, hmeta⟩, -⟩ := h.entry
  cases hscan : scan fs root with
  | error e =>
      rw [prune_of_scan_error hscan]
      exact ⟨hdir, rfl⟩
  | ok layout =>
      have hspares : Spares fs _ store (layout.selectedPlaces now window) :=
        prune_spares hremove hs hscan
      have hplace := h.not_isCovered hs hscan
      refine ⟨?_, hspares _ ?_⟩
      · rw [hspares _ (by rwa [isCovered_map_iff]), hdir]
      · rw [List.append_assoc, isCovered_map_iff, isCovered_append_single hplace]
        intro hmem
        have hselected := (isVisible_of_mem_selectedPlaces hs hscan hmem).2.1
        rw [← List.append_assoc] at hselected
        rw [metadataAt?, hselected] at hmeta
        cases hmeta

/-! ## Stores that puts have filled -/

theorem expired_carried_eq_false {lastUsed : Instant} (h : window.expired lastUsed now = false) :
    window.expired lastUsed.carried now = false := by
  have hle := now.since_carried_le lastUsed
  simp only [RetentionWindow.expired, decide_eq_false_iff_not] at h ⊢
  omega

structure IsEmptyStore (fs : FileSystem) (root : Path) (store : Location) : Prop where
  wellFormed : fs.WellFormed
  named : fs.directoryAt? root = some store
  node : fs.node? store = some .directory
  empty : fs.namesIn store = []

theorem IsEmptyStore.isPlain (h : IsEmptyStore fs root store) : IsPlain fs root store where
  wellFormed := h.wellFormed
  named := h.named
  node := h.node
  plain := by
    intro below found hfound
    cases below with
    | nil =>
        rw [List.append_nil, h.node] at hfound
        cases hfound
        exact .inl rfl
    | cons name rest =>
        have hname : ∃ node, fs.node? (store ++ [name]) = some node := by
          by_cases hrest : rest = []
          · exact ⟨found, by simpa [hrest] using hfound⟩
          · have hbelow : fs.node? (store ++ [name] ++ rest) = some found := by
              simpa using hfound
            exact ⟨.directory, h.wellFormed.node?_of_append hrest hbelow⟩
        rw [← h.wellFormed.mem_namesIn_iff, h.empty] at hname
        cases hname

theorem isStore_of_isPlain (h : IsPlain fs root store) : IsStore fs root store :=
  ⟨h.wellFormed, h.noLinks, h.named⟩

/--
A prune of a store that puts have filled keeps each entry whose last use is within the
window, unless a scratch directory or a stale artifact stands above it.
-/
theorem prune_keeps_fresh_entry {filled : FileSystem} {before after : List EntryMeta}
    {m : EntryMeta} (hremove : RemovesOnly remove) (hempty : IsEmptyStore fs root store)
    (hkeys : ∀ other ∈ before ++ m :: after, (Path.ofString other.key).isAbsolute = false ∧
      .up ∉ (Path.ofString other.key).steps)
    (hputs : PutAll root (before ++ m :: after) fs filled)
    (hlast : ∀ other ∈ after, other.place ≠ m.place)
    (hfresh : window.expired m.lastUsed now = false)
    (habove : ∀ dir, dir <+: m.place → dir ≠ m.place →
      ¬ IsScratch filled store dir ∧ ¬ IsStale filled store now window dir) :
    let left :=
      ((prune (LocalStore.backendWith remove ⟨root, now⟩) ⟨window, false⟩).outcome filled).2
    left.node? (store ++ m.place) = some .directory ∧
      left.node? (store ++ m.place ++ [metadataName]) =
        filled.node? (store ++ m.place ++ [metadataName]) ∧
      ∃ id executable, left.node? (store ++ m.place ++ [metadataName]) =
        some (.file id m.write.toUTF8 executable) := by
  have hdown : ∀ other ∈ before ++ m :: after, (Path.ofString other.key).LeadsDown :=
    fun other hother => Path.leadsDown_ofString (hkeys other hother).1 (hkeys other hother).2
  have hholds := hputs.holds hempty.isPlain hdown hlast
  have hkept : IsKept filled root store now window m.place :=
    ⟨⟨m.kind, m.lastUsed.carried, hholds.isEntry, expired_carried_eq_false hfresh⟩,
      hholds.isTooLong_eq_false, habove⟩
  have hstays := hkept.stays hremove
    (isStore_of_isPlain (hputs.isPlain hempty.isPlain hdown))
  obtain ⟨id, executable, hfile⟩ := hholds.metadata
  exact ⟨hstays.1, hstays.2, id, executable, hstays.2.trans hfile⟩

namespace Sample

def emptyStore : FileSystem :=
  ⟨[(["store"], .directory)], 0, []⟩

theorem isEmptyStore : IsEmptyStore emptyStore ⟨["store"]⟩ ["store"] where
  wellFormed := by decide
  named := by decide
  node := rfl
  empty := rfl

def staleRecord : EntryMeta :=
  ⟨"r", .record, lastUse⟩

def freshArtifact : EntryMeta :=
  ⟨"r/b", .artifact, clock⟩

def filledStore : FileSystem :=
  ⟨[(["store"], .directory), (["store", "r"], .directory),
    (["store", "r", ".entry.json"], .file 0 staleRecord.write.toUTF8 false),
    (["store", "r", "b"], .directory),
    (["store", "r", "b", ".entry.json"], .file 1 freshArtifact.write.toUTF8 false)], 2, []⟩

theorem putAll_filledStore :
    PutAll ⟨["store"]⟩ [staleRecord, freshArtifact] emptyStore filledStore :=
  .cons rfl (.cons rfl (.nil _))

theorem above_freshArtifact (dir : Location) (hpre : dir <+: freshArtifact.place)
    (hne : dir ≠ freshArtifact.place) :
    ¬ IsScratch filledStore ["store"] dir ∧
      ¬ IsStale filledStore ["store"] clock .standard dir := by
  have hplace : freshArtifact.place = ["r", "b"] := by decide
  rw [hplace] at hpre hne
  have hrecord : IsEntry filledStore .record ["store", "r"] lastUse :=
    ⟨rfl, "r", metadataAt?_of_written_isRegular (by decide) (by rfl)⟩
  have howned : ¬ IsOwned filledStore ["store"] dir := by
    intro howned
    rcases howned.eq_single_or_pair with ⟨name, rfl⟩ | ⟨record, name, used, rfl, -⟩
    · obtain ⟨rfl, -⟩ := List.cons_prefix_cons.mp hpre
      exact howned.not_isRecord hrecord
    · exact hne (hpre.eq_of_length rfl)
  refine ⟨fun hscratch => howned (.inl hscratch), ?_⟩
  rintro ⟨used, hartifact, -⟩
  exact howned (.inr ⟨used, hartifact⟩)

end Sample

/-- A fresh artifact stays in a record that is stale. -/
theorem prune_keeps_fresh_entry_sample :
    (RemovesOnly removeTree ∧ IsEmptyStore Sample.emptyStore ⟨["store"]⟩ ["store"] ∧
      PutAll ⟨["store"]⟩ ([Sample.staleRecord] ++ Sample.freshArtifact :: []) Sample.emptyStore
        Sample.filledStore) ∧
    let left := ((prune (LocalStore.backendWith removeTree ⟨⟨["store"]⟩, Sample.clock⟩)
      ⟨.standard, false⟩).outcome Sample.filledStore).2
    left.node? (["store"] ++ Sample.freshArtifact.place) = some .directory ∧
      left.node? (["store"] ++ Sample.freshArtifact.place ++ [metadataName]) =
        Sample.filledStore.node? (["store"] ++ Sample.freshArtifact.place ++ [metadataName]) ∧
      ∃ id executable,
        left.node? (["store"] ++ Sample.freshArtifact.place ++ [metadataName]) =
          some (.file id Sample.freshArtifact.write.toUTF8 executable) := by
  have hkeys : ∀ other ∈ [Sample.staleRecord] ++ Sample.freshArtifact :: [],
      (Path.ofString other.key).isAbsolute = false ∧ .up ∉ (Path.ofString other.key).steps := by
    intro other hother
    simp only [List.singleton_append, List.mem_cons, List.not_mem_nil, or_false] at hother
    rcases hother with rfl | rfl <;> decide
  have hlast : ∀ other ∈ [], EntryMeta.place other ≠ Sample.freshArtifact.place := by simp
  have hfresh : RetentionWindow.standard.expired Sample.freshArtifact.lastUsed Sample.clock =
      false := by decide
  exact ⟨⟨removesOnly_removeTree, Sample.isEmptyStore, Sample.putAll_filledStore⟩,
    prune_keeps_fresh_entry removesOnly_removeTree Sample.isEmptyStore hkeys
      Sample.putAll_filledStore hlast hfresh Sample.above_freshArtifact⟩

/-- Fresh entries go with the scratch directory or the stale artifact that they were put into. -/
theorem prune_removes_fresh_entries :
    RetentionWindow.standard.expired Sample.clock Sample.clock = false ∧
    (∃ filled, PutAll ⟨["store"]⟩ [⟨"tmp/x", .artifact, Sample.clock⟩] Sample.emptyStore filled ∧
      ((prune (LocalStore.backend ⟨⟨["store"]⟩, Sample.clock⟩) ⟨.standard, false⟩).outcome
        filled).2.node? ["store", "tmp", "x"] = none) ∧
    ∃ filled, PutAll ⟨["store"]⟩
        [⟨"a", .artifact, Sample.lastUse⟩, ⟨"a/b", .artifact, Sample.clock⟩]
        Sample.emptyStore filled ∧
      ((prune (LocalStore.backend ⟨⟨["store"]⟩, Sample.clock⟩) ⟨.standard, false⟩).outcome
        filled).2.node? ["store", "a", "b"] = none := by
  refine ⟨by decide, ⟨_, .cons rfl (.nil _), ?_⟩, _, .cons rfl (.cons rfl (.nil _)), ?_⟩
  · decide +kernel
  · decide +kernel

end CacheUpkeep.Store
