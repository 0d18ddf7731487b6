import CacheUpkeep.Proofs.Store.DryRun
import CacheUpkeep.Proofs.Store.Reselection
import CacheUpkeep.Proofs.Store.Retention

/-!
# Pruning twice

A prune by a policy under which no less expires makes up for one before it: both
together remove what the second one alone does, each place once.  A second prune by
the same policy removes nothing.
-/

namespace CacheUpkeep.Store

open CacheUpkeep.Calendar CacheUpkeep.FileSystem CacheUpkeep.Prune

/-- Two prunes end in the files that the second one alone ends in, with its removals. -/
structure IsAbsorbed (fs : FileSystem) (root : Path) (now₁ : Instant) (window₁ : RetentionWindow)
    (now₂ : Instant) (window₂ : RetentionWindow) (first second once : Report)
    (mid last : FileSystem) : Prop where
  first_outcome : (prune (LocalStore.backend ⟨root, now₁⟩) ⟨window₁, false⟩).outcome fs =
    (.ok first, mid)
  second_outcome : (prune (LocalStore.backend ⟨root, now₂⟩) ⟨window₂, false⟩).outcome mid =
    (.ok second, last)
  once_outcome : (prune (LocalStore.backend ⟨root, now₂⟩) ⟨window₂, false⟩).outcome fs =
    (.ok once, last)
  removed_perm : (first.removed ++ second.removed).Perm once.removed
  removed_nodup : once.removed.Nodup
  bytes_add : first.bytes + second.bytes = once.bytes
  again : now₁ = now₂ → window₁ = window₂ → second.removed = [] ∧ last = mid

variable {fs : FileSystem} {root : Path} {store place : Location} {layout rest : Layout}
  {now₁ now₂ : Instant} {window₁ window₂ : RetentionWindow}

section Monotone

variable (hs : IsStore fs root store) (hscan : scan fs root = .ok layout)
  (hexpires : ∀ place lastUsed, IsDated fs store place lastUsed →
    window₁.expired lastUsed now₁ = true → window₂.expired lastUsed now₂ = true)

include hs hscan hexpires

theorem selectedPlaces_mono (hplace : place ∈ layout.selectedPlaces now₁ window₁) :
    place ∈ layout.selectedPlaces now₂ window₂ := by
  rw [mem_selectedPlaces] at hplace ⊢
  rcases hplace with hscratch | hstale | horphaned
  · exact .inl hscratch
  · obtain ⟨⟨used, hartifact, hexpired⟩, hlong⟩ := (mem_stalePlaces_iff hs hscan).mp hstale
    exact .inr (.inl ((mem_stalePlaces_iff hs hscan).mpr
      ⟨⟨used, hartifact, hexpires place used (.artifact hartifact) hexpired⟩, hlong⟩))
  · obtain ⟨record, -, rfl, -⟩ := exists_record_of_mem_orphanedPlaces hs hscan horphaned
    obtain ⟨hvisible, used, hentry, hexpired, hbare, hartifacts⟩ :=
      (single_mem_orphanedPlaces_iff hs hscan).mp horphaned
    refine .inr (.inr ((single_mem_orphanedPlaces_iff hs hscan).mpr
      ⟨hvisible, used, hentry, hexpires _ used (.record hentry) hexpired, hbare,
        fun name partUsed hseen hpart => ?_⟩))
    exact hexpires _ partUsed (.artifact (.inRecord hentry hpart))
      (hartifacts name partUsed hseen hpart)

omit hexpires in
theorem not_isCovered_of_notMem (hplace : place ∈ layout.selectedPlaces now₂ window₂)
    (hnot : place ∉ layout.selectedPlaces now₁ window₁) :
    ¬ IsCovered (layout.selectedPlaces now₁ window₁) place := by
  have hnil : [] ∉ layout.selectedPlaces now₁ window₁ := nil_notMem_selectedPlaces hs hscan
  have hlong := (isVisible_of_mem_selectedPlaces hs hscan hplace).2.2
  rcases mem_selectedPlaces.mp hplace with hscratch | hstale | horphaned
  · exact absurd (mem_selectedPlaces.mpr (.inl hscratch)) hnot
  · obtain ⟨⟨used, hartifact, -⟩, -⟩ := (mem_stalePlaces_iff hs hscan).mp hstale
    cases hartifact with
    | inStore hentry => rwa [isCovered_single_iff hnil]
    | inRecord hentry hpart =>
        intro hcovered
        have hstale₁ := part_mem_stalePlaces hs hscan hentry hpart ⟨hpart.1, hlong⟩ hcovered
        exact hnot (mem_selectedPlaces.mpr (.inr (.inl hstale₁)))
  · obtain ⟨record, -, rfl, -⟩ := exists_record_of_mem_orphanedPlaces hs hscan horphaned
    rwa [isCovered_single_iff hnil]

end Monotone

/-! ## What the second prune finds -/

theorem not_isStranded_withoutPlaces (hs : IsStore fs root store)
    (hscan : scan fs root = .ok layout) :
    ¬ IsStranded fs (withoutPlaces fs store (layout.selectedPlaces now₁ window₁)) root store
      place := by
  rintro ⟨⟨used, hdated⟩, -, hbare, -⟩
  obtain ⟨kind, hentry⟩ := hdated.exists_isEntry
  have hself : IsRemainder fs store (layout.selectedPlaces now₁ window₁)
      (withoutPlaces fs store (layout.selectedPlaces now₁ window₁)) :=
    isRemainder_withoutPlaces fs store fun _ => id
  exact not_isCovered_of_node? hdated.ne_nil hbare.1 (hself.isCovered_of_isBare
    (fun _ hmem => (isVisible_of_mem_selectedPlaces hs hscan hmem).2.1) hentry hbare)

theorem mem_second_iff (hs : IsStore fs root store) (hscan : scan fs root = .ok layout)
    (hsmall : IsStore (withoutPlaces fs store (layout.selectedPlaces now₁ window₁)) root store)
    (hrest : scan (withoutPlaces fs store (layout.selectedPlaces now₁ window₁)) root = .ok rest)
    (hmono : ∀ place ∈ layout.selectedPlaces now₁ window₁,
      place ∈ layout.selectedPlaces now₂ window₂) :
    place ∈ rest.selectedPlaces now₂ window₂ ↔
      place ∈ layout.selectedPlaces now₂ window₂ ∧
        place ∉ layout.selectedPlaces now₁ window₁ := by
  have h := isRemainder_withoutPlaces fs store hmono
  have hself : IsRemainder fs store (layout.selectedPlaces now₁ window₁)
      (withoutPlaces fs store (layout.selectedPlaces now₁ window₁)) :=
    isRemainder_withoutPlaces fs store fun _ => id
  have hfresh : ∀ {dir}, dir ≠ [] → (withoutPlaces fs store
      (layout.selectedPlaces now₁ window₁)).node? (store ++ dir) = some .directory →
      dir ∉ layout.selectedPlaces now₁ window₁ := fun hnil hdir hmem =>
    not_isCovered_of_node? hnil hdir ⟨_, hmem, List.prefix_rfl⟩
  constructor
  · intro hplace
    obtain ⟨hnil, hdir, -⟩ := isVisible_of_mem_selectedPlaces hsmall hrest hplace
    exact ⟨mem_selectedPlaces_of_remainder hs hscan h hsmall hrest hplace, hfresh hnil hdir⟩
  · rintro ⟨hplace, hnot⟩
    have hstays := not_isCovered_of_notMem hs hscan hplace hnot
    have hdir := (node?_withoutPlaces hstays).trans
      (isVisible_of_mem_selectedPlaces hs hscan hplace).2.1
    rcases below_scratch_or_mem_selectedPlaces hs hscan h hsmall hrest
      (fun _ => not_isStranded_withoutPlaces hs hscan) hplace hdir with ⟨dir, hscratch, -⟩ | hagain
    · obtain ⟨hnil, hdir, -⟩ := isVisible_of_mem_scratchPlaces hsmall hrest hscratch
      exact absurd (scratch_mem_selectedPlaces hs hscan hself hsmall hrest hscratch)
        (hfresh hnil hdir)
    · exact hagain

/-- The second prune takes what the first one has left of what it would have taken alone. -/
theorem selectedPlaces_perm (hs : IsStore fs root store) (hscan : scan fs root = .ok layout)
    (hsmall : IsStore (withoutPlaces fs store (layout.selectedPlaces now₁ window₁)) root store)
    (hrest : scan (withoutPlaces fs store (layout.selectedPlaces now₁ window₁)) root = .ok rest)
    (hmono : ∀ place ∈ layout.selectedPlaces now₁ window₁,
      place ∈ layout.selectedPlaces now₂ window₂) :
    (layout.selectedPlaces now₁ window₁ ++ rest.selectedPlaces now₂ window₂).Perm
      (layout.selectedPlaces now₂ window₂) := by
  have hmem : ∀ place, place ∈ rest.selectedPlaces now₂ window₂ ↔
      place ∈ layout.selectedPlaces now₂ window₂ ∧
        place ∉ layout.selectedPlaces now₁ window₁ :=
    fun _ => mem_second_iff hs hscan hsmall hrest hmono
  refine (List.perm_ext_iff_of_nodup ?_ (selectedPlaces_nodup hs hscan)).mpr fun place => ?_
  · refine List.nodup_append.mpr ⟨selectedPlaces_nodup hs hscan,
      selectedPlaces_nodup hsmall hrest, ?_⟩
    rintro a ha b hb rfl
    exact ((hmem a).mp hb).2 ha
  · rw [List.mem_append, hmem]
    constructor
    · rintro (hplace | ⟨hplace, -⟩)
      · exact hmono place hplace
      · exact hplace
    · intro hplace
      by_cases hfirst : place ∈ layout.selectedPlaces now₁ window₁
      · exact .inl hfirst
      · exact .inr ⟨hplace, hfirst⟩

/-- Pruning by one policy and then by another under which no less expires. -/
theorem prune_absorbs (hs : IsStore fs root store) (hscan : scan fs root = .ok layout)
    (hexpires : ∀ place lastUsed, IsDated fs store place lastUsed →
      window₁.expired lastUsed now₁ = true → window₂.expired lastUsed now₂ = true)
    (hnames : NamesWithout fs root store (· ∈ layout.selectedPlaces now₂ window₂)) :
    ∃ first second once mid last,
      IsAbsorbed fs root now₁ window₁ now₂ window₂ first second once mid last := by
  have hmono : ∀ place ∈ layout.selectedPlaces now₁ window₁,
      place ∈ layout.selectedPlaces now₂ window₂ := fun _ => selectedPlaces_mono hs hscan hexpires
  have hnames₁ : NamesWithout fs root store (· ∈ layout.selectedPlaces now₁ window₁) :=
    hnames.mono hmono
  have h := isRemainder_withoutPlaces fs store hmono
  have hsmall := h.isStore hs hnames
  obtain ⟨rest, hrest⟩ := h.exists_scan hs hscan
  have hperm := selectedPlaces_perm hs hscan hsmall hrest hmono
  have hnames₂ : NamesWithout (withoutPlaces fs store (layout.selectedPlaces now₁ window₁)) root
      store (· ∈ rest.selectedPlaces now₂ window₂) :=
    h.namesWithout hnames fun place hplace => hperm.subset (List.mem_append_right _ hplace)
  -- The first prune leaves no entry without its metadata, so nothing escapes the second one.
  have hsame := withoutPlaces_eq_of_not_isStranded hs hscan h hsmall hrest
    fun _ => not_isStranded_withoutPlaces hs hscan
  have hsecond := prune_real hsmall hrest hnames₂
  rw [hsame] at hsecond
  refine ⟨_, _, _, _, _, ⟨prune_real hs hscan hnames₁, hsecond, prune_real hs hscan hnames, ?_,
    predictedReport_removed_nodup hs hscan false, ?_, ?_⟩⟩
  · rw [predictedReport_removed hs hscan, predictedReport_removed hsmall hrest,
      predictedReport_removed hs hscan, ← List.map_append]
    exact hperm.map idAt
  · have hbytes₁ := predictedReport_bytes hs hscan hnames₁ false
    have hbytes₂ := predictedReport_bytes hsmall hrest hnames₂ false
    have hbytes := predictedReport_bytes hs hscan hnames false
    rw [hsame] at hbytes₂
    omega
  · rintro rfl rfl
    have hnil : rest.selectedPlaces now₁ window₁ = [] := by
      have hlength := hperm.length_eq
      rw [List.length_append] at hlength
      exact List.eq_nil_of_length_eq_zero (by omega)
    exact ⟨by rw [predictedReport_removed hsmall hrest, hnil, List.map_nil], rfl⟩

/-! ## Shorter windows -/

theorem expired_of_totalSeconds_le {lastUsed now : Instant}
    (hle : window₂.totalSeconds ≤ window₁.totalSeconds)
    (hexpired : window₁.expired lastUsed now = true) : window₂.expired lastUsed now = true := by
  simp only [RetentionWindow.expired, decide_eq_true_eq] at hexpired ⊢
  have hnanos := Nat.mul_le_mul_right nanosPerSecond hle
  omega

namespace Sample

def recentUse : Instant :=
  { clock with date := ⟨2024, 5, 10, by decide⟩ }

def month : RetentionWindow :=
  ⟨4, .weeks, by decide⟩

def agedFiles : FileSystem :=
  ⟨[(["store"], .directory), (["store", "a"], .directory),
    (["store", "a", ".entry.json"],
      .file 0 (EntryMeta.write ⟨"a", .artifact, recentUse⟩).toUTF8 false),
    (["store", "r"], .directory),
    (["store", "r", ".entry.json"], .file 1 staleRecord.write.toUTF8 false)], 2, []⟩

def throughRecord : Path :=
  ⟨["store", "r", ".."]⟩

theorem wellFormed_agedFiles : agedFiles.WellFormed := by
  decide

theorem noLinks_agedFiles (dir : Location) : HasNoLinks agedFiles dir :=
  hasNoLinks_of_entries wellFormed_agedFiles (by simp [agedFiles]) dir

theorem isStore_agedFiles : IsStore agedFiles ⟨["store"]⟩ ["store"] :=
  ⟨wellFormed_agedFiles, noLinks_agedFiles _, by decide⟩

theorem isStore_throughRecord : IsStore agedFiles throughRecord ["store"] :=
  ⟨wellFormed_agedFiles, noLinks_agedFiles _, by decide⟩

def agedLayout (root : Path) : Layout :=
  ⟨[.artifact ⟨"a", root.child "a", recentUse⟩, .record ⟨"r", root.child "r", lastUse, []⟩]⟩

theorem scan_agedFiles {root : Path} (hs : IsStore agedFiles root ["store"])
    (hdirs : ((agedFiles.namesIn ["store"]).filter fun name =>
      agedFiles.isDirectory (root.child name)) = ["a", "r"])
    (hartifact : (scanEntry agedFiles root "a").toOption =
      some (.artifact ⟨"a", root.child "a", recentUse⟩))
    (hrecord : (scanEntry agedFiles root "r").toOption =
      some (.record ⟨"r", root.child "r", lastUse, []⟩)) :
    scan agedFiles root = .ok (agedLayout root) :=
  scan_of_sorted hs.named hdirs (by decide)
    (.cons (eq_ok_of_toOption hartifact) (.cons (eq_ok_of_toOption hrecord) .nil))

theorem scan_store : scan agedFiles ⟨["store"]⟩ = .ok (agedLayout ⟨["store"]⟩) :=
  scan_agedFiles isStore_agedFiles (by decide +kernel) (by decide +kernel) (by decide +kernel)

theorem scan_throughRecord : scan agedFiles throughRecord = .ok (agedLayout throughRecord) :=
  scan_agedFiles isStore_throughRecord (by decide +kernel) (by decide +kernel) (by decide +kernel)

theorem expires_month (place : Location) (lastUsed : Instant)
    (_ : IsDated agedFiles ["store"] place lastUsed)
    (h : month.expired lastUsed clock = true) :
    RetentionWindow.standard.expired lastUsed clock = true :=
  expired_of_totalSeconds_le (by decide) h

theorem step_of_single {fs : FileSystem} {root : Path} {layout : Layout} {name : String}
    {select : FileSystem → Layout → List Candidate} (hs : IsStore fs root ["store"])
    (hscan : scan fs root = .ok layout)
    (hselect : select fs layout = [candidateAt fs root [name]])
    (hvisible : IsVisible fs root ["store"] [name]) :
    (selectAndRemove removeTree root false select).outcome fs =
      (.ok (outcomeOf [candidateAt fs root [name]]), withoutPlaces fs ["store"] [[name]]) := by
  rw [selectAndRemove_eq hscan, hselect]
  exact removeEach_single hs (by simp) hvisible

theorem step_of_nil {fs : FileSystem} {root : Path} {layout : Layout}
    {select : FileSystem → Layout → List Candidate} (hscan : scan fs root = .ok layout)
    (hselect : select fs layout = []) :
    (selectAndRemove removeTree root false select).outcome fs = (.ok Outcome.none, fs) := by
  rw [selectAndRemove_eq hscan, hselect]
  rfl

theorem prune_month : ∃ report,
    (prune (LocalStore.backend ⟨throughRecord, clock⟩) ⟨month, false⟩).outcome agedFiles =
      (.ok report, withoutPlaces agedFiles ["store"] [["r"]]) :=
  ⟨_, prune_of_steps (step_of_nil scan_throughRecord rfl)
    (step_of_nil scan_throughRecord (by decide +kernel))
    (step_of_single isStore_throughRecord scan_throughRecord (by decide +kernel)
      ⟨rfl, by decide⟩)⟩

theorem prune_standard : ∃ report,
    (prune (LocalStore.backend ⟨throughRecord, clock⟩) ⟨.standard, false⟩).outcome agedFiles =
      (.ok report,
        withoutPlaces (withoutPlaces agedFiles ["store"] [["a"]]) ["store"] [["r"]]) := by
  have hroot : (withoutPlaces agedFiles ["store"] [["a"]]).directoryAt? throughRecord =
      some ["store"] := by
    decide
  have hscan := scan_withoutPlaces isStore_throughRecord scan_throughRecord (by simp; rfl) hroot
  exact ⟨_, prune_of_steps (step_of_nil scan_throughRecord rfl)
    (step_of_single isStore_throughRecord scan_throughRecord (by decide +kernel)
      ⟨rfl, by decide⟩)
    (step_of_single (isStore_throughRecord.withoutPlaces hroot) hscan (by decide +kernel)
      ⟨rfl, by decide⟩)⟩

end Sample

theorem prune_absorbs_sample :
    (IsStore Sample.agedFiles ⟨["store"]⟩ ["store"] ∧
      scan Sample.agedFiles ⟨["store"]⟩ = .ok (Sample.agedLayout ⟨["store"]⟩) ∧
      (∀ place lastUsed, IsDated Sample.agedFiles ["store"] place lastUsed →
        Sample.month.expired lastUsed Sample.clock = true →
        RetentionWindow.standard.expired lastUsed Sample.clock = true) ∧
      NamesWithout Sample.agedFiles ⟨["store"]⟩ ["store"]
        (· ∈ (Sample.agedLayout ⟨["store"]⟩).selectedPlaces Sample.clock .standard)) ∧
    ∃ first second once mid last,
      IsAbsorbed Sample.agedFiles ⟨["store"]⟩ Sample.clock Sample.month Sample.clock .standard
        first second once mid last := by
  have hs := Sample.isStore_agedFiles
  have hnames : NamesWithout Sample.agedFiles ⟨["store"]⟩ ["store"]
      (· ∈ (Sample.agedLayout ⟨["store"]⟩).selectedPlaces Sample.clock .standard) :=
    namesWithout_of_descend (Sample.noLinks_agedFiles []) hs.named (by decide)
      fun _ hplace => (isVisible_of_mem_selectedPlaces hs Sample.scan_store hplace).1
  exact ⟨⟨hs, Sample.scan_store, Sample.expires_month, hnames⟩,
    prune_absorbs hs Sample.scan_store Sample.expires_month hnames⟩

/-- The first prune takes away the path by which the second one would find the store. -/
theorem prune_not_absorbed_through_record :
    (IsStore Sample.agedFiles Sample.throughRecord ["store"] ∧
      (∃ layout, scan Sample.agedFiles Sample.throughRecord = .ok layout) ∧
      ∀ place lastUsed, IsDated Sample.agedFiles ["store"] place lastUsed →
        Sample.month.expired lastUsed Sample.clock = true →
        RetentionWindow.standard.expired lastUsed Sample.clock = true) ∧
    ¬ ∃ first second once mid last,
      IsAbsorbed Sample.agedFiles Sample.throughRecord Sample.clock Sample.month Sample.clock
        .standard first second once mid last := by
  refine ⟨⟨Sample.isStore_throughRecord, ⟨_, Sample.scan_throughRecord⟩, Sample.expires_month⟩, ?_⟩
  rintro ⟨first, second, once, mid, last, habsorbed⟩
  obtain ⟨monthly, hfirst⟩ := Sample.prune_month
  obtain ⟨standard, honce⟩ := Sample.prune_standard
  have hmissing : (withoutPlaces Sample.agedFiles ["store"] [["r"]]).isDirectory
      Sample.throughRecord = false := by
    decide
  have hsecond := habsorbed.second_outcome
  have hfirst' := habsorbed.first_outcome
  have honce' := habsorbed.once_outcome
  rw [hfirst] at hfirst'
  cases hfirst'
  rw [prune_missing hmissing] at hsecond
  cases hsecond
  rw [honce] at honce'
  have hsame : (withoutPlaces (withoutPlaces Sample.agedFiles ["store"] [["a"]]) ["store"]
      [["r"]]).node? ["store", "a"] =
        (withoutPlaces Sample.agedFiles ["store"] [["r"]]).node? ["store", "a"] :=
    congrArg (fun result => result.2.node? ["store", "a"]) honce'
  exact absurd hsame (by decide)

end CacheUpkeep.Store
