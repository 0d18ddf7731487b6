import CacheUpkeep.Proofs.Store.Pieces
import CacheUpkeep.Proofs.Store.Resumption

/-!
# What several prunes may remove

Prunes of one store at several times and with several windows remove scratch directories
and entries that are expired at one of the times.  What one of them selects when others
have removed parts of the store is such a directory as well, or stands in one: an entry
that has lost its metadata has lost it to a removal of the entry.
-/

namespace CacheUpkeep.Store

open CacheUpkeep.Calendar CacheUpkeep.FileSystem CacheUpkeep.Prune

variable {fs left : FileSystem} {root : Path} {store place : Location} {layout : Layout}
  {prunes : Instant → RetentionWindow → Prop} {now : Instant} {window : RetentionWindow}
  {remove : Remover} {select : FileSystem → Layout → List Candidate}

/-- A directory that one of the prunes may remove. -/
def IsExpendable (fs : FileSystem) (store : Location) (prunes : Instant → RetentionWindow → Prop)
    (place : Location) : Prop :=
  ∃ now window, prunes now window ∧ (IsScratch fs store place ∨
    ∃ lastUsed, IsDated fs store place lastUsed ∧ window.expired lastUsed now = true)

/-- Of what stands in `fs`, only parts of expendable directories are gone. -/
def IsWorn (fs : FileSystem) (store : Location) (prunes : Instant → RetentionWindow → Prop)
    (left : FileSystem) : Prop :=
  ∃ places : List Location, (∀ place ∈ places, IsExpendable fs store prunes place) ∧
    IsRemainder fs store places left

namespace IsExpendable

theorem node? (h : IsExpendable fs store prunes place) :
    fs.node? (store ++ place) = some .directory := by
  obtain ⟨now, window, -, hscratch | ⟨used, hdated, -⟩⟩ := h
  · exact hscratch.node?
  · obtain ⟨kind, hentry⟩ := hdated.exists_isEntry
    exact hentry.1

theorem ne_nil (h : IsExpendable fs store prunes place) : place ≠ [] := by
  obtain ⟨now, window, -, hscratch | ⟨used, hdated, -⟩⟩ := h
  · exact hscratch.ne_nil
  · exact hdated.ne_nil

theorem not_metadata (hnil : place ≠ []) :
    ¬ IsExpendable fs store prunes (place ++ [metadataName]) := by
  have hsingle : ∀ {name}, place ++ [metadataName] ≠ [name] := by
    intro name heq
    have hlength := congrArg List.length heq
    simp only [List.length_append, List.length_singleton] at hlength
    exact hnil (List.length_eq_zero_iff.mp (by omega))
  have hpair : ∀ {record name}, place ++ [metadataName] = [record, name] →
      place = [record] ∧ name = metadataName := by
    intro record name heq
    obtain ⟨hplace, hname⟩ := List.append_inj' (show _ = [record] ++ [name] from heq) rfl
    exact ⟨hplace, (List.singleton_inj.mp hname).symm⟩
  rintro ⟨now, window, -, hscratch | ⟨used, hdated, -⟩⟩
  · generalize hplace : place ++ [metadataName] = dir at hscratch
    cases hscratch with
    | inStore bare => exact hsingle hplace
    | inRecord entry scratch bare =>
        obtain ⟨-, rfl⟩ := hpair hplace
        revert scratch
        decide
  · generalize hplace : place ++ [metadataName] = dir at hdated
    cases hdated with
    | record entry => exact hsingle hplace
    | artifact hartifact =>
        cases hartifact with
        | inStore entry => exact hsingle hplace
        | @inRecord record name recordUsed _ entry part =>
            -- The record keeps its own metadata in a file of that name.
            obtain ⟨rfl, rfl⟩ := hpair hplace
            obtain ⟨-, key, hmeta⟩ := entry
            rw [metadataAt?, show store ++ [record] ++ [metadataName] =
              store ++ [record, metadataName] by simp, part.1] at hmeta
            cases hmeta

theorem of_isEntry {small : FileSystem} (h : IsExpendable fs store prunes place)
    (hentry : ∀ {kind dir lastUsed}, IsEntry fs kind dir lastUsed → IsEntry small kind dir lastUsed)
    (hbare : ∀ {dir}, IsBare fs dir → IsBare small dir) :
    IsExpendable small store prunes place := by
  obtain ⟨now, window, hprunes, hscratch | ⟨used, hdated, hexpired⟩⟩ := h
  · refine ⟨now, window, hprunes, .inl ?_⟩
    cases hscratch with
    | inStore bare => exact .inStore (hbare bare)
    | inRecord entry scratch bare => exact .inRecord (hentry entry) scratch (hbare bare)
  · refine ⟨now, window, hprunes, .inr ⟨used, ?_, hexpired⟩⟩
    cases hdated with
    | record entry => exact .record (hentry entry)
    | artifact hartifact =>
        cases hartifact with
        | inStore entry => exact .artifact (.inStore (hentry entry))
        | inRecord entry part => exact .artifact (.inRecord (hentry entry) (hentry part))

end IsExpendable

namespace IsWorn

theorem refl (fs : FileSystem) (store : Location) (prunes : Instant → RetentionWindow → Prop) :
    IsWorn fs store prunes fs :=
  ⟨[], by simp, isRemainder_self fs store []⟩

theorem extends_left (h : IsWorn fs store prunes left) : fs.Extends left := by
  obtain ⟨places, -, hleft⟩ := h
  exact hleft.extends_left

theorem isStore (h : IsWorn fs store prunes left) (hs : IsStore fs root store)
    (hnames : NamesWithout fs root store (IsExpendable fs store prunes)) :
    IsStore left root store := by
  obtain ⟨places, hplaces, hleft⟩ := h
  exact hleft.isStore hs (hnames.mono hplaces)

theorem node?_eq (h : IsWorn fs store prunes left)
    (hplace : ∀ dir, dir <+: place → ¬ IsExpendable fs store prunes dir) :
    left.node? (store ++ place) = fs.node? (store ++ place) := by
  obtain ⟨places, hplaces, hleft⟩ := h
  refine hleft.node?_eq ?_
  rintro ⟨dir, hdir, hpre⟩
  exact hplace dir hpre (hplaces dir hdir)

theorem isBare_or_below (h : IsWorn fs store prunes left) (hnil : place ≠ [])
    (hbare : IsBare left (store ++ place)) :
    IsBare fs (store ++ place) ∨ ∃ dir, dir <+: place ∧ IsExpendable fs store prunes dir := by
  by_cases hcovered : ∃ dir, dir <+: place ∧ IsExpendable fs store prunes dir
  · exact .inr hcovered
  · refine .inl ⟨h.extends_left.node? hbare.1, ?_⟩
    rw [List.append_assoc, ← h.node?_eq, ← List.append_assoc]
    · exact hbare.2
    · intro dir hpre hdir
      rcases List.prefix_concat_iff.mp hpre with rfl | habove
      · exact IsExpendable.not_metadata hnil hdir
      · exact hcovered ⟨dir, habove, hdir⟩

theorem exists_expendable (h : IsWorn fs store prunes left) (hsmall : IsStore left root store)
    (hscan : scan left root = .ok layout) (hprunes : prunes now window)
    (hplace : place ∈ layout.selectedPlaces now window) :
    ∃ dir, dir <+: place ∧ IsExpendable fs store prunes dir := by
  have hself : IsExpendable fs store prunes place →
      ∃ dir, dir <+: place ∧ IsExpendable fs store prunes dir := fun hplace =>
    ⟨place, List.prefix_rfl, hplace⟩
  have hextends := h.extends_left
  rcases mem_selectedPlaces.mp hplace with hmem | hmem | hmem
  · obtain ⟨hscratch, -⟩ := (mem_scratchPlaces_iff hsmall hscan).mp hmem
    cases hscratch with
    | inStore bare =>
        rcases h.isBare_or_below (by simp) bare with hbare | hbelow
        · exact hself ⟨now, window, hprunes, .inl (.inStore hbare)⟩
        · exact hbelow
    | inRecord entry scratch bare =>
        rcases h.isBare_or_below (by simp) bare with hbare | hbelow
        · exact hself ⟨now, window, hprunes,
            .inl (.inRecord (entry.of_extends hextends) scratch hbare)⟩
        · exact hbelow
  · obtain ⟨⟨used, hartifact, hexpired⟩, -⟩ := (mem_stalePlaces_iff hsmall hscan).mp hmem
    exact hself ⟨now, window, hprunes,
      .inr ⟨used, .artifact (hartifact.of_extends hextends), hexpired⟩⟩
  · obtain ⟨record, -, rfl, -⟩ := exists_record_of_mem_orphanedPlaces hsmall hscan hmem
    obtain ⟨-, used, hentry, hexpired, -⟩ := (single_mem_orphanedPlaces_iff hsmall hscan).mp hmem
    exact hself ⟨now, window, hprunes, .inr ⟨used, .record (hentry.of_extends hextends), hexpired⟩⟩

theorem removed (h : IsWorn fs store prunes left) (hremove : RemovesStepwise remove)
    (hs : IsStore fs root store) (hnil : place ≠ []) (hvisible : IsVisible fs root store place)
    (hbelow : ∃ dir, dir <+: place ∧ IsExpendable fs store prunes dir) :
    IsWorn fs store prunes ((remove (pathAt root place)).outcome left).2 := by
  obtain ⟨places, hplaces, hleft⟩ := h
  obtain ⟨dir, hpre, hdir⟩ := hbelow
  have hmore : IsRemainder fs store (place :: places) left :=
    hleft.mono fun other hother => ⟨other, List.mem_cons_of_mem _ hother, List.prefix_rfl⟩
  have hlocation : ∀ path ∈ [pathAt root place], ∃ place' ∈ place :: places, ∀ {location node},
      fs.linkStat path = .ok (location, node) → location = store ++ place' := by
    intro path hpath
    obtain rfl := List.mem_singleton.mp hpath
    refine ⟨place, List.mem_cons_self, fun {location node} hstat => ?_⟩
    rw [linkStat, hs.find_pathAt false hnil hvisible] at hstat
    cases hstat
    rfl
  have hremoved : ∃ failure, Removes remove [pathAt root place] left failure
      ((remove (pathAt root place)).outcome left).2 := by
    cases hend : (remove (pathAt root place)).outcome left with
    | mk result last =>
        cases result with
        | ok value => exact ⟨_, .next hend (.done last)⟩
        | error e => exact ⟨_, .fails hend⟩
  obtain ⟨failure, hremoves⟩ := hremoved
  have hlast := hremoves.isRemainder hremove hs.wellFormed hmore hlocation
  refine ⟨dir :: places, fun other hother => ?_, hlast.mono fun other hother => ?_⟩
  · rcases List.mem_cons.mp hother with rfl | hother
    · exact hdir
    · exact hplaces other hother
  · rcases List.mem_cons.mp hother with rfl | hother
    · exact ⟨dir, List.mem_cons_self, hpre⟩
    · exact ⟨other, List.mem_cons_of_mem _ hother, List.prefix_rfl⟩

end IsWorn

/-! ## The pieces of a prune -/

section Pieces

variable (hremove : RemovesStepwise remove) (hs : IsStore fs root store)
  (hnames : NamesWithout fs root store (IsExpendable fs store prunes))

include hremove hs

theorem keeps_removePieces (dryRun : Bool) {candidates : List Candidate}
    (hcandidates : dryRun = false → ∀ c ∈ candidates, ∃ place, c.path = pathAt root place ∧
      place ≠ [] ∧ IsVisible fs root store place ∧
      ∃ dir, dir <+: place ∧ IsExpendable fs store prunes dir) :
    (removePieces remove dryRun candidates).Keeps (IsWorn fs store prunes) := by
  induction candidates with
  | nil => trivial
  | cons c rest ih =>
      have hfirst : (removePiece remove dryRun c).Keeps (IsWorn fs store prunes) := by
        cases dryRun with
        | true => trivial
        | false =>
            obtain ⟨place, hpath, hnil, hvisible, hbelow⟩ := hcandidates rfl c List.mem_cons_self
            refine Pieces.keeps_single fun s hworn => ?_
            rw [Action.outcome_mapError_snd, hpath]
            exact hworn.removed hremove hs hnil hvisible hbelow
      refine hfirst.andThen fun _ => ?_
      exact (ih fun hreal c hc => hcandidates hreal c (List.mem_cons_of_mem _ hc)).andThen
        fun _ => trivial

include hnames

theorem keeps_stepPieces (dryRun : Bool) (hprunes : dryRun = false → prunes now window)
    (hselect : ∀ mid, IsSelection mid now window mid select) :
    (stepPieces remove root dryRun select).Keeps (IsWorn fs store prunes) := by
  refine Pieces.keeps_reading fun mid candidates hworn hread => ?_
  have hmid := hworn.isStore hs hnames
  obtain ⟨layout, hscan, rfl⟩ : ∃ layout, scan mid root = .ok layout ∧ select mid layout =
      candidates := by
    cases hscan : scan mid root with
    | error e =>
        rw [hscan] at hread
        cases hread
    | ok layout =>
        rw [hscan] at hread
        cases hread
        exact ⟨layout, rfl, rfl⟩
  refine keeps_removePieces hremove hs dryRun fun hreal c hc => ?_
  obtain ⟨place, hplace, hpath⟩ :=
    (hselect mid).path_of_mem hmid hscan (List.mem_map.mpr ⟨c, hc, rfl⟩)
  obtain ⟨hnil, hvisible⟩ := isVisible_of_mem_selectedPlaces hmid hscan hplace
  exact ⟨place, hpath, hnil, isVisible_of_extends hworn.extends_left hvisible,
    hworn.exists_expendable hmid hscan (hprunes hreal) hplace⟩

/-- Whatever others have removed before, a prune removes only what is expendable. -/
theorem keeps_prunePieces (policy : Policy)
    (hprunes : policy.dryRun = false → prunes now policy.window) :
    (prunePieces remove root now policy).Keeps (IsWorn fs store prunes) := by
  unfold prunePieces
  refine (keeps_stepPieces hremove hs hnames _ hprunes fun _ => .transient).andThen fun _ => ?_
  refine (keeps_stepPieces hremove hs hnames _ hprunes fun _ => .stale _).andThen fun _ => ?_
  exact (keeps_stepPieces hremove hs hnames _ hprunes fun _ => .orphaned _).andThen fun _ => trivial

end Pieces

end CacheUpkeep.Store
