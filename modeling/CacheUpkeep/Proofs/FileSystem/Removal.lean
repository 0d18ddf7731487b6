import CacheUpkeep.FileSystem.Survey
import Mathlib.Data.List.Basic
import Mathlib.Data.List.Induction

/-!
# Removing directories

`withoutAll` takes away several locations with all below them.  What it leaves
is the part of the file system that lies below none of them: look-up, listing
and well-formedness follow from that, and so does how many octets are gone.
-/

namespace CacheUpkeep.FileSystem

def withoutAll (fs : FileSystem) (dirs : List Location) : FileSystem :=
  { fs with entries := fs.entries.filter fun e => !dirs.any fun dir => isWithin dir e.1 }

def IsCovered (dirs : List Location) (location : Location) : Prop :=
  ∃ dir ∈ dirs, dir <+: location

/-- Every node of `small` stands in `big` as well, and both are seen from one directory. -/
structure Extends (big small : FileSystem) : Prop where
  here_eq : small.here = big.here
  node? : ∀ {location node}, small.node? location = some node →
    big.node? location = some node

/-! ## Look-up -/

@[simp] theorem isWithin_iff {dir location : Location} :
    isWithin dir location = true ↔ dir <+: location := by
  simp [isWithin]

theorem any_isWithin_iff {dirs : List Location} {location : Location} :
    (dirs.any fun dir => isWithin dir location) = true ↔ IsCovered dirs location := by
  simp [IsCovered]

@[simp] theorem node?_root (fs : FileSystem) : fs.node? [] = some .directory := rfl

theorem node?_eq_lookup (fs : FileSystem) {location : Location} (h : location ≠ []) :
    fs.node? location = fs.entries.lookup location := by
  cases location with
  | nil => contradiction
  | cons name rest => rfl

private theorem lookup_filter_of_keep {entries : List Entry} (keep : Location → Bool)
    {location : Location} (h : keep location = true) :
    (entries.filter fun e => keep e.1).lookup location = entries.lookup location := by
  induction entries with
  | nil => rfl
  | cons e rest ih =>
      obtain ⟨l, n⟩ := e
      by_cases hl : location = l
      · subst hl
        simp [h]
      · have hne : (location == l) = false := by simpa using hl
        cases hk : keep l with
        | true => simp [hk, List.lookup_cons, hne, ih]
        | false => simp [hk, List.lookup_cons, hne, ih]

private theorem lookup_filter_of_drop {entries : List Entry} (keep : Location → Bool)
    {location : Location} (h : keep location = false) :
    (entries.filter fun e => keep e.1).lookup location = none := by
  rw [List.lookup_eq_none_iff]
  rintro ⟨l, n⟩ hmem
  have hkeep : keep l = true := (List.mem_filter.mp hmem).2
  rw [bne_iff_ne]
  rintro rfl
  rw [h] at hkeep
  contradiction

variable {fs big small : FileSystem} {dirs : List Location} {dir location : Location}
  {node : Node}

theorem node?_withoutAll_of_not_covered (h : ¬ IsCovered dirs location) :
    (fs.withoutAll dirs).node? location = fs.node? location := by
  by_cases hnil : location = []
  · subst hnil
    rfl
  · rw [node?_eq_lookup _ hnil, node?_eq_lookup _ hnil]
    exact lookup_filter_of_keep (fun l => !dirs.any fun dir => isWithin dir l)
      (by simpa [IsCovered] using h)

theorem node?_withoutAll_of_covered (hnil : location ≠ []) (h : IsCovered dirs location) :
    (fs.withoutAll dirs).node? location = none := by
  rw [node?_eq_lookup _ hnil]
  exact lookup_filter_of_drop (fun l => !dirs.any fun dir => isWithin dir l)
    (by simpa using any_isWithin_iff.mpr h)

@[simp] theorem withoutAll_nil (fs : FileSystem) : fs.withoutAll [] = fs := by
  simp [withoutAll]

theorem withoutAll_withoutAll (fs : FileSystem) (first second : List Location) :
    (fs.withoutAll first).withoutAll second = fs.withoutAll (first ++ second) := by
  simp [withoutAll, List.filter_filter, Bool.and_comm]

theorem without_eq_withoutAll (fs : FileSystem) (location : Location) :
    fs.without location = fs.withoutAll [location] := by
  simp [without, withoutAll]

theorem node?_without (h : ¬ dir <+: location) :
    (fs.without dir).node? location = fs.node? location := by
  rw [without_eq_withoutAll]
  exact node?_withoutAll_of_not_covered (by simpa [IsCovered] using h)

/-! ## Extension -/

theorem Extends.refl (fs : FileSystem) : fs.Extends fs :=
  ⟨rfl, id⟩

theorem Extends.trans {fs : FileSystem} (h : big.Extends small) (h' : small.Extends fs) :
    big.Extends fs :=
  ⟨h'.here_eq.trans h.here_eq, fun hn => h.node? (h'.node? hn)⟩

theorem extends_withoutAll (fs : FileSystem) (dirs : List Location) :
    fs.Extends (fs.withoutAll dirs) where
  here_eq := rfl
  node? := by
    intro location node hnode
    by_cases hnil : location = []
    · subst hnil
      exact hnode
    · by_cases hcov : IsCovered dirs location
      · rw [node?_withoutAll_of_covered hnil hcov] at hnode
        contradiction
      · rwa [node?_withoutAll_of_not_covered hcov] at hnode

theorem IsCovered.trans {first second : List Location} (h : IsCovered first location)
    (hfirst : ∀ dir ∈ first, IsCovered second dir) : IsCovered second location := by
  obtain ⟨dir, hdir, hpre⟩ := h
  obtain ⟨above, habove, hpre'⟩ := hfirst dir hdir
  exact ⟨above, habove, hpre'.trans hpre⟩

theorem withoutAll_extends_withoutAll {first second : List Location}
    (h : ∀ dir ∈ first, IsCovered second dir) :
    (fs.withoutAll first).Extends (fs.withoutAll second) where
  here_eq := rfl
  node? := by
    intro location node hnode
    by_cases hcovered : IsCovered first location
    · by_cases hnil : location = []
      · subst hnil
        exact hnode
      · rw [node?_withoutAll_of_covered hnil (hcovered.trans h)] at hnode
        cases hnode
    · rw [node?_withoutAll_of_not_covered hcovered]
      exact (extends_withoutAll fs second).node? hnode

theorem Extends.withoutAll (h : big.Extends small) (dirs : List Location) :
    (big.withoutAll dirs).Extends (small.withoutAll dirs) where
  here_eq := h.here_eq
  node? := by
    intro location node hnode
    by_cases hcovered : IsCovered dirs location
    · by_cases hnil : location = []
      · subst hnil
        exact hnode
      · rw [node?_withoutAll_of_covered hnil hcovered] at hnode
        cases hnode
    · rw [node?_withoutAll_of_not_covered hcovered] at hnode ⊢
      exact h.node? hnode

theorem withoutAll_congr {first second : List Location}
    (h : ∀ e ∈ fs.entries, IsCovered first e.1 ↔ IsCovered second e.1) :
    fs.withoutAll first = fs.withoutAll second := by
  unfold withoutAll
  congr 1
  refine List.filter_congr fun e he => ?_
  rw [Bool.eq_iff_iff, Bool.not_eq_true', Bool.not_eq_true', Bool.eq_false_iff, Bool.eq_false_iff,
    Ne, Ne, any_isWithin_iff, any_isWithin_iff, h e he]

/-! ## Well-formed file systems -/

instance (fs : FileSystem) : Decidable fs.WellFormed :=
  decidable_of_iff
    ((fs.entries.map Prod.fst).Nodup ∧
      (∀ e ∈ fs.entries, e.1 ≠ [] ∧ fs.node? e.1.dropLast = some .directory) ∧
      (∀ e ∈ fs.entries, ∀ name ∈ e.1, IsName name) ∧
      (fs.entries.filterMap fun e => e.2.number?).Nodup ∧
      ∀ e ∈ fs.entries, ∀ id ∈ e.2.number?, id < fs.nextFile)
    ⟨fun ⟨nodup, inside, named, files, lt⟩ => ⟨nodup, inside, named, files, lt⟩,
      fun h => ⟨h.locations_nodup, h.inside, h.named, h.files_nodup, h.files_lt⟩⟩

theorem WellFormed.mem_entries_iff (hfs : fs.WellFormed) (hnil : location ≠ []) :
    (location, node) ∈ fs.entries ↔ fs.node? location = some node := by
  rw [node?_eq_lookup _ hnil]
  have hnodup := hfs.locations_nodup
  generalize fs.entries = entries at hnodup
  induction entries with
  | nil => simp
  | cons e rest ih =>
      obtain ⟨l, n⟩ := e
      rw [List.map_cons, List.nodup_cons] at hnodup
      by_cases hl : location = l
      · subst hl
        have hout : (location, node) ∉ rest := fun hmem =>
          hnodup.1 (List.mem_map.mpr ⟨_, hmem, rfl⟩)
        simp [hout, eq_comm]
      · have hne : (location == l) = false := by simpa using hl
        simp [List.lookup_cons, hne, hl, ih hnodup.2]

theorem WellFormed.node?_dropLast (hfs : fs.WellFormed) (hnil : location ≠ [])
    (hnode : fs.node? location = some node) :
    fs.node? location.dropLast = some .directory :=
  (hfs.inside _ ((hfs.mem_entries_iff hnil).mpr hnode)).2

theorem WellFormed.node?_of_append (hfs : fs.WellFormed) {rest : Location}
    (hrest : rest ≠ []) (hnode : fs.node? (location ++ rest) = some node) :
    fs.node? location = some .directory := by
  induction rest using List.reverseRecOn generalizing node with
  | nil => contradiction
  | append_singleton rest name ih =>
      rw [← List.append_assoc] at hnode
      have habove : fs.node? (location ++ rest) = some .directory := by
        simpa using hfs.node?_dropLast (by simp) hnode
      by_cases hr : rest = []
      · simpa [hr] using habove
      · exact ih hr habove

theorem WellFormed.isName (hfs : fs.WellFormed) (hnode : fs.node? location = some node)
    {name : String} (hname : name ∈ location) : IsName name := by
  have hnil : location ≠ [] := List.ne_nil_of_mem hname
  exact hfs.named _ ((hfs.mem_entries_iff hnil).mpr hnode) name hname

theorem WellFormed.withoutAll (hfs : fs.WellFormed) (dirs : List Location) :
    (fs.withoutAll dirs).WellFormed where
  locations_nodup := hfs.locations_nodup.sublist (List.filter_sublist.map _)
  inside := by
    intro e he
    obtain ⟨hmem, hkeep⟩ := List.mem_filter.mp he
    refine ⟨(hfs.inside e hmem).1, ?_⟩
    rw [node?_withoutAll_of_not_covered]
    · exact (hfs.inside e hmem).2
    · rintro ⟨dir, hdir, hpre⟩
      have hcov : IsCovered dirs e.1 := ⟨dir, hdir, hpre.trans (List.dropLast_prefix _)⟩
      rw [any_isWithin_iff.mpr hcov] at hkeep
      contradiction
  named e he := hfs.named e (List.mem_filter.mp he).1
  files_nodup := hfs.files_nodup.sublist (List.filter_sublist.filterMap _)
  files_lt e he := hfs.files_lt e (List.mem_filter.mp he).1

/-! ## Listing -/

theorem nameIn?_eq_some_iff {name : String} :
    nameIn? dir location = some name ↔ location = dir ++ [name] := by
  fun_induction nameIn? dir location with
  | case1 x => simp [eq_comm]
  | case2 d dir location ih => simp [ih]
  | case3 d dir x location hne => simp [Ne.symm hne]
  | case4 dir location h₁ h₂ =>
      simp only [reduceCtorEq, false_iff]
      rintro rfl
      cases dir with
      | nil => exact h₁ name rfl rfl
      | cons d dir => exact h₂ d dir d (dir ++ [name]) rfl rfl

theorem WellFormed.mem_namesIn_iff (hfs : fs.WellFormed) {name : String} :
    name ∈ fs.namesIn dir ↔ ∃ node, fs.node? (dir ++ [name]) = some node := by
  simp only [namesIn, List.mem_filterMap, nameIn?_eq_some_iff]
  constructor
  · rintro ⟨⟨l, n⟩, hmem, rfl⟩
    exact ⟨n, (hfs.mem_entries_iff (by simp)).mp hmem⟩
  · rintro ⟨n, hn⟩
    exact ⟨_, (hfs.mem_entries_iff (by simp)).mpr hn, rfl⟩

theorem WellFormed.namesIn_nodup (hfs : fs.WellFormed) (dir : Location) :
    (fs.namesIn dir).Nodup := by
  have hnodup := hfs.locations_nodup
  rw [List.Nodup, List.pairwise_map] at hnodup
  refine hnodup.filterMap _ ?_
  intro e e' hne name hname name' hname' heq
  rw [nameIn?_eq_some_iff] at hname hname'
  exact hne (by rw [hname, hname', heq])

theorem namesIn_withoutAll (hdir : ¬ IsCovered dirs dir) :
    (fs.withoutAll dirs).namesIn dir =
      (fs.namesIn dir).filter fun name => dir ++ [name] ∉ dirs := by
  simp only [namesIn, withoutAll, List.filter_filterMap]
  rw [List.filterMap_filter]
  refine List.filterMap_congr fun e _ => ?_
  cases hname : nameIn? dir e.1 with
  | none => simp
  | some name =>
      have hloc := nameIn?_eq_some_iff.mp hname
      have hcov : IsCovered dirs e.1 ↔ dir ++ [name] ∈ dirs := by
        constructor
        · rintro ⟨d, hd, hpre⟩
          rw [hloc, List.prefix_concat_iff] at hpre
          cases hpre with
          | inl heq => rwa [← heq]
          | inr habove => exact (hdir ⟨d, hd, habove⟩).elim
        · intro hd
          exact ⟨_, hd, hloc ▸ List.prefix_rfl⟩
      by_cases hd : dir ++ [name] ∈ dirs
      · simp [any_isWithin_iff.mpr (hcov.mpr hd), Option.filter, hd]
      · have hany : (dirs.any fun d => isWithin d e.1) = false := by
          rw [Bool.eq_false_iff, Ne, any_isWithin_iff, hcov]
          exact hd
        simp [hany, Option.filter, hd]

end CacheUpkeep.FileSystem
