import CacheUpkeep.Proofs.FileSystem.Removal

/-!
# Octets in files

All counts of octets are sums over the entries of a file system, so what a
removal frees is the difference of two such sums.
-/

namespace CacheUpkeep.FileSystem

variable {fs : FileSystem} {p : Path} {dirs : List Location} {dir location : Location}
  {gone : List String}

def totalSize (fs : FileSystem) : Nat :=
  fs.entries.foldr (fun e total => nodeSize e.2 + total) 0

def sizeWhere (fs : FileSystem) (counts : Location → Bool) : Nat :=
  fs.entries.foldr (fun e total => (if counts e.1 then nodeSize e.2 else 0) + total) 0

/--
Whether a location lies below a directory and not below the `excluded` names in it, with a
path that is not too long.
-/
def isCounted (p : Path) (dir : Location) (excluded : List String) (location : Location) : Bool :=
  match relative? dir location with
  | some (name :: rest) =>
      !excluded.contains name && !isTooLong ((name :: rest).foldl Path.child p)
  | _ => false

/-! ## Sums over entries -/

theorem sizeWhere_congr {counts counts' : Location → Bool}
    (h : ∀ e ∈ fs.entries, nodeSize e.2 ≠ 0 → counts e.1 = counts' e.1) :
    fs.sizeWhere counts = fs.sizeWhere counts' := by
  unfold sizeWhere
  generalize fs.entries = entries at h
  induction entries with
  | nil => rfl
  | cons e rest ih =>
      rw [List.foldr_cons, List.foldr_cons, ih fun e he => h e (List.mem_cons_of_mem _ he)]
      by_cases hsize : nodeSize e.2 = 0
      · simp [hsize]
      · rw [h e List.mem_cons_self hsize]

theorem totalSize_eq (fs : FileSystem) : fs.totalSize = fs.sizeWhere fun _ => true := rfl

theorem sizeWhere_eq_zero {counts : Location → Bool}
    (h : ∀ e ∈ fs.entries, nodeSize e.2 ≠ 0 → counts e.1 = false) : fs.sizeWhere counts = 0 := by
  have hnone : fs.sizeWhere counts = fs.sizeWhere fun _ => false := sizeWhere_congr h
  rw [hnone, sizeWhere]
  exact List.foldr_fixed' (by simp) fs.entries

theorem sizeWhere_and_add_and_not (fs : FileSystem) (counts part : Location → Bool) :
    fs.sizeWhere (fun location => counts location && part location) +
      fs.sizeWhere (fun location => counts location && !part location) = fs.sizeWhere counts := by
  unfold sizeWhere
  induction fs.entries with
  | nil => rfl
  | cons e rest ih =>
      simp only [List.foldr_cons] at ih ⊢
      rw [← ih]
      by_cases hpart : part e.1 = true
      · simp [hpart, Nat.add_assoc]
      · simp [hpart, Nat.add_left_comm]

theorem sizeWhere_le_totalSize (fs : FileSystem) (counts : Location → Bool) :
    fs.sizeWhere counts ≤ fs.totalSize := by
  have hsplit := sizeWhere_and_add_and_not fs (fun _ => true) counts
  simp only [Bool.true_and] at hsplit
  exact Nat.le.intro hsplit

theorem sizeWhere_withoutAll (fs : FileSystem) (dirs : List Location)
    (counts : Location → Bool) :
    (fs.withoutAll dirs).sizeWhere counts =
      fs.sizeWhere fun location =>
        counts location && !dirs.any fun dir => isWithin dir location := by
  unfold sizeWhere withoutAll
  dsimp only
  induction fs.entries with
  | nil => rfl
  | cons e rest ih =>
      rw [List.filter_cons, List.foldr_cons, ← ih]
      by_cases hgone : (dirs.any fun dir => isWithin dir e.1) = true
      · simp [hgone]
      · simp [hgone]

/-! ## Directories -/

theorem relative?_eq_some_iff {rest : Location} :
    relative? dir location = some rest ↔ location = dir ++ rest := by
  fun_induction relative? dir location with
  | case1 location => simp [eq_comm]
  | case2 d dir location ih => simp [ih]
  | case3 d dir x location hne => simp [Ne.symm hne]
  | case4 d dir => simp

theorem isCounted_iff {excluded : List String} :
    isCounted p dir excluded location = true ↔
      ∃ name rest, location = dir ++ name :: rest ∧ name ∉ excluded ∧
        isTooLong ((name :: rest).foldl Path.child p) = false := by
  unfold isCounted
  cases hrel : relative? dir location with
  | none =>
      simp only [Bool.false_eq_true, false_iff, not_exists, not_and]
      intro name rest heq
      rw [← relative?_eq_some_iff, hrel] at heq
      contradiction
  | some found =>
      have hloc := relative?_eq_some_iff.mp hrel
      cases found with
      | nil => simp [hloc]
      | cons name rest => simp [hloc]

theorem sizeBelow_eq (fs : FileSystem) (p : Path) (dir : Location) (excluded : List String) :
    fs.sizeBelow p dir excluded = fs.sizeWhere (isCounted p dir excluded) := by
  unfold sizeBelow entriesBelow sizeWhere
  induction fs.entries with
  | nil => rfl
  | cons e rest ih =>
      obtain ⟨location, node⟩ := e
      rw [List.filterMap_cons, List.foldr_cons, ← ih]
      obtain ⟨found, hrel⟩ : ∃ found, relative? dir location = found := ⟨_, rfl⟩
      rcases found with _ | _ | ⟨name, below⟩
      · simp [isCounted, hrel]
      · simp [isCounted, hrel]
      · by_cases hname : name ∈ excluded
        · simp [isCounted, hrel, sizeBelow.counted, hname]
        · cases hlong : isTooLong (below.foldl Path.child (p.child name)) <;>
            simp [isCounted, hrel, sizeBelow.counted, hname, hlong]

/--
What is left below a directory when nothing but some names in it is removed from it
are the octets that do not lie below these names.
-/
theorem sizeBelow_withoutAll
    (hgone : ∀ name rest, IsCovered dirs (dir ++ name :: rest) ↔ name ∈ gone) :
    (fs.withoutAll dirs).sizeBelow p dir [] = fs.sizeBelow p dir gone := by
  rw [sizeBelow_eq, sizeBelow_eq, sizeWhere_withoutAll]
  refine sizeWhere_congr fun e _ _ => ?_
  rw [Bool.eq_iff_iff, Bool.and_eq_true, Bool.not_eq_true', ← Bool.not_eq_true,
    any_isWithin_iff, isCounted_iff, isCounted_iff]
  constructor
  · rintro ⟨⟨name, rest, hloc, -, hshort⟩, hcov⟩
    rw [hloc, hgone] at hcov
    exact ⟨name, rest, hloc, hcov, hshort⟩
  · rintro ⟨name, rest, hloc, hname, hshort⟩
    rw [hloc, hgone]
    exact ⟨⟨name, rest, rfl, by simp, hshort⟩, hname⟩

theorem sizeBelow_add_sizeWhere {counts : Location → Bool} (hfs : fs.WellFormed)
    (hdir : fs.node? dir = some .directory)
    (hcounts : ∀ rest, counts (dir ++ rest) = !isTooLong (rest.foldl Path.child p)) :
    fs.sizeBelow p dir [] + (fs.without dir).sizeWhere counts = fs.sizeWhere counts := by
  have hpart : fs.sizeBelow p dir [] =
      fs.sizeWhere fun location => counts location && isWithin dir location := by
    rw [sizeBelow_eq]
    refine sizeWhere_congr fun e he hsize => ?_
    have hne : e.1 ≠ dir := by
      rintro rfl
      rw [(hfs.mem_entries_iff (hfs.inside e he).1).mp he, Option.some.injEq] at hdir
      rw [hdir] at hsize
      exact hsize rfl
    rw [Bool.eq_iff_iff, Bool.and_eq_true, isWithin_iff, isCounted_iff]
    constructor
    · rintro ⟨name, rest, hloc, -, hshort⟩
      rw [hloc, hcounts, hshort]
      exact ⟨rfl, List.prefix_append _ _⟩
    · rintro ⟨hcounted, rest, hrest⟩
      rw [← hrest, hcounts, Bool.not_eq_true'] at hcounted
      cases rest with
      | nil => exact absurd (by simpa using hrest.symm) hne
      | cons name rest => exact ⟨name, rest, hrest.symm, by simp, hcounted⟩
  rw [hpart, without_eq_withoutAll, sizeWhere_withoutAll]
  simpa using sizeWhere_and_add_and_not fs counts (isWithin dir)

end CacheUpkeep.FileSystem
