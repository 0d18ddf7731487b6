import CacheUpkeep.Proofs.Path.Ancestors

/-!
# Ways

Two paths lead the same way if they make the same steps from the same place.  Slashes
that follow one another and dots do not count.
-/

namespace CacheUpkeep.Path

open CacheUpkeep.FileSystem

variable {p q q' : Path} {a b name : String}

def moves (steps : List Step) : List Step :=
  steps.filter fun step => step ≠ .here

@[simp] theorem moves_nil : moves [] = [] := rfl

@[simp] theorem moves_here (rest : List Step) : moves (.here :: rest) = moves rest := rfl

@[simp] theorem moves_up (rest : List Step) : moves (.up :: rest) = .up :: moves rest := rfl

@[simp] theorem moves_down (name : String) (rest : List Step) :
    moves (.down name :: rest) = .down name :: moves rest := rfl

@[simp] theorem moves_append (front rest : List Step) :
    moves (front ++ rest) = moves front ++ moves rest :=
  List.filter_append front rest

@[simp] theorem moves_moves (steps : List Step) : moves (moves steps) = moves steps := by
  simp [moves]

def turns (p : Path) : List Step :=
  moves p.steps

structure SameWay (p q : Path) : Prop where
  isAbsolute_eq : p.isAbsolute = q.isAbsolute
  turns_eq : p.turns = q.turns

theorem SameWay.refl (p : Path) : p.SameWay p :=
  ⟨rfl, rfl⟩

theorem SameWay.symm (h : p.SameWay q) : q.SameWay p :=
  ⟨h.isAbsolute_eq.symm, h.turns_eq.symm⟩

theorem SameWay.trans (h : p.SameWay q) (h' : q.SameWay q') : p.SameWay q' :=
  ⟨h.isAbsolute_eq.trans h'.isAbsolute_eq, h.turns_eq.trans h'.turns_eq⟩

theorem turns_join (hp : p.isEmpty = false) (hq : q.isAbsolute = false) :
    (p.join q).turns = p.turns ++ q.turns := by
  rw [turns, steps_join hp hq, moves_append, turns, turns]

theorem sameWay_join_iff (hp : p.isEmpty = false) (hq : q.isAbsolute = false)
    (hq' : q'.isAbsolute = false) (hne : q.segments ≠ []) (hne' : q'.segments ≠ []) :
    (p.join q).SameWay (p.join q') ↔ q.turns = q'.turns := by
  have habs : (p.join q).isAbsolute = (p.join q').isAbsolute := by
    rw [isAbsolute_join hp hq hne, isAbsolute_join hp hq' hne']
  constructor
  · intro h
    have hturns := h.turns_eq
    rw [turns_join hp hq, turns_join hp hq'] at hturns
    exact List.append_cancel_left hturns
  · intro h
    refine ⟨habs, ?_⟩
    rw [turns_join hp hq, turns_join hp hq', h]

theorem turns_of_isBlank (ha : IsBlank a) : (⟨[a]⟩ : Path).turns = [] := by
  rcases ha with rfl | rfl <;> rfl

theorem turns_of_not_isBlank (ha : ¬ IsBlank a) :
    (⟨[a]⟩ : Path).turns = [if a = ".." then .up else .down a] := by
  obtain ⟨hempty, hhere⟩ := not_or.mp ha
  by_cases hup : a = ".."
  · simp [turns, steps, stepOf, hup]
  · simp [turns, steps, stepOf, hempty, hhere, hup]

theorem mem_turns_of_ne {step : Step} (hne : step ≠ .here) : step ∈ p.turns ↔ step ∈ p.steps := by
  simp [turns, moves, hne]

theorem names_eq_turns (p : Path) : p.names = p.turns.filterMap Step.name? := by
  unfold names turns
  induction p.steps with
  | nil => rfl
  | cons step rest ih =>
      cases step with
      | here => exact ih
      | up => exact ih
      | down name => exact congrArg (name :: ·) ih

theorem turns_name (hname : IsName name) : (⟨[name]⟩ : Path).turns = [.down name] := by
  rw [turns_of_not_isBlank (not_or.mpr ⟨hname.1, hname.2.1⟩), if_neg hname.2.2.1]

theorem turns_single_eq_iff :
    (⟨[a]⟩ : Path).turns = (⟨[b]⟩ : Path).turns ↔ a = b ∨ IsBlank a ∧ IsBlank b := by
  by_cases ha : IsBlank a
  · by_cases hb : IsBlank b
    · simp [turns_of_isBlank ha, turns_of_isBlank hb, ha, hb]
    · have hne : a ≠ b := fun h => hb (h ▸ ha)
      simp [turns_of_isBlank ha, turns_of_not_isBlank hb, hb, hne]
  · by_cases hb : IsBlank b
    · have hne : a ≠ b := fun h => ha (h ▸ hb)
      simp [turns_of_not_isBlank ha, turns_of_isBlank hb, ha, hne]
    · rw [turns_of_not_isBlank ha, turns_of_not_isBlank hb, or_iff_left fun h => ha h.1]
      constructor
      · intro h
        split at h
        · next hup =>
            split at h
            · next hup' => rw [hup, hup']
            · cases h
        · split at h
          · cases h
          · cases h
            rfl
      · rintro rfl
        rfl

theorem sameWay_child_iff (hp : p.isEmpty = false) :
    (p.child a).SameWay (p.child b) ↔ a = b ∨ IsBlank a ∧ IsBlank b := by
  rw [child, child, sameWay_join_iff hp (isAbsolute_single a) (isAbsolute_single b) (by simp)
    (by simp), turns_single_eq_iff]

/-! ## Characters and lengths -/

theorem hasNul_iff :
    p.hasNul = true ↔ ∃ name, .down name ∈ p.turns ∧ ∃ c ∈ name.toList, c.toNat = 0 := by
  simp only [hasNul, List.any_eq_true, decide_eq_true_eq]
  constructor
  · rintro ⟨s, hs, c, hc, hnul⟩
    have hne : ∀ t : String, (∀ c ∈ t.toList, c.toNat ≠ 0) → s ≠ t := by
      rintro t ht rfl
      exact ht c hc hnul
    have hdown : stepOf s = some (.down s) := by
      simp [stepOf, hne "" (by simp), hne "." (by simp), hne ".." (by simp)]
    exact ⟨s, (mem_turns_of_ne (by simp)).mpr (List.mem_filterMap.mpr ⟨s, hs, hdown⟩), c, hc, hnul⟩
  · rintro ⟨name, hname, c, hc, hnul⟩
    obtain ⟨s, hs, hstep⟩ := List.mem_filterMap.mp ((mem_turns_of_ne (by simp)).mp hname)
    obtain ⟨rfl, -⟩ := stepOf_eq_down hstep
    exact ⟨s, hs, c, hc, hnul⟩

theorem SameWay.hasNul_eq (h : p.SameWay q) : p.hasNul = q.hasNul := by
  rw [Bool.eq_iff_iff, hasNul_iff, hasNul_iff, h.turns_eq]

theorem isTooLong_child_of_turns (hp : p.isEmpty = false) (hq : q.isAbsolute = false)
    (hturns : q.turns = [.down name]) (hlong : isTooLong (p.join q) = false) :
    isTooLong (p.child name) = false := by
  have hnames : q.names = [name] := by rw [names_eq_turns, hturns]; rfl
  have hsublist : (p.stem ++ [name]).Sublist (p.stem ++ q.segments) :=
    (List.Sublist.refl _).append (hnames ▸ q.names_sublist)
  have hsize := size_intercalate_le_of_sublist hsublist
  rw [join_eq hp hq] at hlong
  rw [child_eq hp]
  have hlong := of_decide_eq_false hlong
  exact decide_eq_false fun h => hlong (Nat.le_trans h hsize)

end CacheUpkeep.Path
