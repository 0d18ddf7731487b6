import CacheUpkeep.Proofs.Path.Ways
import CacheUpkeep.Proofs.RunnerStorage

/-!
# Storage of runner groups

The name of a runner is cut at its first mark `-i-`.  Where a base name ends in `-i`, that
and the mark after it make an earlier one, so that the group loses these two characters.
-/

namespace CacheUpkeep

open CacheUpkeep.FileSystem CacheUpkeep.Text

variable {base base₁ base₂ front : String}

structure IsBaseName (base : String) : Prop where
  ne_empty : base ≠ ""
  ne_here : base ≠ "."
  ne_up : base ≠ ".."
  slash_notMem : '/' ∉ base.toList
  mark_not_infix : ¬ ['-', 'i', '-'] <:+: base.toList

theorem runnerGroup_self (h : IsBaseName base) : runnerGroup base = base := by
  rw [runnerGroup, beforeFirst_of_not_infix h.mark_not_infix, String.ofList_toList]

theorem runnerGroup_append {group rest : String}
    (h : ¬ ['-', 'i', '-'] <:+: group.toList ++ ['-', 'i']) :
    runnerGroup (group ++ "-i-" ++ rest) = group := by
  have hbefore : beforeFirst ['-', 'i', '-'] (group.toList ++ ['-', 'i', '-'] ++ rest.toList) =
      group.toList := beforeFirst_append h rest.toList
  rw [runnerGroup, String.toList_append, String.toList_append]
  exact (congrArg String.ofList hbefore).trans String.ofList_toList

theorem runnerGroup_of_not_suffix (h : IsBaseName base) (hend : ∀ front, base ≠ front ++ "-i")
    (id : String) : runnerGroup (base ++ "-i-" ++ id) = base := by
  refine runnerGroup_append fun hinfix => ?_
  -- An earlier mark would end with the `i`, with the hyphen, or inside the base name.
  have hsplit : base.toList ++ ['-', 'i'] = base.toList ++ ['-'] ++ ['i'] := by simp
  rw [hsplit, List.infix_concat_iff] at hinfix
  rcases hinfix with hlast | hinfix
  · obtain ⟨before, hbefore⟩ := hlast
    have hends := congrArg List.getLast? hbefore
    simp at hends
  · rcases List.infix_concat_iff.mp hinfix with hlast | hinfix
    · obtain ⟨before, hbefore⟩ := hlast
      refine hend (String.ofList before) ?_
      have hmark : before ++ ['-', 'i'] ++ ['-'] = base.toList ++ ['-'] := by
        simpa using hbefore
      have hcut := List.append_cancel_right hmark
      rw [← String.toList_inj, ← hcut]
      simp
    · exact h.mark_not_infix hinfix

theorem runnerGroup_of_suffix (h : IsBaseName (front ++ "-i")) (id : String) :
    runnerGroup (front ++ "-i" ++ "-i-" ++ id) = front := by
  have hmarks : front ++ "-i" ++ "-i-" ++ id = front ++ "-i-" ++ ("i-" ++ id) := by
    rw [← String.toList_inj]
    simp
  rw [hmarks]
  exact runnerGroup_append (by simpa using h.mark_not_infix)

theorem IsBaseName.not_suffix (h : IsBaseName (front ++ "-i")) (other : String) :
    front ≠ other ++ "-i" := by
  rintro rfl
  refine h.mark_not_infix ⟨other.toList, ['i'], ?_⟩
  simp

theorem IsBaseName.not_isBlank (h : IsBaseName base) : ¬ Path.IsBlank base :=
  not_or.mpr ⟨h.ne_empty, h.ne_here⟩

namespace RunnerStorage

variable {s : RunnerStorage}

theorem storageFor_eq_child {runner : String} (h : '/' ∉ (runnerGroup runner).toList) :
    s.storageFor runner = s.root.child (runnerGroup runner) := by
  rw [storageFor, Path.ofString, splitAtEach_of_notMem h, Path.child]
  simp

/-- The base names whose groups have one storage directory. -/
def ShareStorage (base₁ base₂ : String) : Prop :=
  base₁ = base₂ ∨ base₁ = base₂ ++ "-i" ∨ base₂ = base₁ ++ "-i" ∨
    base₁ = "-i" ∧ base₂ = ".-i" ∨ base₁ = ".-i" ∧ base₂ = "-i"

theorem ShareStorage.symm (h : ShareStorage base₁ base₂) : ShareStorage base₂ base₁ := by
  rcases h with h | h | h | h | h
  · exact .inl h.symm
  · exact .inr (.inr (.inl h))
  · exact .inr (.inl h)
  · exact .inr (.inr (.inr (.inr h.symm)))
  · exact .inr (.inr (.inr (.inl h.symm)))

theorem storageFor_cases (s : RunnerStorage) (h : IsBaseName base) (id : String) :
    (∃ front, base = front ++ "-i" ∧
      s.storageFor (base ++ "-i-" ++ id) = s.root.child front) ∨
    (∀ front, base ≠ front ++ "-i") ∧
      s.storageFor (base ++ "-i-" ++ id) = s.root.child base := by
  by_cases hend : ∃ front, base = front ++ "-i"
  · obtain ⟨front, rfl⟩ := hend
    have hgroup := runnerGroup_of_suffix h id
    have hslash : '/' ∉ front.toList := fun hmem => h.slash_notMem (by simp [hmem])
    refine .inl ⟨front, rfl, ?_⟩
    rw [storageFor_eq_child (hgroup.symm ▸ hslash), hgroup]
  · have hend' : ∀ front, base ≠ front ++ "-i" := fun front heq => hend ⟨front, heq⟩
    have hgroup := runnerGroup_of_not_suffix h hend' id
    refine .inr ⟨hend', ?_⟩
    rw [storageFor_eq_child (hgroup.symm ▸ h.slash_notMem), hgroup]

private theorem shareStorage_of_suffixes {front₁ front₂ : String}
    (h₁ : IsBaseName (front₁ ++ "-i")) (h₂ : IsBaseName (front₂ ++ "-i")) :
    ShareStorage (front₁ ++ "-i") (front₂ ++ "-i") ↔
      front₁ = front₂ ∨ Path.IsBlank front₁ ∧ Path.IsBlank front₂ := by
  have hcancel : ∀ front front' : String, front ++ "-i" = front' ++ "-i" → front = front' :=
    fun _ _ => String.append_left_inj "-i" |>.mp
  constructor
  · rintro (h | h | h | ⟨h, h'⟩ | ⟨h, h'⟩)
    · exact .inl (hcancel _ _ h)
    · exact absurd (hcancel _ _ h) (h₁.not_suffix front₂)
    · exact absurd (hcancel _ _ h) (h₂.not_suffix front₁)
    · exact .inr ⟨.inl (hcancel _ "" h), .inr (hcancel _ "." h')⟩
    · exact .inr ⟨.inr (hcancel _ "." h), .inl (hcancel _ "" h')⟩
  · rintro (rfl | ⟨rfl | rfl, rfl | rfl⟩)
    · exact .inl rfl
    · exact .inl rfl
    · exact .inr (.inr (.inr (.inl ⟨rfl, rfl⟩)))
    · exact .inr (.inr (.inr (.inr ⟨rfl, rfl⟩)))
    · exact .inl rfl

private theorem shareStorage_of_suffix (hend : ∀ front, base ≠ front ++ "-i") :
    ShareStorage (front ++ "-i") base ↔ front = base := by
  constructor
  · rintro (h | h | h | ⟨-, h⟩ | ⟨-, h⟩)
    · exact absurd h.symm (hend front)
    · exact String.append_left_inj "-i" |>.mp h
    · exact absurd h (hend _)
    · exact absurd h (hend ".")
    · exact absurd h (hend "")
  · rintro rfl
    exact .inr (.inl rfl)

theorem storageFor_sameWay_iff (s : RunnerStorage) (hroot : s.root.isEmpty = false)
    (h₁ : IsBaseName base₁) (h₂ : IsBaseName base₂) (id₁ id₂ : String) :
    (s.storageFor (base₁ ++ "-i-" ++ id₁)).SameWay (s.storageFor (base₂ ++ "-i-" ++ id₂)) ↔
      ShareStorage base₁ base₂ := by
  rcases s.storageFor_cases h₁ id₁ with ⟨front₁, rfl, hstorage₁⟩ | ⟨hend₁, hstorage₁⟩
  · rcases s.storageFor_cases h₂ id₂ with ⟨front₂, rfl, hstorage₂⟩ | ⟨hend₂, hstorage₂⟩
    · rw [hstorage₁, hstorage₂, Path.sameWay_child_iff hroot, shareStorage_of_suffixes h₁ h₂]
    · rw [hstorage₁, hstorage₂, Path.sameWay_child_iff hroot,
        or_iff_left fun h => h₂.not_isBlank h.2, shareStorage_of_suffix hend₂]
  · rcases s.storageFor_cases h₂ id₂ with ⟨front₂, rfl, hstorage₂⟩ | ⟨hend₂, hstorage₂⟩
    · rw [hstorage₁, hstorage₂, Path.sameWay_child_iff hroot,
        or_iff_left fun h => h₁.not_isBlank h.1, eq_comm, ← shareStorage_of_suffix hend₁]
      exact ⟨ShareStorage.symm, ShareStorage.symm⟩
    · rw [hstorage₁, hstorage₂, Path.sameWay_child_iff hroot,
        or_iff_left fun h => h₁.not_isBlank h.1]
      constructor
      · exact .inl
      · rintro (h | h | h | ⟨h, -⟩ | ⟨h, -⟩)
        · exact h
        · exact absurd h (hend₁ _)
        · exact absurd h (hend₂ _)
        · exact absurd h (hend₁ "")
        · exact absurd h (hend₁ ".")

theorem storageFor_self (s : RunnerStorage) (h : IsBaseName base) :
    s.storageFor base = s.root.child base := by
  have hgroup := runnerGroup_self h
  rw [storageFor_eq_child (hgroup.symm ▸ h.slash_notMem), hgroup]

theorem storageFor_sameWay_self_iff (s : RunnerStorage) (hroot : s.root.isEmpty = false)
    (h : IsBaseName base) (id : String) :
    (s.storageFor (base ++ "-i-" ++ id)).SameWay (s.storageFor base) ↔
      ∀ front, base ≠ front ++ "-i" := by
  rcases s.storageFor_cases h id with ⟨front, rfl, hstorage⟩ | ⟨hend, hstorage⟩
  · refine iff_of_false (fun hsame => ?_) fun hend => hend front rfl
    rw [hstorage, storageFor_self s h, Path.sameWay_child_iff hroot,
      or_iff_left fun hblank => h.not_isBlank hblank.2] at hsame
    have hlength := congrArg String.length hsame
    simp at hlength
  · rw [hstorage, storageFor_self s h]
    exact iff_of_true (.refl _) hend

theorem storageFor_eq_self_iff (s : RunnerStorage) (hroot : s.root.isEmpty = false)
    (h : IsBaseName base) (id : String) :
    s.storageFor (base ++ "-i-" ++ id) = s.storageFor base ↔ ∀ front, base ≠ front ++ "-i" := by
  constructor
  · intro heq
    rw [← storageFor_sameWay_self_iff s hroot h id, heq]
    exact .refl _
  · intro hend
    rcases s.storageFor_cases h id with ⟨front, rfl, -⟩ | ⟨-, hstorage⟩
    · exact absurd rfl (hend front)
    · rw [hstorage, storageFor_self s h]

/--
Runners of two groups share a storage directory exactly if their base names are equal, or
one is the other with `-i` at its end, or they are `-i` and `.-i`.  A marked name has the
storage directory of its base name, and by the same path, unless that ends in `-i`.
-/
theorem storageFor_marked_iff (cache : Path) (h₁ : IsBaseName base₁) (h₂ : IsBaseName base₂)
    (id₁ id₂ : String) :
    (((ofBase cache).storageFor (base₁ ++ "-i-" ++ id₁)).SameWay
        ((ofBase cache).storageFor (base₂ ++ "-i-" ++ id₂)) ↔ ShareStorage base₁ base₂) ∧
      (((ofBase cache).storageFor (base₁ ++ "-i-" ++ id₁)).SameWay
        ((ofBase cache).storageFor base₁) ↔ ∀ front, base₁ ≠ front ++ "-i") ∧
      ((ofBase cache).storageFor (base₁ ++ "-i-" ++ id₁) = (ofBase cache).storageFor base₁ ↔
        ∀ front, base₁ ≠ front ++ "-i") :=
  ⟨storageFor_sameWay_iff _ (isEmpty_root_ofBase cache) h₁ h₂ id₁ id₂,
    storageFor_sameWay_self_iff _ (isEmpty_root_ofBase cache) h₁ id₁,
    storageFor_eq_self_iff _ (isEmpty_root_ofBase cache) h₁ id₁⟩

/-- Two groups of machines that are told apart, and one of them with its own directory. -/
theorem storageFor_marked_iff_sample :
    (IsBaseName "linux-intel" ∧ IsBaseName "linux-cpp2") ∧
      ¬ ((ofBase ⟨["cache"]⟩).storageFor ("linux-intel" ++ "-i-" ++ "0abc")).SameWay
        ((ofBase ⟨["cache"]⟩).storageFor ("linux-cpp2" ++ "-i-" ++ "0b3bc6e358f7261e7")) ∧
      (ofBase ⟨["cache"]⟩).storageFor ("linux-intel" ++ "-i-" ++ "0abc") =
        (ofBase ⟨["cache"]⟩).storageFor "linux-intel" := by
  have h₁ : IsBaseName "linux-intel" := by constructor <;> decide
  have h₂ : IsBaseName "linux-cpp2" := by constructor <;> decide
  obtain ⟨hshares, -, hself⟩ :=
    storageFor_marked_iff ⟨["cache"]⟩ h₁ h₂ "0abc" "0b3bc6e358f7261e7"
  refine ⟨⟨h₁, h₂⟩, fun hsame => ?_, hself.mpr fun front heq => ?_⟩
  · have hshare := hshares.mp hsame
    revert hshare
    unfold ShareStorage
    decide
  · have hends := congrArg (fun name => name.toList.getLast?) heq
    simp at hends

/-- The groups of `x` and `x-i` share a directory, which is not the one of `x-i` alone. -/
theorem storageFor_collides :
    (IsBaseName "x" ∧ IsBaseName "x-i" ∧ "x" ≠ "x-i") ∧
      (ofBase ⟨["cache"]⟩).storageFor ("x" ++ "-i-" ++ "1") =
        (ofBase ⟨["cache"]⟩).storageFor ("x-i" ++ "-i-" ++ "1") ∧
      ¬ ((ofBase ⟨["cache"]⟩).storageFor ("x-i" ++ "-i-" ++ "1")).SameWay
        ((ofBase ⟨["cache"]⟩).storageFor "x-i") := by
  have h₁ : IsBaseName "x" := by constructor <;> decide
  have h₂ : IsBaseName "x-i" := by constructor <;> decide
  refine ⟨⟨h₁, h₂, by decide⟩, by decide, fun hsame => ?_⟩
  have hturns := hsame.turns_eq
  revert hturns
  decide

end RunnerStorage

end CacheUpkeep
