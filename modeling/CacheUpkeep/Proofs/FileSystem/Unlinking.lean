import CacheUpkeep.Proofs.FileSystem.Opening

/-!
# Unlinking files

Where no links stand, the way to a file leads through directories that stay when
the file is unlinked.  Opening the path then makes another file, with a number of
its own.
-/

namespace CacheUpkeep.FileSystem

open CacheUpkeep.Path

variable {fs big small left : FileSystem} {follow : Bool} {dir location : Location} {node : Node}
  {steps : List Step} {p parent : Path} {name : String} {links : Nat}

theorem unlink_eq_ok (h : fs.unlink p = .ok left) :
    ∃ location node, fs.place false p p.steps = .ok (.present location node) ∧
      node ≠ .directory ∧ p.endsWithSlash = false ∧ left = fs.without location := by
  unfold unlink at h
  cases hplace : fs.place false p p.steps with
  | error e =>
      rw [hplace] at h
      cases h
  | ok found =>
      rw [hplace] at h
      cases found with
      | absent dir name => cases h
      | present location node =>
          refine ⟨location, node, rfl, ?_⟩
          cases hslash : p.endsWithSlash with
          | true => cases node <;> simp [hslash] at h <;> cases h
          | false =>
              cases node with
              | directory => cases h
              | file id content executable =>
                  simp only [hslash] at h
                  cases h
                  exact ⟨by simp, rfl, rfl⟩
              | link target =>
                  simp only [hslash] at h
                  cases h
                  exact ⟨by simp, rfl, rfl⟩
              | sink id =>
                  simp only [hslash] at h
                  cases h
                  exact ⟨by simp, rfl, rfl⟩

/-! ## Ordinary file systems -/

/-- No links stand there, and the current directory is there. -/
structure IsOrdinary (fs : FileSystem) : Prop where
  noLinks : ∀ l target, fs.node? l ≠ some (.link target)
  here : ∀ l, l <+: fs.here → fs.node? l = some .directory

theorem IsOrdinary.of_accrues (h : IsOrdinary fs) (hbig : Accrues fs big) : IsOrdinary big where
  noLinks := by
    intro l target hlink
    rcases hbig.added hlink with hold | hdir | ⟨id, content, executable, hfile, -⟩
    · exact h.noLinks l target hold
    · cases hdir
    · cases hfile
  here := by
    intro l hl
    rw [← hbig.keeps.here_eq] at hl
    exact hbig.keeps.node? (h.here l hl)

theorem IsOrdinary.not_prefix_here (h : IsOrdinary fs) (hnode : fs.node? location = some node)
    (hne : node ≠ .directory) : ¬ location <+: fs.here := by
  intro hl
  rw [h.here location hl] at hnode
  cases hnode
  exact hne rfl

theorem IsOrdinary.of_unlink (h : IsOrdinary fs) (hunlink : fs.unlink p = .ok left) :
    IsOrdinary left := by
  obtain ⟨location, node, hplace, hne, -, rfl⟩ := unlink_eq_ok hunlink
  have hnode := (place_agrees hplace).resolve_left hne
  rw [without_eq_withoutAll]
  refine ⟨fun l target hlink => h.noLinks l target ((extends_withoutAll fs _).node? hlink), ?_⟩
  intro l hl
  rw [node?_withoutAll_of_not_covered, h.here l hl]
  rintro ⟨covering, hcovering, hpre⟩
  rw [List.mem_singleton.mp hcovering] at hpre
  exact h.not_prefix_here hnode hne (hpre.trans hl)

/-! ## The way to a file -/

private theorem walkWith_above {jump : Path → Location → List Step → Except IoError Place}
    (hlinks : ∀ l target, fs.node? l ≠ some (.link target)) (hfile : fs.node? location = some node)
    (hne : node ≠ .directory) (hbelow : ¬ location <+: dir)
    (hsmall : ∀ l, ¬ location <+: l → small.node? l = fs.node? l)
    (hwalk : fs.walkWith follow jump dir steps = .ok (.present location node)) :
    ∃ front above name, steps = front ++ [.down name] ∧ location = above ++ [name] ∧
      ∀ follow jump, small.walkWith follow jump dir front = .ok (.present above .directory) := by
  induction steps generalizing dir with
  | nil =>
      cases hwalk
      exact absurd rfl hne
  | cons step rest ih =>
      cases step with
      | here =>
          obtain ⟨front, above, name, rfl, hlocation, hfront⟩ := ih hbelow hwalk
          exact ⟨.here :: front, above, name, rfl, hlocation, hfront⟩
      | up =>
          have hbelow' : ¬ location <+: dir.dropLast := fun h =>
            hbelow (h.trans (List.dropLast_prefix dir))
          obtain ⟨front, above, name, rfl, hlocation, hfront⟩ := ih hbelow' hwalk
          exact ⟨.up :: front, above, name, rfl, hlocation, hfront⟩
      | down x =>
          cases stepsDown_of_walkWith hwalk with
          | enters hnode hwalk =>
              have hbelow' : ¬ location <+: dir ++ [x] := by
                rw [List.prefix_concat_iff]
                rintro (rfl | h)
                · rw [hnode] at hfile
                  cases hfile
                  exact hne rfl
                · exact hbelow h
              obtain ⟨front, above, name, rfl, hlocation, hfront⟩ := ih hbelow' hwalk
              refine ⟨.down x :: front, above, name, rfl, hlocation, fun follow jump => ?_⟩
              rw [walkWith_directory ((hsmall _ hbelow').trans hnode)]
              exact hfront follow jump
          | ends hnode hne hlink hlast =>
              subst hlast
              exact ⟨[], dir, x, rfl, rfl, fun _ _ => rfl⟩
          | jumps hnode => exact absurd hnode (hlinks _ _)

theorem unlink_above (h : IsOrdinary fs) (hunlink : fs.unlink p = .ok left) :
    ∃ front above name, p.steps = front ++ [.down name] ∧ left.node? (above ++ [name]) = none ∧
      ∀ follow links,
        left.walk follow links (startOf left.here p) front = .ok (.present above .directory) := by
  obtain ⟨location, node, hplace, hne, -, rfl⟩ := unlink_eq_ok hunlink
  have hfile := (place_agrees hplace).resolve_left hne
  obtain ⟨-, hwalk⟩ := place_eq_ok_iff.mp hplace
  have hstart : ¬ location <+: startOf fs.here p := by
    unfold startOf
    split
    · rw [List.prefix_nil]
      rintro rfl
      cases hfile
      exact hne rfl
    · exact h.not_prefix_here hfile hne
  have hsmall : ∀ l, ¬ location <+: l → (fs.without location).node? l = fs.node? l :=
    fun _ => node?_without
  obtain ⟨front, above, name, hsteps, rfl, hfront⟩ :=
    walkWith_above h.noLinks hfile hne hstart hsmall hwalk
  refine ⟨front, above, name, hsteps, ?_, fun follow links => ?_⟩
  · rw [without_eq_withoutAll]
    exact node?_withoutAll_of_covered (by simp) ⟨_, List.mem_singleton_self _, List.prefix_rfl⟩
  · cases links <;> exact hfront follow _

theorem openFile_of_unlink (h : IsOrdinary fs)
    (hnames : ∀ name ∈ p.names, name.utf8ByteSize ≤ nameLimit) (hunlink : fs.unlink p = .ok left) :
    ∃ location big, left.openFile p = .ok (left.nextFile, location, big) := by
  obtain ⟨front, above, name, hsteps, hfree, hfront⟩ := unlink_above h hunlink
  obtain ⟨location, node, hplace, -, hslash, rfl⟩ := unlink_eq_ok hunlink
  obtain ⟨hp, -⟩ := place_eq_ok_iff.mp hplace
  have hsize : ¬ nameLimit < name.utf8ByteSize := by
    rw [Nat.not_lt]
    exact hnames name (by simp [names, hsteps, Step.name?])
  have hagain : (fs.without location).place true p p.steps = .ok (.absent above name) := by
    refine place_eq_ok_iff.mpr ⟨hp, ?_⟩
    obtain ⟨links, hlinks⟩ : ∃ links, (fs.without location).walk true linkLimit
        (startOf (fs.without location).here p) (front ++ [.down name]) =
          (fs.without location).walk true links above [.down name] :=
      walk_append (by simp) (hfront true linkLimit)
    rw [hsteps, hlinks, walk_down fun target => by simp [hfree]]
    simp only [entryIn, hfree, if_neg hsize]
  exact ⟨_, _, openFile_of_absent hslash hagain⟩

theorem parent?_of_unlink (h : IsOrdinary fs) (hunlink : fs.unlink p = .ok left)
    (hparent : p.parent? = some parent) (hempty : parent.isEmpty = false) :
    ∃ above, left.directoryAt? parent = some above := by
  obtain ⟨front, above, name, hsteps, -, hfront⟩ := unlink_above h hunlink
  obtain ⟨location, node, hplace, -, -, rfl⟩ := unlink_eq_ok hunlink
  obtain ⟨⟨hnul, -, hlong⟩, -⟩ := place_eq_ok_iff.mp hplace
  exact ⟨above, directoryAt?_parent_of_walk hnul hlong hsteps (hfront true linkLimit) hparent
    hempty⟩

end CacheUpkeep.FileSystem
