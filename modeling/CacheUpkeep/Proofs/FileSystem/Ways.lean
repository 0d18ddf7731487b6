import CacheUpkeep.Proofs.FileSystem.Lookup
import CacheUpkeep.Proofs.Path.Ways

/-!
# Directories at the end of a way

Which directory a path names depends on the turns that it makes, not on how it is spelt.
-/

namespace CacheUpkeep.FileSystem

open CacheUpkeep.Path

variable {fs : FileSystem} {dir location : Location} {steps : List Step} {p q : Path}
  {links : Nat} {name : String}

private theorem walkWith_moves {jump jump' : Path → Location → List Step → Except IoError Place}
    (hjump : ∀ {target dir rest}, jump target dir rest = .ok (.present location .directory) ↔
      jump' target dir (moves rest) = .ok (.present location .directory)) :
    fs.walkWith true jump dir steps = .ok (.present location .directory) ↔
      fs.walkWith true jump' dir (moves steps) = .ok (.present location .directory) := by
  -- This holds of directories only: at a file even a step that stays fails.
  induction steps generalizing dir with
  | nil => exact Iff.rfl
  | cons step rest ih =>
      cases step with
      | here => exact ih
      | up => exact ih
      | down name =>
          rw [moves_down]
          constructor
          · intro hwalk
            cases stepsDown_of_walkWith hwalk with
            | enters hnode hwalk =>
                rw [walkWith_directory hnode]
                exact ih.mp hwalk
            | ends hnode hne => exact absurd rfl hne
            | jumps hnode hmore hjumps =>
                rw [walkWith_link hnode (by simp)]
                exact hjump.mp hjumps
          · intro hwalk
            cases stepsDown_of_walkWith hwalk with
            | enters hnode hwalk =>
                rw [walkWith_directory hnode]
                exact ih.mpr hwalk
            | ends hnode hne => exact absurd rfl hne
            | jumps hnode hmore hjumps =>
                rw [walkWith_link hnode (by simp)]
                exact hjump.mpr hjumps

theorem walk_moves :
    fs.walk true links dir steps = .ok (.present location .directory) ↔
      fs.walk true links dir (moves steps) = .ok (.present location .directory) := by
  induction links generalizing dir steps with
  | zero => exact walkWith_moves (by simp)
  | succ links ih =>
      refine walkWith_moves fun {target dir rest} => ?_
      split
      · simp
      · rw [ih, @ih _ (lookupSteps target ++ moves rest)]
        simp

theorem directoryAt?_iff_turns :
    fs.directoryAt? p = some dir ↔
      (p.hasNul = false ∧ p.isEmpty = false ∧ isTooLong p = false) ∧
        fs.walk true linkLimit (startOf fs.here p) p.turns = .ok (.present dir .directory) := by
  have hsteps : moves (lookupSteps p) = p.turns := by
    unfold lookupSteps
    split
    · simp [turns]
    · rfl
  rw [directoryAt?_eq_some_iff, stat, find_eq_ok_iff, place_eq_ok_iff, walk_moves, hsteps]

theorem directoryAt?_of_sameWay (hsame : p.SameWay q) (hempty : q.isEmpty = false)
    (hlong : isTooLong q = false) (hdir : fs.directoryAt? p = some dir) :
    fs.directoryAt? q = some dir := by
  rw [directoryAt?_iff_turns] at hdir ⊢
  obtain ⟨⟨hnul, -, -⟩, hwalk⟩ := hdir
  refine ⟨⟨hsame.hasNul_eq ▸ hnul, hempty, hlong⟩, ?_⟩
  rw [startOf, ← hsame.isAbsolute_eq, ← hsame.turns_eq]
  exact hwalk

theorem directoryAt?_of_child (hp : p.isEmpty = false) (hname : IsName name)
    (hdir : fs.directoryAt? (p.child name) = some location) :
    ∃ dir node, fs.directoryAt? p = some dir ∧ fs.node? (dir ++ [name]) = some node := by
  obtain ⟨⟨hnul, -, hlong⟩, hwalk⟩ := directoryAt?_walk hdir
  have habs : (p.child name).isAbsolute = p.isAbsolute :=
    isAbsolute_join hp (isAbsolute_single name) (by simp)
  have hstart : startOf fs.here (p.child name) = startOf fs.here p := by
    simp only [startOf, habs]
  rw [hstart, steps_child hp hname] at hwalk
  obtain ⟨above, left, hfront, hlast⟩ := walk_append_eq_ok (by simp) hwalk
  have hnul' : p.hasNul = false := by
    rw [child, hasNul_join hp (isAbsolute_single name)] at hnul
    exact (Bool.or_eq_false_iff.mp hnul).1
  have hlong' : isTooLong p = false :=
    Bool.eq_false_iff.mpr fun h => Bool.eq_false_iff.mp hlong (isTooLong_child hp h)
  have habove : fs.directoryAt? p = some above :=
    directoryAt?_iff_turns.mpr ⟨⟨hnul', hp, hlong'⟩, walk_moves.mp hfront⟩
  cases hnode : fs.node? (above ++ [name]) with
  | some node => exact ⟨above, node, habove, hnode⟩
  | none =>
      rw [walk_down (by simp [hnode]), entryIn, hnode] at hlast
      dsimp only at hlast
      split at hlast
      · cases hlast
      · cases hlast

end CacheUpkeep.FileSystem
