import CacheUpkeep.FileSystem.Resolve

/-!
# Single steps of a walk

What a walk that succeeds has met at the name that it steps down to first, and
how a walk goes on from each of these.
-/

namespace CacheUpkeep.FileSystem

open CacheUpkeep.Path

variable {fs : FileSystem} {follow : Bool} {dir : Location} {node : Node} {target : Path}
  {rest : List Step} {place : Place} {name : String}
  {jump : Path → Location → List Step → Except IoError Place}

inductive StepsDown (fs : FileSystem) (follow : Bool)
    (jump : Path → Location → List Step → Except IoError Place) (dir : Location) (name : String)
    (rest : List Step) : Place → Prop where
  | free (hnode : fs.node? (dir ++ [name]) = none) (hlast : rest = []) :
      StepsDown fs follow jump dir name rest (.absent dir name)
  | enters {place : Place} (hnode : fs.node? (dir ++ [name]) = some .directory)
      (hwalk : fs.walkWith follow jump (dir ++ [name]) rest = .ok place) :
      StepsDown fs follow jump dir name rest place
  | ends {node : Node} (hnode : fs.node? (dir ++ [name]) = some node) (hne : node ≠ .directory)
      (hlink : ∀ target, node = .link target → follow = false) (hlast : rest = []) :
      StepsDown fs follow jump dir name rest (.present (dir ++ [name]) node)
  | jumps {target : Path} {place : Place} (hnode : fs.node? (dir ++ [name]) = some (.link target))
      (hmore : (rest.isEmpty && !follow) = false) (hjump : jump target dir rest = .ok place) :
      StepsDown fs follow jump dir name rest place

theorem walkWith_directory (hnode : fs.node? (dir ++ [name]) = some .directory) :
    fs.walkWith follow jump dir (.down name :: rest) =
      fs.walkWith follow jump (dir ++ [name]) rest := by
  simp only [walkWith, hnode]

theorem walkWith_link (hnode : fs.node? (dir ++ [name]) = some (.link target))
    (hmore : (rest.isEmpty && !follow) = false) :
    fs.walkWith follow jump dir (.down name :: rest) = jump target dir rest := by
  simp only [walkWith, hnode, hmore, Bool.false_eq_true, if_false]

theorem walkWith_last (hnode : fs.node? (dir ++ [name]) = some node) (hne : node ≠ .directory)
    (hlink : ∀ target, node = .link target → follow = false) :
    fs.walkWith follow jump dir [.down name] = .ok (.present (dir ++ [name]) node) := by
  cases node with
  | directory => exact absurd rfl hne
  | file id content executable => simp [walkWith, hnode]
  | sink id => simp [walkWith, hnode]
  | link target => simp [walkWith, hnode, hlink target rfl]

theorem stepsDown_of_walkWith
    (hwalk : fs.walkWith follow jump dir (.down name :: rest) = .ok place) :
    StepsDown fs follow jump dir name rest place := by
  cases hnode : fs.node? (dir ++ [name]) with
  | none =>
      simp only [walkWith, hnode] at hwalk
      split at hwalk
      · cases hwalk
      · split at hwalk
        · next hlast =>
            cases hwalk
            exact .free hnode (List.isEmpty_iff.mp hlast)
        · cases hwalk
  | some node =>
      cases node with
      | directory =>
          rw [walkWith_directory hnode] at hwalk
          exact .enters hnode hwalk
      | file id content executable =>
          simp only [walkWith, hnode] at hwalk
          split at hwalk
          · next hlast =>
              cases hwalk
              exact .ends hnode (by simp) (by simp) (List.isEmpty_iff.mp hlast)
          · cases hwalk
      | sink id =>
          simp only [walkWith, hnode] at hwalk
          split at hwalk
          · next hlast =>
              cases hwalk
              exact .ends hnode (by simp) (by simp) (List.isEmpty_iff.mp hlast)
          · cases hwalk
      | link target =>
          cases hmore : rest.isEmpty && !follow with
          | true =>
              simp only [walkWith, hnode, hmore, if_true] at hwalk
              cases hwalk
              obtain ⟨hlast, hfollow⟩ := Bool.and_eq_true_iff.mp hmore
              exact .ends hnode (by simp) (fun _ _ => by simpa using hfollow)
                (List.isEmpty_iff.mp hlast)
          | false =>
              rw [walkWith_link hnode hmore] at hwalk
              exact .jumps hnode hmore hwalk

end CacheUpkeep.FileSystem
