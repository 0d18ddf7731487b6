import CacheUpkeep.Proofs.FileSystem.Lookup
import CacheUpkeep.Proofs.Path.Ancestors

/-!
# Walks that lead down

Where no links stand, a path that leads down from a directory names the location
that its names spell, or a free name in a directory on the way there.
-/

namespace CacheUpkeep.FileSystem

open CacheUpkeep.Path

variable {fs : FileSystem} {follow : Bool} {dir location : Location} {node : Node}
  {steps heres : List Step} {p q : Path} {place : Place} {links : Nat}

/-! ## Steps that stay -/

theorem walk_heres (hheres : ∀ step ∈ heres, step = .here) :
    fs.walk follow links dir heres = .ok (.present dir .directory) := by
  have hwalk : ∀ jump, fs.walkWith follow jump dir heres = .ok (.present dir .directory) := by
    intro jump
    induction heres with
    | nil => rfl
    | cons step rest ih =>
        obtain rfl := hheres step List.mem_cons_self
        exact ih fun step hstep => hheres step (List.mem_cons_of_mem _ hstep)
  cases links <;> exact hwalk _

theorem walk_drop_heres (hheres : ∀ step ∈ heres, step = .here)
    (hwalk : fs.walk true links dir (steps ++ heres) = .ok (.present location .directory)) :
    fs.walk true links dir steps = .ok (.present location .directory) := by
  induction heres using List.reverseRecOn with
  | nil => simpa using hwalk
  | append_singleton heres step ih =>
      obtain rfl := hheres step (by simp)
      rw [← List.append_assoc] at hwalk
      exact ih (fun step hstep => hheres step (List.mem_append_left _ hstep))
        (walk_drop_here hwalk)

theorem walk_add_heres (hheres : ∀ step ∈ heres, step = .here)
    (hwalk : fs.walk true links dir steps = .ok (.present location .directory)) :
    fs.walk true links dir (steps ++ heres) = .ok (.present location .directory) := by
  by_cases hnil : heres = []
  · rw [hnil, List.append_nil, hwalk]
  · obtain ⟨left, hleft⟩ := walk_append hnil hwalk
    rw [hleft, walk_heres hheres]

theorem walk_end_here (hwalk : fs.walk follow links dir (steps ++ [.here]) = .ok place) :
    ∃ above, place = .present above .directory := by
  obtain ⟨above, left, -, hlast⟩ := walk_append_eq_ok (by simp) hwalk
  rw [walk_heres (by simp)] at hlast
  cases hlast
  exact ⟨above, rfl⟩

theorem directoryAt?_parent {name : String} (hdir : fs.directoryAt? p = some dir)
    (hname : IsName name) :
    ∃ parent, (p.child name).parent? = some parent ∧ fs.directoryAt? parent = some dir := by
  obtain ⟨⟨hnul, hempty, hlong⟩, hwalk⟩ := directoryAt?_walk hdir
  have hstem := stem_ne_nil hempty
  have hnotBlank : ¬ IsBlank name := by
    rintro (rfl | rfl)
    · exact hname.1 rfl
    · exact hname.2.1 rfl
  obtain ⟨heres, hsteps, hheres⟩ := steps_ofFront_stem p
  have hstart : startOf fs.here (ofFront p.stem) = startOf fs.here p := by
    rw [startOf, startOf, isAbsolute_ofFront_stem hempty]
  have hparent : fs.walk true linkLimit (startOf fs.here (ofFront p.stem)) (ofFront p.stem).steps =
      .ok (.present dir .directory) := by
    rw [hstart]
    rw [hsteps] at hwalk
    exact walk_drop_heres hheres hwalk
  obtain ⟨rest, hrest⟩ : ∃ rest, p = ⟨p.stem ++ rest⟩ := by
    rcases p.segments_eq with h | h
    · exact ⟨[], by rw [List.append_nil, ← h]⟩
    · exact ⟨[""], by rw [← h]⟩
  rw [hrest] at hnul hlong
  refine ⟨ofFront p.stem, parent?_eq (by rw [child_eq hempty]) hstem hnotBlank (by simp),
    directoryAt?_eq_some_iff.mpr (find_eq_ok_iff.mpr (place_eq_ok_iff.mpr
      ⟨⟨hasNul_ofFront hnul, isEmpty_ofFront hstem, isTooLong_ofFront hlong⟩, ?_⟩))⟩
  unfold lookupSteps
  split
  · exact walk_add_heres (by simp) hparent
  · exact hparent

theorem directoryAt?_parent_of_walk {front : List Step} {name : String} {parent : Path}
    (hnul : p.hasNul = false) (hlong : isTooLong p = false)
    (hsteps : p.steps = front ++ [.down name])
    (hwalk : fs.walk true linkLimit (startOf fs.here p) front = .ok (.present dir .directory))
    (hparent : p.parent? = some parent) (hempty : parent.isEmpty = false) :
    fs.directoryAt? parent = some dir := by
  rcases parent?_cases p with hnone | hnone | ⟨segments, last, blanks, hsegments, hne, hlast,
    hblanks, hfound⟩
  · rw [hnone] at hparent
    cases hparent
  · rw [hnone] at hparent
    cases hparent
    cases hempty
  · rw [hfound] at hparent
    cases hparent
    have hp : p = ⟨segments ++ last :: blanks⟩ := by rw [← hsegments]
    rw [hp] at hnul hlong hsteps
    obtain ⟨heres, hstay, hheres⟩ := steps_ofFront segments
    have hstart : startOf fs.here (ofFront segments) = startOf fs.here p := by
      rw [startOf, startOf, isAbsolute_ofFront hne (List.cons_ne_nil last blanks), ← hp]
    have hfront : fs.walk true linkLimit (startOf fs.here (ofFront segments))
        (ofFront segments).steps = .ok (.present dir .directory) := by
      rw [hstart]
      refine walk_drop_heres hheres ?_
      rw [← hstay, steps_of_segments hlast hblanks hsteps]
      exact hwalk
    refine directoryAt?_eq_some_iff.mpr (find_eq_ok_iff.mpr (place_eq_ok_iff.mpr
      ⟨⟨hasNul_ofFront hnul, isEmpty_ofFront hne, isTooLong_ofFront hlong⟩, ?_⟩))
    unfold lookupSteps
    split
    · exact walk_add_heres (by simp) hfront
    · exact hfront

/-! ## Links at the end -/

private theorem walkWith_unfollowed
    {jump jump' : Path → Location → List Step → Except IoError Place}
    (hjump : ∀ {target dir rest l found}, jump target dir rest = .ok (.present l found) →
      ∃ l' found', jump' target dir rest = .ok (.present l' found'))
    (hwalk : fs.walkWith true jump dir steps = .ok (.present location node)) :
    ∃ l found, fs.walkWith false jump' dir steps = .ok (.present l found) := by
  induction steps generalizing dir with
  | nil => exact ⟨dir, .directory, rfl⟩
  | cons step rest ih =>
      cases step with
      | here => exact ih hwalk
      | up => exact ih hwalk
      | down name =>
          cases stepsDown_of_walkWith hwalk with
          | enters hnode hwalk =>
              rw [walkWith_directory hnode]
              exact ih hwalk
          | ends hnode hne hlink hlast =>
              subst hlast
              exact ⟨_, _, walkWith_last hnode hne fun _ _ => rfl⟩
          | @jumps target _ hnode hmore hjumps =>
              by_cases hlast : rest = []
              · subst hlast
                exact ⟨_, _, walkWith_last hnode (by simp) fun _ _ => rfl⟩
              · rw [walkWith_link hnode (by simp [hlast])]
                exact hjump hjumps

theorem walk_unfollowed (hwalk : fs.walk true links dir steps = .ok (.present location node)) :
    ∃ l found, fs.walk false links dir steps = .ok (.present l found) := by
  induction links generalizing dir steps location node with
  | zero => exact walkWith_unfollowed (fun hjump => by cases hjump) hwalk
  | succ links ih =>
      refine walkWith_unfollowed ?_ hwalk
      intro target dir rest l found hjump
      split at hjump
      · contradiction
      · next htarget =>
          rw [if_neg htarget]
          exact ih hjump

/-! ## Steps down -/

/-- What stands, or could stand, at the end of a way down from a directory. -/
def LiesDown (fs : FileSystem) (dir names : Location) : Place → Prop
  | .present location node => location = dir ++ names ∧ fs.node? location = some node
  | .absent above name =>
      above ++ [name] = dir ++ names ∧ fs.node? above = some .directory ∧
        fs.node? (above ++ [name]) = none

private theorem walkWith_liesDown {jump : Path → Location → List Step → Except IoError Place}
    (hup : .up ∉ steps) (hlinks : ∀ below target, fs.node? (dir ++ below) ≠ some (.link target))
    (hdir : fs.node? dir = some .directory)
    (hwalk : fs.walkWith follow jump dir steps = .ok place) :
    LiesDown fs dir (steps.filterMap Step.name?) place := by
  induction steps generalizing dir with
  | nil =>
      cases hwalk
      exact ⟨by simp, hdir⟩
  | cons step rest ih =>
      have hrest : .up ∉ rest := fun h => hup (List.mem_cons_of_mem _ h)
      cases step with
      | here => exact ih hrest hlinks hdir hwalk
      | up => exact absurd List.mem_cons_self hup
      | down name =>
          cases stepsDown_of_walkWith hwalk with
          | free hnode hlast =>
              subst hlast
              exact ⟨rfl, hdir, hnode⟩
          | enters hnode hwalk =>
              have h := ih hrest (fun below target => by
                rw [List.append_assoc]
                exact hlinks _ target) hnode hwalk
              have hnames : dir ++ (.down name :: rest).filterMap Step.name? =
                  dir ++ [name] ++ rest.filterMap Step.name? := by
                simp [Step.name?]
              unfold LiesDown at h ⊢
              rw [hnames]
              exact h
          | ends hnode hne hlink hlast =>
              subst hlast
              exact ⟨rfl, hnode⟩
          | jumps hnode => exact absurd hnode (hlinks [name] _)

theorem walk_liesDown (hup : .up ∉ steps)
    (hlinks : ∀ below target, fs.node? (dir ++ below) ≠ some (.link target))
    (hdir : fs.node? dir = some .directory) (hwalk : fs.walk follow links dir steps = .ok place) :
    LiesDown fs dir (steps.filterMap Step.name?) place := by
  cases links with
  | zero => exact walkWith_liesDown hup hlinks hdir hwalk
  | succ links => exact walkWith_liesDown hup hlinks hdir hwalk

theorem place_join (hdir : fs.directoryAt? p = some dir)
    (hlinks : ∀ below target, fs.node? (dir ++ below) ≠ some (.link target))
    (hnode : fs.node? dir = some .directory) (hq : q.isAbsolute = false) (hup : .up ∉ q.steps)
    (hsteps : q.steps ≠ [])
    (hplace : fs.place follow (p.join q) (p.join q).steps = .ok place) :
    LiesDown fs dir q.names place := by
  obtain ⟨-, hwalk⟩ := place_eq_ok_iff.mp hplace
  obtain ⟨left, hleft⟩ := walk_join follow hdir hq hsteps
  rw [hleft] at hwalk
  exact walk_liesDown hup hlinks hnode hwalk

end CacheUpkeep.FileSystem
