import CacheUpkeep.Proofs.FileSystem.Removal
import CacheUpkeep.Proofs.FileSystem.Walk
import CacheUpkeep.Proofs.Path

/-!
# Looking up paths

What a path names does not change when a file system is extended, and what the
entry of a directory names is decided by the directory alone.  So the paths that
are made by stepping down from one directory name locations below it.
-/

namespace CacheUpkeep.FileSystem

open CacheUpkeep.Path

variable {fs big small : FileSystem} {follow : Bool} {dir location : Location} {node : Node}
  {steps rest : List Step} {p : Path} {name : String}

/-! ## Extensions -/

def Meets (node found : Node) : Prop :=
  found = node ∨ found = .directory ∨ ∃ target, found = .link target

private theorem walkWith_mono {jump jump' : Path → Location → List Step → Except IoError Place}
    (h : ∀ {l found}, small.node? l = some found → Meets node found → big.node? l = some found)
    (hjump : ∀ {target dir rest}, jump target dir rest = .ok (.present location node) →
      jump' target dir rest = .ok (.present location node))
    (hwalk : small.walkWith follow jump dir steps = .ok (.present location node)) :
    big.walkWith follow jump' dir steps = .ok (.present location node) := by
  induction steps generalizing dir with
  | nil => simpa only [walkWith] using hwalk
  | cons step rest ih =>
      cases step with
      | here => exact ih hwalk
      | up => exact ih hwalk
      | down name =>
          cases stepsDown_of_walkWith hwalk with
          | enters hnode hwalk =>
              rw [walkWith_directory (h hnode (.inr (.inl rfl)))]
              exact ih hwalk
          | ends hnode hne hlink hlast =>
              subst hlast
              exact walkWith_last (h hnode (.inl rfl)) hne hlink
          | jumps hnode hmore hjumps =>
              rw [walkWith_link (h hnode (.inr (.inr ⟨_, rfl⟩))) hmore]
              exact hjump hjumps

theorem walk_mono
    (h : ∀ {l found}, small.node? l = some found → Meets node found → big.node? l = some found)
    {links : Nat}
    (hwalk : small.walk follow links dir steps = .ok (.present location node)) :
    big.walk follow links dir steps = .ok (.present location node) := by
  induction links generalizing dir steps with
  | zero => exact walkWith_mono h (fun hjump => hjump) hwalk
  | succ links ih =>
      refine walkWith_mono h ?_ hwalk
      intro target dir rest hjump
      split at hjump
      · contradiction
      · next htarget =>
          rw [if_neg htarget]
          exact ih hjump

theorem find_eq_ok_iff :
    fs.find follow p = .ok (location, node) ↔
      fs.place follow p (lookupSteps p) = .ok (.present location node) := by
  unfold find
  cases hplace : fs.place follow p (lookupSteps p) with
  | error e =>
      constructor
      · intro h
        cases h
      · intro h
        cases h
  | ok place =>
      cases place with
      | absent directory name =>
          constructor
          · intro h
            cases h
          · intro h
            cases h
      | present found here =>
          constructor
          · intro h
            cases h
            rfl
          · intro h
            cases h
            rfl

theorem place_eq_ok_iff {place : Place} :
    fs.place follow p steps = .ok place ↔
      (p.hasNul = false ∧ p.isEmpty = false ∧ isTooLong p = false) ∧
        fs.walk follow linkLimit (startOf fs.here p) steps = .ok place := by
  unfold FileSystem.place
  cases p.hasNul <;> cases p.isEmpty <;> cases isTooLong p <;> simp

theorem find_of_meets (hhere : small.here = big.here)
    (h : ∀ {l found}, small.node? l = some found → Meets node found → big.node? l = some found)
    (hfind : small.find follow p = .ok (location, node)) :
    big.find follow p = .ok (location, node) := by
  rw [find_eq_ok_iff, place_eq_ok_iff] at hfind ⊢
  obtain ⟨hp, hwalk⟩ := hfind
  rw [hhere] at hwalk
  exact ⟨hp, walk_mono h hwalk⟩

theorem find_mono (h : big.Extends small)
    (hfind : small.find follow p = .ok (location, node)) :
    big.find follow p = .ok (location, node) :=
  find_of_meets h.here_eq (fun hnode _ => h.node? hnode) hfind

theorem directoryAt?_eq_some_iff :
    fs.directoryAt? p = some location ↔ fs.stat p = .ok (location, .directory) := by
  unfold directoryAt?
  split <;> simp_all

theorem isDirectory_iff : fs.isDirectory p = true ↔ ∃ dir, fs.directoryAt? p = some dir :=
  Option.isSome_iff_exists

theorem isDirectory_iff_place (hslash : p.endsWithSlash = false) :
    fs.isDirectory p = true ↔
      ∃ location, fs.place true p p.steps = .ok (.present location .directory) := by
  have hsteps : lookupSteps p = p.steps := by simp [lookupSteps, hslash]
  simp only [isDirectory_iff, directoryAt?_eq_some_iff, stat, find_eq_ok_iff, hsteps]

theorem directoryAt?_of_meets (hhere : small.here = big.here)
    (h : ∀ {l found}, small.node? l = some found → Meets .directory found →
      big.node? l = some found)
    (hdir : small.directoryAt? p = some dir) : big.directoryAt? p = some dir :=
  directoryAt?_eq_some_iff.mpr (find_of_meets hhere h (directoryAt?_eq_some_iff.mp hdir))

theorem directoryAt?_mono (h : big.Extends small) (hdir : small.directoryAt? p = some dir) :
    big.directoryAt? p = some dir :=
  directoryAt?_eq_some_iff.mpr (find_mono h (directoryAt?_eq_some_iff.mp hdir))

/-! ## Going on from a directory -/

private theorem walkWith_append {jump jump' : Path → Location → List Step → Except IoError Place}
    (links : Nat) (hrest : rest ≠ [])
    (hbase : fs.walkWith follow jump' location rest = fs.walk follow links location rest)
    (hjump : ∀ {target dir steps}, jump target dir steps = .ok (.present location .directory) →
      ∃ left, jump' target dir (steps ++ rest) = fs.walk follow left location rest)
    (hwalk : fs.walkWith true jump dir steps = .ok (.present location .directory)) :
    ∃ left, fs.walkWith follow jump' dir (steps ++ rest) =
      fs.walk follow left location rest := by
  induction steps generalizing dir with
  | nil =>
      cases hwalk
      exact ⟨links, hbase⟩
  | cons step steps ih =>
      cases step with
      | here => exact ih hwalk
      | up => exact ih hwalk
      | down name =>
          cases stepsDown_of_walkWith hwalk with
          | enters hnode hwalk =>
              rw [List.cons_append, walkWith_directory hnode]
              exact ih hwalk
          | ends hnode hne => exact absurd rfl hne
          | jumps hnode hmore hjumps =>
              rw [List.cons_append, walkWith_link hnode (by simp [hrest])]
              exact hjump hjumps

theorem walk_append {links : Nat} (hrest : rest ≠ [])
    (hwalk : fs.walk true links dir steps = .ok (.present location .directory)) :
    ∃ left, fs.walk follow links dir (steps ++ rest) = fs.walk follow left location rest := by
  induction links generalizing dir steps with
  | zero => exact walkWith_append 0 hrest rfl (fun hjump => by cases hjump) hwalk
  | succ links ih =>
      refine walkWith_append (links + 1) hrest rfl ?_ hwalk
      intro target dir steps hjump
      split at hjump
      · contradiction
      · next htarget =>
          rw [if_neg htarget, ← List.append_assoc]
          exact ih hjump

private theorem walkWith_front {jump jump' : Path → Location → List Step → Except IoError Place}
    {place : Place} (hrest : rest ≠ [])
    (hjump : ∀ {target dir steps}, jump target dir (steps ++ rest) = .ok place →
      ∃ above, jump' target dir steps = .ok (.present above .directory))
    (hwalk : fs.walkWith follow jump dir (steps ++ rest) = .ok place) :
    ∃ above, fs.walkWith true jump' dir steps = .ok (.present above .directory) := by
  induction steps generalizing dir with
  | nil => exact ⟨dir, rfl⟩
  | cons step steps ih =>
      cases step with
      | here => exact ih hwalk
      | up => exact ih hwalk
      | down name =>
          cases stepsDown_of_walkWith hwalk with
          | free hnode hlast => simp [hrest] at hlast
          | enters hnode hwalk =>
              rw [walkWith_directory hnode]
              exact ih hwalk
          | ends hnode hne hlink hlast => simp [hrest] at hlast
          | jumps hnode hmore hjumps =>
              rw [walkWith_link hnode (by simp)]
              exact hjump hjumps

theorem walk_front {links : Nat} {place : Place} (hrest : rest ≠ [])
    (hwalk : fs.walk follow links dir (steps ++ rest) = .ok place) :
    ∃ above, fs.walk true links dir steps = .ok (.present above .directory) := by
  induction links generalizing dir steps with
  | zero => exact walkWith_front hrest (fun hjump => by cases hjump) hwalk
  | succ links ih =>
      refine walkWith_front hrest ?_ hwalk
      intro target dir steps hjump
      split at hjump
      · contradiction
      · next htarget =>
          rw [if_neg htarget]
          rw [← List.append_assoc] at hjump
          exact ih hjump

theorem walk_append_eq_ok {links : Nat} {place : Place} (hrest : rest ≠ [])
    (hwalk : fs.walk follow links dir (steps ++ rest) = .ok place) :
    ∃ above left, fs.walk true links dir steps = .ok (.present above .directory) ∧
      fs.walk follow left above rest = .ok place := by
  obtain ⟨above, hfront⟩ := walk_front hrest hwalk
  obtain ⟨left, hleft⟩ := walk_append hrest hfront
  exact ⟨above, left, hfront, hleft ▸ hwalk⟩

private theorem walkWith_drop_here {jump : Path → Location → List Step → Except IoError Place}
    (hjump : ∀ {target dir steps},
      jump target dir (steps ++ [.here]) = .ok (.present location .directory) →
        jump target dir steps = .ok (.present location .directory))
    (hwalk : fs.walkWith true jump dir (steps ++ [.here]) =
      .ok (.present location .directory)) :
    fs.walkWith true jump dir steps = .ok (.present location .directory) := by
  induction steps generalizing dir with
  | nil => simpa only [walkWith, List.nil_append] using hwalk
  | cons step steps ih =>
      cases step with
      | here => exact ih hwalk
      | up => exact ih hwalk
      | down name =>
          cases stepsDown_of_walkWith hwalk with
          | enters hnode hwalk =>
              rw [walkWith_directory hnode]
              exact ih hwalk
          | ends hnode hne => exact absurd rfl hne
          | jumps hnode hmore hjumps =>
              rw [walkWith_link hnode (by simp)]
              exact hjump hjumps

theorem walk_drop_here {links : Nat}
    (hwalk : fs.walk true links dir (steps ++ [.here]) = .ok (.present location .directory)) :
    fs.walk true links dir steps = .ok (.present location .directory) := by
  induction links generalizing dir steps with
  | zero => exact walkWith_drop_here (fun hjump => hjump) hwalk
  | succ links ih =>
      refine walkWith_drop_here ?_ hwalk
      intro target dir steps hjump
      split at hjump
      · contradiction
      · next htarget =>
          rw [if_neg htarget]
          exact ih (by rwa [List.append_assoc])

def entryIn (fs : FileSystem) (dir : Location) (name : String) : Except IoError Place :=
  match fs.node? (dir ++ [name]) with
  | some node => .ok (.present (dir ++ [name]) node)
  | none => if nameLimit < name.utf8ByteSize then .error .nameTooLong else .ok (.absent dir name)

theorem walk_down {links : Nat} (hlink : ∀ target, fs.node? (dir ++ [name]) ≠ some (.link target)) :
    fs.walk follow links dir [.down name] = fs.entryIn dir name := by
  cases hnode : fs.node? (dir ++ [name]) with
  | none => cases links <;> simp [walk, walkWith, entryIn, hnode]
  | some found =>
      cases found with
      | link target => exact absurd hnode (hlink target)
      | directory => cases links <;> simp [walk, walkWith, entryIn, hnode]
      | file id content executable => cases links <;> simp [walk, walkWith, entryIn, hnode]
      | sink id => cases links <;> simp [walk, walkWith, entryIn, hnode]

/-! ## Ways that only lead down -/

private theorem walkWith_descend {jump jump' : Path → Location → List Step → Except IoError Place}
    (hlinks : ∀ l target, big.node? l ≠ some (.link target)) (hup : .up ∉ steps)
    (hsmall : ∀ l, l <+: location → big.node? l = some .directory →
      small.node? l = some .directory)
    (hwalk : big.walkWith follow jump dir steps = .ok (.present location .directory)) :
    dir <+: location ∧
      small.walkWith follow jump' dir steps = .ok (.present location .directory) := by
  induction steps generalizing dir with
  | nil =>
      cases hwalk
      exact ⟨List.prefix_rfl, rfl⟩
  | cons step steps ih =>
      have hrest : .up ∉ steps := fun h => hup (List.mem_cons_of_mem _ h)
      cases step with
      | here => exact ih hrest hwalk
      | up => exact absurd List.mem_cons_self hup
      | down name =>
          cases stepsDown_of_walkWith hwalk with
          | enters hnode hwalk =>
              obtain ⟨hbelow, hwalk⟩ := ih hrest hwalk
              rw [walkWith_directory (hsmall _ hbelow hnode)]
              exact ⟨(List.prefix_append dir [name]).trans hbelow, hwalk⟩
          | ends hnode hne => exact absurd rfl hne
          | jumps hnode => exact absurd hnode (hlinks _ _)

theorem directoryAt?_of_descend (hhere : small.here = big.here)
    (hlinks : ∀ l target, big.node? l ≠ some (.link target)) (hup : .up ∉ p.steps)
    (hsmall : ∀ l, l <+: location → big.node? l = some .directory →
      small.node? l = some .directory)
    (hdir : big.directoryAt? p = some location) : small.directoryAt? p = some location := by
  rw [directoryAt?_eq_some_iff, stat, find_eq_ok_iff, place_eq_ok_iff] at hdir ⊢
  obtain ⟨hp, hwalk⟩ := hdir
  refine ⟨hp, ?_⟩
  have hup' : .up ∉ lookupSteps p := by
    unfold lookupSteps
    split
    · simpa using hup
    · exact hup
  rw [hhere]
  exact (walkWith_descend hlinks hup' hsmall hwalk).2

/-! ## Children of a path -/

theorem directoryAt?_walk (hdir : fs.directoryAt? p = some dir) :
    (p.hasNul = false ∧ p.isEmpty = false ∧ isTooLong p = false) ∧
      fs.walk true linkLimit (startOf fs.here p) p.steps = .ok (.present dir .directory) := by
  have hfind := find_eq_ok_iff.mp (directoryAt?_eq_some_iff.mp hdir)
  obtain ⟨hp, hwalk⟩ := place_eq_ok_iff.mp hfind
  refine ⟨hp, ?_⟩
  unfold lookupSteps at hwalk
  split at hwalk
  · exact walk_drop_here hwalk
  · exact hwalk

theorem walk_join (follow : Bool) (hdir : fs.directoryAt? p = some dir) {q : Path}
    (hq : q.isAbsolute = false) (hsteps : q.steps ≠ []) :
    ∃ left, fs.walk follow linkLimit (startOf fs.here (p.join q)) (p.join q).steps =
      fs.walk follow left dir q.steps := by
  obtain ⟨⟨-, hempty, -⟩, hwalk⟩ := directoryAt?_walk hdir
  have hne : q.segments ≠ [] := by
    intro hnil
    exact hsteps (by simp [Path.steps, hnil])
  have hstart : startOf fs.here (p.join q) = startOf fs.here p := by
    simp only [startOf, isAbsolute_join hempty hq hne]
  rw [hstart, steps_join hempty hq]
  exact walk_append hsteps hwalk

theorem place_child (hdir : fs.directoryAt? p = some dir) (hname : IsName name)
    (hlink : ∀ target, fs.node? (dir ++ [name]) ≠ some (.link target)) :
    fs.place follow (p.child name) (p.child name).steps =
      if isTooLong (p.child name) then .error .nameTooLong else fs.entryIn dir name := by
  obtain ⟨⟨hnul, hempty, -⟩, -⟩ := directoryAt?_walk hdir
  have hsingle : (⟨[name]⟩ : Path).steps = [.down name] := by
    simp [Path.steps, stepOf_name hname]
  obtain ⟨left, hleft⟩ := walk_join follow hdir (isAbsolute_single name) (by simp [hsingle])
  rw [hsingle, walk_down hlink] at hleft
  have hnul' : (p.child name).hasNul = false := by
    rw [child, hasNul_join hempty (isAbsolute_single name), hnul, hasNul_single hname]
    rfl
  have hempty' : (p.child name).isEmpty = false :=
    isEmpty_join hempty (isAbsolute_single name) (by simp)
  simp only [FileSystem.place, hnul', hempty', Bool.false_eq_true, if_false]
  split
  · rfl
  · exact hleft

theorem place_child_eq_ok {place : Place} (hdir : fs.directoryAt? p = some dir)
    (hname : IsName name) (hlink : ∀ target, fs.node? (dir ++ [name]) ≠ some (.link target))
    (hplace : fs.place follow (p.child name) (p.child name).steps = .ok place) :
    isTooLong (p.child name) = false ∧
      ((∃ node, fs.node? (dir ++ [name]) = some node ∧ place = .present (dir ++ [name]) node) ∨
        fs.node? (dir ++ [name]) = none ∧ place = .absent dir name) := by
  rw [place_child hdir hname hlink] at hplace
  split at hplace
  · cases hplace
  · next hshort =>
      refine ⟨by simpa using hshort, ?_⟩
      unfold entryIn at hplace
      split at hplace
      · next node hnode =>
          cases hplace
          exact .inl ⟨node, hnode, rfl⟩
      · next hfree =>
          split at hplace
          · cases hplace
          · cases hplace
            exact .inr ⟨hfree, rfl⟩

theorem find_child (follow : Bool) (hdir : fs.directoryAt? p = some dir) (hname : IsName name)
    (hlink : ∀ target, fs.node? (dir ++ [name]) ≠ some (.link target)) :
    fs.find follow (p.child name) =
      if isTooLong (p.child name) then .error .nameTooLong
      else match fs.node? (dir ++ [name]) with
        | some node => .ok (dir ++ [name], node)
        | none => .error (if nameLimit < name.utf8ByteSize then .nameTooLong else .notFound) := by
  obtain ⟨⟨-, hempty, -⟩, -⟩ := directoryAt?_walk hdir
  have hslash : lookupSteps (p.child name) = (p.child name).steps := by
    simp [lookupSteps, endsWithSlash_child hempty hname]
  unfold FileSystem.find
  rw [hslash, place_child hdir hname hlink]
  split
  · rfl
  · unfold entryIn
    cases hnode : fs.node? (dir ++ [name]) with
    | some node => rfl
    | none =>
        dsimp only
        split <;> rfl

theorem directoryAt?_child (hdir : fs.directoryAt? p = some dir) (hname : IsName name)
    (hlink : ∀ target, fs.node? (dir ++ [name]) ≠ some (.link target)) :
    fs.directoryAt? (p.child name) = some location ↔
      isTooLong (p.child name) = false ∧ fs.node? (dir ++ [name]) = some .directory ∧
        location = dir ++ [name] := by
  rw [directoryAt?_eq_some_iff, stat, find_child true hdir hname hlink]
  cases isTooLong (p.child name) with
  | true => simp
  | false =>
      cases hnode : fs.node? (dir ++ [name]) with
      | none => simp
      | some node => simp [eq_comm, and_comm]

theorem linkStat_child (hdir : fs.directoryAt? p = some dir) (hname : IsName name)
    (hstat : fs.linkStat (p.child name) = .ok (location, node)) : location = dir ++ [name] := by
  obtain ⟨⟨-, hempty, -⟩, -⟩ := directoryAt?_walk hdir
  have hsingle : (⟨[name]⟩ : Path).steps = [.down name] := by
    simp [Path.steps, stepOf_name hname]
  have hslash : lookupSteps (p.child name) = (p.child name).steps := by
    simp [lookupSteps, endsWithSlash_child hempty hname]
  obtain ⟨left, hleft⟩ := walk_join false hdir (isAbsolute_single name) (by simp [hsingle])
  obtain ⟨-, hwalk⟩ := place_eq_ok_iff.mp (find_eq_ok_iff.mp hstat)
  rw [hslash, child, hleft, hsingle] at hwalk
  obtain ⟨jump, hjump⟩ : ∃ jump, fs.walk false left dir [.down name] =
      fs.walkWith false jump dir [.down name] := by
    cases left with
    | zero => exact ⟨_, rfl⟩
    | succ left => exact ⟨_, rfl⟩
  rw [hjump] at hwalk
  cases stepsDown_of_walkWith hwalk with
  | enters hnode hwalk =>
      cases hwalk
      rfl
  | ends hnode hne hlink hlast => rfl
  | jumps hnode hmore hjumps => cases hmore

theorem directoryAt?_child_or_link (hdir : fs.directoryAt? p = some dir) (hname : IsName name)
    (hchild : fs.directoryAt? (p.child name) = some location) :
    location = dir ++ [name] ∨ ∃ target, fs.node? (dir ++ [name]) = some (.link target) := by
  by_cases hlink : ∃ target, fs.node? (dir ++ [name]) = some (.link target)
  · exact .inr hlink
  · have hplain : ∀ target, fs.node? (dir ++ [name]) ≠ some (.link target) :=
      fun target hnode => hlink ⟨target, hnode⟩
    exact .inl ((directoryAt?_child hdir hname hplain).mp hchild).2.2

/-! ## Reading -/

theorem fromUTF8?_toUTF8 (text : String) : String.fromUTF8? text.toUTF8 = some text :=
  dif_pos text.isValidUTF8

theorem readText_of_error {e : IoError} (h : fs.find true p = .error e) :
    fs.readText p = .error e := by
  unfold readText readBytes stat
  rw [h]
  rfl

theorem readText_of_file {id : Nat} {content : ByteArray} {executable : Bool}
    (h : fs.find true p = .ok (location, .file id content executable)) :
    fs.readText p =
      match String.fromUTF8? content with
      | some text => .ok text
      | none => .error .notUtf8 := by
  unfold readText readBytes stat
  rw [h]
  rfl

theorem readText_of_sink {id : Nat} (h : fs.find true p = .ok (location, .sink id)) :
    fs.readText p = .ok "" := by
  unfold readText readBytes stat
  rw [h]
  rfl

theorem readText_of_directory (h : fs.find true p = .ok (location, .directory)) :
    fs.readText p = .error .isDirectory := by
  unfold readText readBytes stat
  rw [h]
  rfl

theorem readText_mono {text : String} (h : big.Extends small)
    (hread : small.readText p = .ok text) : big.readText p = .ok text := by
  cases hfind : small.find true p with
  | error e =>
      rw [readText_of_error hfind] at hread
      cases hread
  | ok found =>
      obtain ⟨location, node⟩ := found
      have hbig := find_mono h hfind
      rw [readText, readBytes, stat, hfind] at hread
      rw [readText, readBytes, stat, hbig]
      exact hread

theorem list_of_directory (h : fs.directoryAt? p = some dir) :
    fs.list p = .ok (fs.namesIn dir) := by
  unfold list
  rw [directoryAt?_eq_some_iff.mp h]
  rfl

end CacheUpkeep.FileSystem
