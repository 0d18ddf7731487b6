import CacheUpkeep.Proofs.FileSystem.Opening

/-!
# Writing files

What was written to a file is there when its path is looked up again, and writing the
same content again changes nothing.
-/

namespace CacheUpkeep.FileSystem

open CacheUpkeep.Path

variable {fs big : FileSystem} {follow : Bool} {dir location : Location} {node : Node}
  {content : ByteArray} {steps : List Step} {p parent : Path} {links : Nat}

/-! ## The way to a file -/

theorem place_above (hplace : fs.place true p p.steps = .ok (.present location node))
    (hne : node ≠ .directory) :
    ∃ front above name, p.steps = front ++ [.down name] ∧
      fs.walk true linkLimit (startOf fs.here p) front = .ok (.present above .directory) := by
  obtain ⟨-, hwalk⟩ := place_eq_ok_iff.mp hplace
  rcases List.eq_nil_or_concat' p.steps with hnil | ⟨front, last, hsteps⟩
  · rw [hnil, walk_heres (by simp)] at hwalk
    cases hwalk
    exact absurd rfl hne
  · rw [hsteps] at hwalk
    obtain ⟨above, left, hfront, hlast⟩ := walk_append_eq_ok (by simp) hwalk
    cases last with
    | down name => exact ⟨front, above, name, hsteps, hfront⟩
    | here =>
        obtain ⟨_, heq⟩ := walk_end_here hwalk
        cases heq
        exact absurd rfl hne
    | up =>
        have hup : fs.walk true left above [.up] = .ok (.present above.dropLast .directory) := by
          cases left <;> rfl
        rw [hup] at hlast
        cases hlast
        exact absurd rfl hne

theorem directoryAt?_parent_of_present
    (hplace : fs.place true p p.steps = .ok (.present location node)) (hne : node ≠ .directory)
    (hparent : p.parent? = some parent) (hempty : parent.isEmpty = false) :
    ∃ above, fs.directoryAt? parent = some above := by
  obtain ⟨front, above, name, hsteps, hfront⟩ := place_above hplace hne
  obtain ⟨⟨hnul, -, hlong⟩, -⟩ := place_eq_ok_iff.mp hplace
  exact ⟨above, directoryAt?_parent_of_walk hnul hlong hsteps hfront hparent hempty⟩

theorem makeDirectories_of_present
    (hplace : fs.place true p p.steps = .ok (.present location node)) (hne : node ≠ .directory)
    (hparent : p.parent? = some parent) : (makeDirectories parent).outcome fs = (.ok (), fs) := by
  cases hempty : parent.isEmpty with
  | true =>
      unfold makeDirectories ancestors ancestorsWithin makeChain
      rw [if_pos hempty]
      rfl
  | false =>
      obtain ⟨above, habove⟩ := directoryAt?_parent_of_present hplace hne hparent hempty
      exact makeDirectories_existing habove

/-! ## New content -/

def Place.withContent (location : Location) (content : ByteArray) : Place → Place
  | .present l node =>
      .present l (if l = location then FileSystem.withContent content node else node)
  | .absent dir name => .absent dir name

private theorem walkWith_setContent
    {jump jump' : Path → Location → List Step → Except IoError Place}
    (hjump : ∀ target dir rest, jump' target dir rest =
      (jump target dir rest).map (Place.withContent location content))
    (dir : Location) (steps : List Step) :
    (fs.setContent location content).walkWith follow jump' dir steps =
      (fs.walkWith follow jump dir steps).map (Place.withContent location content) := by
  -- Walks turn on the kinds of nodes, which stay; the content shows at their ends only.
  induction steps generalizing dir with
  | nil => simp [walkWith, Except.map, Place.withContent, FileSystem.withContent]
  | cons step rest ih =>
      cases step with
      | here => exact ih dir
      | up => exact ih dir.dropLast
      | down name =>
          cases hnode : fs.node? (dir ++ [name]) with
          | none =>
              simp only [walkWith, node?_setContent, hnode, Option.map_none]
              split
              · rfl
              · split <;> rfl
          | some found =>
              cases found with
              | directory =>
                  simp only [walkWith, node?_setContent, hnode, Option.map_some,
                    FileSystem.withContent, ite_self]
                  exact ih _
              | link target =>
                  simp only [walkWith, node?_setContent, hnode, Option.map_some,
                    FileSystem.withContent, ite_self]
                  split
                  · simp [Except.map, Place.withContent, FileSystem.withContent]
                  · exact hjump target dir rest
              | sink id =>
                  simp only [walkWith, node?_setContent, hnode, Option.map_some,
                    FileSystem.withContent, ite_self]
                  split
                  · simp [Except.map, Place.withContent, FileSystem.withContent]
                  · rfl
              | file id old executable =>
                  by_cases hl : dir ++ [name] = location
                  · simp only [walkWith, node?_setContent, hnode, Option.map_some, if_pos hl,
                      FileSystem.withContent]
                    split
                    · simp [Except.map, Place.withContent, FileSystem.withContent, hl]
                    · rfl
                  · simp only [walkWith, node?_setContent, hnode, Option.map_some, if_neg hl]
                    split
                    · simp [Except.map, Place.withContent, hl]
                    · rfl

theorem walk_setContent (fs : FileSystem) (follow : Bool) (location : Location)
    (content : ByteArray) (links : Nat) (dir : Location) (steps : List Step) :
    (fs.setContent location content).walk follow links dir steps =
      (fs.walk follow links dir steps).map (Place.withContent location content) := by
  induction links generalizing dir steps with
  | zero =>
      have hjump : ∀ (target : Path) (dir : Location) (rest : List Step),
          (.error .tooManyLinks : Except IoError Place) =
            (Except.error .tooManyLinks).map (Place.withContent location content) :=
        fun _ _ _ => rfl
      exact walkWith_setContent hjump dir steps
  | succ links ih =>
      refine walkWith_setContent (fun target dir rest => ?_) dir steps
      split
      · rfl
      · exact ih _ _

theorem place_setContent (fs : FileSystem) (follow : Bool) (location : Location)
    (content : ByteArray) (p : Path) (steps : List Step) :
    (fs.setContent location content).place follow p steps =
      (fs.place follow p steps).map (Place.withContent location content) := by
  unfold FileSystem.place
  rw [walk_setContent]
  have hhere : (fs.setContent location content).here = fs.here := rfl
  rw [hhere]
  repeat' split
  all_goals rfl

theorem withContent_withContent (content content' : ByteArray) (node : Node) :
    withContent content' (withContent content node) = withContent content' node := by
  cases node <;> rfl

theorem setContent_setContent (fs : FileSystem) (location : Location)
    (content content' : ByteArray) :
    (fs.setContent location content).setContent location content' =
      fs.setContent location content' := by
  have hentries : ((fs.setContent location content).setContent location content').entries =
      (fs.setContent location content').entries := by
    rw [setContent_entries, setContent_entries, setContent_entries, List.map_map]
    refine List.map_congr_left fun e _ => ?_
    dsimp only [Function.comp]
    split
    · rw [withContent_withContent]
    · rfl
  exact congrArg (fun entries => { fs with entries }) hentries

/-! ## Writing again -/

theorem writeBytes_eq_ok (h : fs.writeBytes p content = .ok big) :
    ∃ id location opened, fs.openFile p = .ok (id, location, opened) ∧
      big = opened.setContent location content := by
  unfold writeBytes at h
  cases hopen : fs.openFile p with
  | error e =>
      rw [hopen] at h
      cases h
  | ok result =>
      obtain ⟨id, location, opened⟩ := result
      rw [hopen] at h
      cases h
      exact ⟨id, location, opened, rfl, rfl⟩

theorem writeBytes_of_openFile {id : Nat} {opened : FileSystem}
    (hopen : fs.openFile p = .ok (id, location, opened)) (content : ByteArray) :
    fs.writeBytes p content = .ok (opened.setContent location content) := by
  unfold writeBytes
  rw [hopen]
  rfl

theorem openFile_setContent {id : Nat} (hopen : fs.openFile p = .ok (id, location, fs))
    (content : ByteArray) :
    (fs.setContent location content).openFile p =
      .ok (id, location, fs.setContent location content) := by
  obtain ⟨node, hplace, hnumber, -⟩ := place_of_openFile hopen
  have hagain : (fs.setContent location content).place true p p.steps =
      .ok (.present location (withContent content node)) := by
    rw [place_setContent, hplace]
    simp [Except.map, Place.withContent]
  rw [openFile_of_present (openFile_eq_ok hopen).1 hagain, number?_withContent, hnumber]

theorem opens_of_writeBytes (h : fs.writeBytes p content = .ok big) : ∃ id, Opens big p id := by
  obtain ⟨id, location, opened, hopen, rfl⟩ := writeBytes_eq_ok h
  exact ⟨id, location, openFile_setContent (openFile_openFile hopen) content⟩

theorem writeBytes_writeBytes (h : fs.writeBytes p content = .ok big) (content' : ByteArray) :
    big.writeBytes p content' = fs.writeBytes p content' := by
  obtain ⟨id, location, opened, hopen, rfl⟩ := writeBytes_eq_ok h
  rw [writeBytes_of_openFile hopen, ← setContent_setContent opened location content content']
  exact writeBytes_of_openFile (openFile_setContent (openFile_openFile hopen) content) content'

/-! ## Reading and writing -/

theorem opens_of_readText {text : String} (h : fs.readText p = .ok text) :
    ∃ id, Opens fs p id := by
  cases hfind : fs.find true p with
  | error e =>
      rw [readText_of_error hfind] at h
      cases h
  | ok found =>
      obtain ⟨location, node⟩ := found
      have hne : node ≠ .directory := by
        rintro rfl
        rw [readText_of_directory hfind] at h
        cases h
      have hplace := find_eq_ok_iff.mp hfind
      cases hslash : p.endsWithSlash with
      | true =>
          rw [lookupSteps, if_pos hslash] at hplace
          obtain ⟨_, heq⟩ := walk_end_here (place_eq_ok_iff.mp hplace).2
          cases heq
          exact absurd rfl hne
      | false =>
          rw [lookupSteps, if_neg (by simp [hslash])] at hplace
          cases node with
          | directory => exact absurd rfl hne
          | link target => exact absurd rfl (walk_follows (place_eq_ok_iff.mp hplace).2 target)
          | file id content executable => exact ⟨id, location, openFile_of_present hslash hplace⟩
          | sink id => exact ⟨id, location, openFile_of_present hslash hplace⟩

theorem find_of_place (hslash : p.endsWithSlash = false)
    (hplace : fs.place follow p p.steps = .ok (.present location node)) :
    fs.find follow p = .ok (location, node) := by
  rw [find_eq_ok_iff]
  simpa [lookupSteps, hslash] using hplace

theorem place_writeBytes (h : fs.writeBytes p content = .ok big) :
    p.endsWithSlash = false ∧
      ∃ location node id,
        big.place true p p.steps = .ok (.present location (withContent content node)) ∧
        node.number? = some id ∧ (fs.place true p p.steps = .ok (.present location node) ∨
          node = .file id ByteArray.empty false) := by
  obtain ⟨id, location, opened, hopen, rfl⟩ := writeBytes_eq_ok h
  obtain ⟨node, hplace, hnumber, hnode⟩ := place_of_openFile hopen
  refine ⟨(openFile_eq_ok hopen).1, location, node, id, ?_, hnumber, ?_⟩
  · rw [place_setContent, hplace]
    simp [Except.map, Place.withContent]
  · rcases hnode with rfl | hnew
    · exact .inl hplace
    · exact .inr hnew

/-- The path leads to a sink, which forgets what is written to it. -/
def LeadsToSink (fs : FileSystem) (p : Path) : Prop :=
  ∃ location id, fs.stat p = .ok (location, .sink id)

theorem readText_of_leadsToSink (h : LeadsToSink fs p) : fs.readText p = .ok "" := by
  obtain ⟨location, id, hstat⟩ := h
  exact readText_of_sink hstat

theorem readText_of_not_leadsToSink {text : String}
    (h : fs.writeBytes p text.toUTF8 = .ok big) (hsink : ¬ LeadsToSink big p) :
    big.readText p = .ok text := by
  obtain ⟨hslash, location, node, id, hbig, hnumber, -⟩ := place_writeBytes h
  have hfind := find_of_place hslash hbig
  cases node with
  | directory => cases hnumber
  | link target => cases hnumber
  | file id old executable => rw [readText_of_file hfind, fromUTF8?_toUTF8]
  | sink id => exact absurd ⟨location, id, hfind⟩ hsink

theorem leadsToSink_of_writeBytes (h : fs.writeBytes p content = .ok big)
    (hsink : LeadsToSink big p) : LeadsToSink fs p := by
  obtain ⟨hslash, location, node, id, hbig, -, hfs⟩ := place_writeBytes h
  obtain ⟨location', id', hstat⟩ := hsink
  rw [stat, find_of_place hslash hbig] at hstat
  injection hstat with hstat
  injection hstat with _ hnode
  cases node with
  | directory => cases hnode
  | link target => cases hnode
  | file id old executable => cases hnode
  | sink id =>
      rcases hfs with hfs | heq
      · exact ⟨location, id, find_of_place hslash hfs⟩
      · cases heq

theorem readText_writeBytes {text : String} (h : fs.writeBytes p text.toUTF8 = .ok big) :
    big.readText p = .ok text ∨ big.readText p = .ok "" ∧ fs.readText p = .ok "" := by
  by_cases hsink : LeadsToSink big p
  · exact .inr ⟨readText_of_leadsToSink hsink,
      readText_of_leadsToSink (leadsToSink_of_writeBytes h hsink)⟩
  · exact .inl (readText_of_not_leadsToSink h hsink)

end CacheUpkeep.FileSystem
