import CacheUpkeep.Proofs.FileSystem.Growth

/-!
# Opening files

A file that has been opened by a path is opened by it again, whatever directories
and files are made in between.
-/

namespace CacheUpkeep.FileSystem

open CacheUpkeep.Path

variable {fs big huge : FileSystem} {follow : Bool} {dir location : Location} {node : Node}
  {steps : List Step} {p : Path} {paths : List Path} {place : Place} {name : String}
  {links id : Nat}

/-! ## What walks find -/

/-- What a walk finds is there, and what it finds free is. -/
def Agrees (fs : FileSystem) : Place → Prop
  | .present location node => node = .directory ∨ fs.node? location = some node
  | .absent dir name => fs.node? (dir ++ [name]) = none

private theorem walkWith_agrees {jump : Path → Location → List Step → Except IoError Place}
    (hjump : ∀ {target dir rest}, jump target dir rest = .ok place → Agrees fs place)
    (hwalk : fs.walkWith follow jump dir steps = .ok place) : Agrees fs place := by
  induction steps generalizing dir with
  | nil =>
      cases hwalk
      exact .inl rfl
  | cons step rest ih =>
      cases step with
      | here => exact ih hwalk
      | up => exact ih hwalk
      | down x =>
          cases stepsDown_of_walkWith hwalk with
          | free hnode hlast => exact hnode
          | enters hnode hwalk => exact ih hwalk
          | ends hnode hne hlink hlast => exact .inr hnode
          | jumps hnode hmore hjumps => exact hjump hjumps

theorem walk_agrees (hwalk : fs.walk follow links dir steps = .ok place) : Agrees fs place := by
  induction links generalizing dir steps with
  | zero => exact walkWith_agrees (fun hjump => by cases hjump) hwalk
  | succ links ih =>
      refine walkWith_agrees ?_ hwalk
      intro target dir rest hjump
      split at hjump
      · cases hjump
      · exact ih hjump

theorem place_agrees (hplace : fs.place follow p steps = .ok place) : Agrees fs place :=
  walk_agrees (place_eq_ok_iff.mp hplace).2

private theorem walkWith_follows {jump : Path → Location → List Step → Except IoError Place}
    (hjump : ∀ {target dir rest}, jump target dir rest = .ok (.present location node) →
      ∀ target, node ≠ .link target)
    (hwalk : fs.walkWith true jump dir steps = .ok (.present location node)) (target : Path) :
    node ≠ .link target := by
  induction steps generalizing dir with
  | nil =>
      cases hwalk
      exact nofun
  | cons step rest ih =>
      cases step with
      | here => exact ih hwalk
      | up => exact ih hwalk
      | down x =>
          cases stepsDown_of_walkWith hwalk with
          | enters hnode hwalk => exact ih hwalk
          | ends hnode hne hlink hlast => exact fun heq => Bool.noConfusion (hlink target heq)
          | jumps hnode hmore hjumps => exact hjump hjumps target

theorem walk_follows (hwalk : fs.walk true links dir steps = .ok (.present location node))
    (target : Path) : node ≠ .link target := by
  induction links generalizing dir steps target with
  | zero => exact walkWith_follows (fun hjump => by cases hjump) hwalk target
  | succ links ih =>
      refine walkWith_follows ?_ hwalk target
      intro target dir rest hjump
      split at hjump
      · cases hjump
      · exact ih hjump

def Place.filled (location : Location) (node : Node) : Place → Place
  | .present l found => .present l found
  | .absent dir name =>
      if dir ++ [name] = location then .present location node else .absent dir name

private theorem walkWith_adds {jump jump' : Path → Location → List Step → Except IoError Place}
    (h : Adds fs big location node) (hnumber : node.number? = some id)
    (hjump : ∀ {target dir rest}, jump target dir rest = .ok place →
      jump' target dir rest = .ok (place.filled location node))
    (hwalk : fs.walkWith follow jump dir steps = .ok place) :
    big.walkWith follow jump' dir steps = .ok (place.filled location node) := by
  induction steps generalizing dir with
  | nil =>
      cases hwalk
      rfl
  | cons step rest ih =>
      cases step with
      | here => exact ih hwalk
      | up => exact ih hwalk
      | down x =>
          cases stepsDown_of_walkWith hwalk with
          | free hnode hlast =>
              subst hlast
              have hbig := h.node? (dir ++ [x])
              -- The free name at the end of the walk may be the one that the new node has taken.
              by_cases hl : dir ++ [x] = location
              · subst hl
                rw [if_pos rfl] at hbig
                rw [Place.filled, if_pos rfl]
                refine walkWith_last hbig ?_ ?_
                · rintro rfl
                  cases hnumber
                · rintro target rfl
                  cases hnumber
              · rw [if_neg hl, hnode] at hbig
                rw [Place.filled, if_neg hl]
                simp only [walkWith, hnode] at hwalk
                simp only [walkWith, hbig]
                exact hwalk
          | enters hnode hwalk =>
              rw [walkWith_directory (h.keeps.node? hnode)]
              exact ih hwalk
          | ends hnode hne hlink hlast =>
              subst hlast
              exact walkWith_last (h.keeps.node? hnode) hne hlink
          | jumps hnode hmore hjumps =>
              rw [walkWith_link (h.keeps.node? hnode) hmore]
              exact hjump hjumps

theorem walk_adds (h : Adds fs big location node) (hnumber : node.number? = some id)
    (hwalk : fs.walk follow links dir steps = .ok place) :
    big.walk follow links dir steps = .ok (place.filled location node) := by
  induction links generalizing dir steps with
  | zero => exact walkWith_adds h hnumber (fun hjump => by cases hjump) hwalk
  | succ links ih =>
      refine walkWith_adds h hnumber ?_ hwalk
      intro target dir rest hjump
      split at hjump
      · cases hjump
      · next htarget =>
          rw [if_neg htarget]
          exact ih hjump

theorem place_adds (h : Adds fs big location node) (hnumber : node.number? = some id)
    (hplace : fs.place follow p steps = .ok place) :
    big.place follow p steps = .ok (place.filled location node) := by
  rw [place_eq_ok_iff] at hplace ⊢
  rw [h.here_eq]
  exact ⟨hplace.1, walk_adds h hnumber hplace.2⟩

/-! ## More directories and files -/

/-- All that `big` holds beyond `fs` are directories and files, whose numbers are below the next. -/
structure Accrues (fs big : FileSystem) : Prop where
  keeps : big.Extends fs
  le : fs.nextFile ≤ big.nextFile
  added : ∀ {l found}, big.node? l = some found → fs.node? l = some found ∨
    found = .directory ∨
      ∃ id content executable, found = .file id content executable ∧ id < big.nextFile

theorem Accrues.refl (fs : FileSystem) : Accrues fs fs :=
  ⟨Extends.refl fs, Nat.le_refl _, .inl⟩

theorem Accrues.trans (h : Accrues fs big) (h' : Accrues big huge) : Accrues fs huge where
  keeps := h'.keeps.trans h.keeps
  le := Nat.le_trans h.le h'.le
  added := by
    intro l found hfound
    rcases h'.added hfound with hbig | hnew
    · rcases h.added hbig with hold | hdir | ⟨id, content, executable, hfile, hlt⟩
      · exact .inl hold
      · exact .inr (.inl hdir)
      · exact .inr (.inr ⟨id, content, executable, hfile, Nat.lt_of_lt_of_le hlt h'.le⟩)
    · exact .inr hnew

theorem Adds.accrues (h : Adds fs big location node) (hnext : fs.nextFile ≤ big.nextFile)
    (hnode : node = .directory ∨
      ∃ id content executable, node = .file id content executable ∧ id < big.nextFile) :
    Accrues fs big where
  keeps := h.keeps
  le := hnext
  added := by
    intro l found hfound
    rw [h.node?] at hfound
    split at hfound
    · cases hfound
      exact .inr hnode
    · exact .inl hfound

theorem makeDirectory_accrues (h : fs.makeDirectory p = .ok big) : Accrues fs big := by
  obtain ⟨above, name, hplace, rfl⟩ := makeDirectory_eq_ok h
  exact (adds_addEntry fs .directory (place_agrees hplace)).accrues (Nat.le_refl _) (.inl rfl)

theorem makeChain_accrues (fs : FileSystem) (paths : List Path) :
    Accrues fs ((makeChain paths).outcome fs).2 := by
  induction paths with
  | nil => exact Accrues.refl fs
  | cons p above ih =>
      exact makeChain_keeps (Accrues.refl fs)
        (fun hsmall hmake => hsmall.trans (makeDirectory_accrues hmake)) fun _ => ih

/-! ## Numbers of files -/

def HasNumbersBelow (fs : FileSystem) : Prop :=
  ∀ location node id, fs.node? location = some node → node.number? = some id → id < fs.nextFile

theorem WellFormed.hasNumbersBelow (hfs : fs.WellFormed) : HasNumbersBelow fs := by
  intro location node id hnode hid
  by_cases hnil : location = []
  · subst hnil
    cases hnode
    cases hid
  · exact hfs.files_lt _ ((hfs.mem_entries_iff hnil).mpr hnode) id hid

theorem HasNumbersBelow.without (h : HasNumbersBelow fs) (location : Location) :
    HasNumbersBelow (fs.without location) := by
  intro l node id hnode hid
  rw [without_eq_withoutAll] at hnode
  exact h l node id ((extends_withoutAll fs _).node? hnode) hid

theorem HasNumbersBelow.of_accrues (h : HasNumbersBelow fs) (hbig : Accrues fs big) :
    HasNumbersBelow big := by
  intro l node id hnode hid
  rcases hbig.added hnode with hold | rfl | ⟨k, content, executable, rfl, hlt⟩
  · exact Nat.lt_of_lt_of_le (h l node id hold hid) hbig.le
  · cases hid
  · cases hid
    exact hlt

/-! ## Opening -/

def Opens (fs : FileSystem) (p : Path) (id : Nat) : Prop :=
  ∃ location, fs.openFile p = .ok (id, location, fs)

theorem Opens.unique {id' : Nat} (h : Opens fs p id) (h' : Opens fs p id') : id = id' := by
  obtain ⟨location, hopen⟩ := h
  obtain ⟨location', hopen'⟩ := h'
  rw [hopen] at hopen'
  cases hopen'
  rfl

theorem openFile_of_present (hslash : p.endsWithSlash = false)
    (hplace : fs.place true p p.steps = .ok (.present location node)) :
    fs.openFile p =
      match node.number? with
      | some id => .ok (id, location, fs)
      | none => .error .isDirectory := by
  unfold openFile
  simp only [hslash, Bool.false_eq_true, if_false, hplace]
  rfl

theorem openFile_of_absent (hslash : p.endsWithSlash = false)
    (hplace : fs.place true p p.steps = .ok (.absent dir name)) :
    fs.openFile p =
      .ok (fs.nextFile, dir ++ [name], fs.addFile (dir ++ [name]) ByteArray.empty false) := by
  unfold openFile
  simp only [hslash, Bool.false_eq_true, if_false, hplace]
  rfl

theorem openFile_eq_ok (h : fs.openFile p = .ok (id, location, big)) :
    p.endsWithSlash = false ∧
      ((∃ node, fs.place true p p.steps = .ok (.present location node) ∧
          node.number? = some id ∧ big = fs) ∨
        ∃ dir name, fs.place true p p.steps = .ok (.absent dir name) ∧ id = fs.nextFile ∧
          location = dir ++ [name] ∧ big = fs.addFile (dir ++ [name]) ByteArray.empty false) := by
  cases hslash : p.endsWithSlash with
  | true =>
      unfold openFile at h
      simp only [hslash, if_true] at h
      cases hparent : fs.parentOf p with
      | error e =>
          rw [hparent] at h
          cases h
      | ok dir =>
          rw [hparent] at h
          cases h
  | false =>
      refine ⟨rfl, ?_⟩
      cases hplace : fs.place true p p.steps with
      | error e =>
          unfold openFile at h
          simp only [hslash, Bool.false_eq_true, if_false, hplace] at h
          cases h
      | ok found =>
          cases found with
          | present l node =>
              rw [openFile_of_present hslash hplace] at h
              cases hnumber : node.number? with
              | none =>
                  rw [hnumber] at h
                  cases h
              | some number =>
                  rw [hnumber] at h
                  cases h
                  exact .inl ⟨node, rfl, hnumber, rfl⟩
          | absent dir name =>
              rw [openFile_of_absent hslash hplace] at h
              cases h
              exact .inr ⟨dir, name, rfl, rfl, rfl, rfl⟩

theorem openFile_accrues (h : fs.openFile p = .ok (id, location, big)) : Accrues fs big := by
  obtain ⟨-, ⟨node, -, -, rfl⟩ | ⟨dir, name, hplace, rfl, rfl, rfl⟩⟩ := openFile_eq_ok h
  · exact Accrues.refl _
  · exact (adds_addFile fs ByteArray.empty false (place_agrees hplace)).accrues (Nat.le_succ _)
      (.inr ⟨_, _, _, rfl, Nat.lt_succ_self _⟩)

theorem place_of_openFile (h : fs.openFile p = .ok (id, location, big)) :
    ∃ node, big.place true p p.steps = .ok (.present location node) ∧ node.number? = some id ∧
      (big = fs ∨ node = .file id ByteArray.empty false) := by
  obtain ⟨-, ⟨node, hplace, hnumber, rfl⟩ | ⟨dir, name, hplace, rfl, rfl, rfl⟩⟩ := openFile_eq_ok h
  · exact ⟨node, hplace, hnumber, .inl rfl⟩
  · have hadds := adds_addFile fs ByteArray.empty false (place_agrees hplace)
    refine ⟨.file fs.nextFile ByteArray.empty false, ?_, rfl, .inr rfl⟩
    rw [place_adds hadds rfl hplace, Place.filled, if_pos rfl]

theorem openFile_openFile (h : fs.openFile p = .ok (id, location, big)) :
    big.openFile p = .ok (id, location, big) := by
  obtain ⟨node, hplace, hnumber, -⟩ := place_of_openFile h
  rw [openFile_of_present (openFile_eq_ok h).1 hplace, hnumber]

theorem opens_of_openFile (h : fs.openFile p = .ok (id, location, big)) : Opens big p id :=
  ⟨location, openFile_openFile h⟩

theorem lt_of_openFile (hfs : HasNumbersBelow fs)
    (h : fs.openFile p = .ok (id, location, big)) : id < big.nextFile := by
  obtain ⟨-, ⟨node, hplace, hnumber, rfl⟩ | ⟨dir, name, -, rfl, rfl, rfl⟩⟩ := openFile_eq_ok h
  · rcases place_agrees hplace with rfl | hnode
    · cases hnumber
    · exact hfs location node id hnode hnumber
  · exact Nat.lt_succ_self _

theorem Opens.of_accrues (h : Opens fs p id) (hbig : Accrues fs big) : Opens big p id := by
  obtain ⟨location, hopen⟩ := h
  obtain ⟨hslash, ⟨node, hplace, hnumber, -⟩ | ⟨dir, name, -, -, -, hfs⟩⟩ := openFile_eq_ok hopen
  · have hagain : big.place true p p.steps = .ok (.present location node) := by
      rw [place_eq_ok_iff] at hplace ⊢
      refine ⟨hplace.1, ?_⟩
      rw [← hbig.keeps.here_eq]
      exact walk_mono (fun hnode _ => hbig.keeps.node? hnode) hplace.2
    exact ⟨location, by rw [openFile_of_present hslash hagain, hnumber]⟩
  · have hnext := congrArg FileSystem.nextFile hfs
    simp [addFile] at hnext

end CacheUpkeep.FileSystem
