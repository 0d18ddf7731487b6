import CacheUpkeep.Proofs.FileSystem.Changes
import CacheUpkeep.Proofs.FileSystem.Descent
import CacheUpkeep.Proofs.Outcome

/-!
# Making directories

Below a directory that holds only directories and files, making a directory with
all those above it that are missing adds directories and changes nothing else.
-/

namespace CacheUpkeep.FileSystem

open CacheUpkeep.Path

variable {fs big huge : FileSystem} {dir location : Location} {node : Node} {p q : Path}
  {above : List Path} {content : ByteArray} {name : String}

/-- All that `big` holds beyond `fs` are directories. -/
structure Grows (fs big : FileSystem) : Prop where
  wellFormed : big.WellFormed
  keeps : big.Extends fs
  added : ∀ {l found}, big.node? l = some found → fs.node? l = some found ∨ found = .directory

theorem Grows.refl (hfs : fs.WellFormed) : Grows fs fs :=
  ⟨hfs, Extends.refl fs, .inl⟩

theorem Grows.trans (h : Grows fs big) (h' : Grows big huge) : Grows fs huge where
  wellFormed := h'.wellFormed
  keeps := h'.keeps.trans h.keeps
  added := by
    intro l found hfound
    rcases h'.added hfound with hbig | hdir
    · exact h.added hbig
    · exact .inr hdir

structure IsPlain (fs : FileSystem) (p : Path) (dir : Location) : Prop where
  wellFormed : fs.WellFormed
  named : fs.directoryAt? p = some dir
  node : fs.node? dir = some .directory
  plain : ∀ below found, fs.node? (dir ++ below) = some found →
    found = .directory ∨ ∃ id content executable, found = .file id content executable

theorem IsPlain.noLinks (h : IsPlain fs p dir) (below : Location) (target : Path) :
    fs.node? (dir ++ below) ≠ some (.link target) := by
  intro hnode
  rcases h.plain below _ hnode with hdir | ⟨id, content, executable, hfile⟩
  · cases hdir
  · cases hfile

theorem IsPlain.isEmpty_eq_false (h : IsPlain fs p dir) : p.isEmpty = false :=
  (directoryAt?_walk h.named).1.2.1

theorem IsPlain.of_grows (h : IsPlain fs p dir) (hgrows : Grows fs big) : IsPlain big p dir where
  wellFormed := hgrows.wellFormed
  named := directoryAt?_mono hgrows.keeps h.named
  node := hgrows.keeps.node? h.node
  plain := by
    intro below found hfound
    rcases hgrows.added hfound with hold | hdir
    · exact h.plain below found hold
    · exact .inl hdir

/-! ## One directory -/

theorem makeDirectory_eq_ok (h : fs.makeDirectory p = .ok big) :
    ∃ above name, fs.place false p p.steps = .ok (.absent above name) ∧
      big = fs.addEntry (above ++ [name]) .directory := by
  unfold makeDirectory at h
  cases hplace : fs.place false p p.steps with
  | error e =>
      rw [hplace] at h
      cases h
  | ok found =>
      rw [hplace] at h
      cases found with
      | present location node => cases h
      | absent above name =>
          cases h
          exact ⟨above, name, rfl, rfl⟩

theorem makeDirectory_settled (hempty : p.isEmpty = false)
    (hwalk : fs.walk true linkLimit (startOf fs.here p) p.steps = .ok (.present location node)) :
    ∃ e, e ≠ .notFound ∧ fs.makeDirectory p = .error e := by
  obtain ⟨l, found, hpresent⟩ := walk_unfollowed hwalk
  unfold makeDirectory FileSystem.place
  rw [hempty, hpresent]
  cases p.hasNul with
  | true => exact ⟨.nulInPath, by decide, rfl⟩
  | false =>
      cases isTooLong p with
      | true => exact ⟨.nameTooLong, by decide, rfl⟩
      | false => exact ⟨.exists, by decide, rfl⟩

theorem walk_join_settled (h : IsPlain fs p dir) (hq : q.LeadsDown)
    (hheres : ∀ step ∈ q.steps, step = .here) :
    fs.walk true linkLimit (startOf fs.here (p.join q)) (p.join q).steps =
      .ok (.present dir .directory) := by
  by_cases hsteps : q.steps = []
  · have hsegments := hq.segments_ne_nil
    obtain ⟨-, hwalk⟩ := directoryAt?_walk h.named
    have hstart : startOf fs.here (p.join q) = startOf fs.here p := by
      rw [startOf, startOf, isAbsolute_join h.isEmpty_eq_false hq.isAbsolute_eq_false hsegments]
    rw [hstart, steps_join h.isEmpty_eq_false hq.isAbsolute_eq_false, hsteps, List.append_nil]
    exact hwalk
  · obtain ⟨left, hleft⟩ := walk_join true h.named hq.isAbsolute_eq_false hsteps
    rw [hleft]
    exact walk_heres hheres

theorem makeDirectory_grows (h : IsPlain fs p dir) (hq : q.LeadsDown)
    (hmake : fs.makeDirectory (p.join q) = .ok big) : Grows fs big := by
  obtain ⟨above, name, hplace, rfl⟩ := makeDirectory_eq_ok hmake
  by_cases hsteps : q.steps = []
  · have hwalk := walk_join_settled h hq (by simp [hsteps])
    obtain ⟨e, -, herror⟩ := makeDirectory_settled
      (isEmpty_join h.isEmpty_eq_false hq.isAbsolute_eq_false hq.segments_ne_nil) hwalk
    rw [herror] at hmake
    cases hmake
  · obtain ⟨hlocation, hdir, hfree⟩ := place_join h.named h.noLinks h.node hq.isAbsolute_eq_false
      hq.up_notMem hsteps hplace
    have hnul : q.hasNul = false := by
      obtain ⟨⟨hnul, -, -⟩, -⟩ := place_eq_ok_iff.mp hplace
      rw [hasNul_join h.isEmpty_eq_false hq.isAbsolute_eq_false, Bool.or_eq_false_iff] at hnul
      exact hnul.2
    have hname : IsName name := by
      rcases List.eq_nil_or_concat' q.names with hnil | ⟨front, last, hnames⟩
      · rw [hnil, List.append_nil] at hlocation
        rw [hlocation, h.node] at hfree
        cases hfree
      · rw [hnames, ← List.append_assoc] at hlocation
        obtain ⟨-, hlast⟩ := List.append_inj' hlocation rfl
        simp only [List.cons.injEq, and_true] at hlast
        exact hq.isName hnul (by simp [hnames, hlast])
    have hadds := adds_addEntry fs .directory hfree
    refine ⟨hadds.wellFormed h.wellFormed hdir hname (Nat.le_refl _) (by simp [Node.number?]),
      hadds.keeps, ?_⟩
    intro l found hfound
    rw [hadds.node?] at hfound
    split at hfound
    · cases hfound
      exact .inr rfl
    · exact .inl hfound

/-! ## Directories above -/

theorem makeChain_settled
    (hwalk : fs.walk true linkLimit (startOf fs.here p) p.steps = .ok (.present location node)) :
    ((makeChain (p :: above)).outcome fs).2 = fs := by
  unfold makeChain
  split
  · rfl
  · next hempty =>
      obtain ⟨e, hne, herror⟩ := makeDirectory_settled (by simpa using hempty) hwalk
      rw [Action.outcome_ofOutcome, herror]
      cases e <;> first | rfl | contradiction

theorem makeDirectories_existing (hdir : fs.directoryAt? p = some dir) :
    (makeDirectories p).outcome fs = (.ok (), fs) := by
  obtain ⟨⟨-, hempty, -⟩, hwalk⟩ := directoryAt?_walk hdir
  obtain ⟨e, hne, herror⟩ := makeDirectory_settled hempty hwalk
  have hthere : fs.isDirectory p = true := by rw [isDirectory, hdir, Option.isSome_some]
  unfold makeDirectories ancestors ancestorsWithin makeChain
  rw [if_neg (by simp [hempty]), Action.outcome_ofOutcome, herror]
  cases e <;> first | contradiction | simp only [hthere, if_true]

theorem makeChain_keeps {P : FileSystem → Prop} (hfs : P fs)
    (hmake : ∀ {small big}, P small → small.makeDirectory p = .ok big → P big)
    (habove : fs.makeDirectory p = .error .notFound → P ((makeChain above).outcome fs).2) :
    P ((makeChain (p :: above)).outcome fs).2 := by
  have hagain : ∀ {small}, P small → P (makeChain.again p small).2 := by
    intro small hsmall
    unfold makeChain.again
    cases hagain : small.makeDirectory p with
    | ok big => exact hmake hsmall hagain
    | error e => exact hsmall
  unfold makeChain
  split
  · exact hfs
  · rw [Action.outcome_ofOutcome]
    cases hfirst : fs.makeDirectory p with
    | ok big => exact hmake hfs hfirst
    | error e =>
        by_cases he : e = .notFound
        · subst he
          have hrest := habove hfirst
          cases hchain : (makeChain above).outcome fs with
          | mk result small =>
              rw [hchain] at hrest
              dsimp only
              cases result with
              | ok value => exact hagain hrest
              | error e => exact hrest
        · cases e <;> first | exact hfs | contradiction

theorem makeDirectories_grows (h : IsPlain fs p dir) (hq : q.LeadsDown) :
    Grows fs ((makeDirectories (p.join q)).outcome fs).2 := by
  have hempty := h.isEmpty_eq_false
  have hmake : ∀ {q : Path}, q.LeadsDown → ∀ {small big}, Grows fs small →
      small.makeDirectory (p.join q) = .ok big → Grows small big := fun hq _ _ hsmall =>
    makeDirectory_grows (h.of_grows hsmall) hq
  unfold makeDirectories ancestors
  generalize (p.join q).segments.length + 1 = fuel
  induction fuel generalizing q with
  | zero =>
      exact makeChain_keeps (Grows.refl h.wellFormed) (fun hsmall hbig =>
        hsmall.trans (hmake hq hsmall hbig)) fun _ => Grows.refl h.wellFormed
  | succ fuel ih =>
      unfold ancestorsWithin
      refine makeChain_keeps (Grows.refl h.wellFormed) (fun hsmall hbig =>
        hsmall.trans (hmake hq hsmall hbig)) fun hmissing => ?_
      rcases parent?_join hempty hq with hheres | htop | ⟨above, habove, hparent⟩
      · obtain ⟨e, hne, herror⟩ := makeDirectory_settled
          (isEmpty_join hempty hq.isAbsolute_eq_false hq.segments_ne_nil)
          (walk_join_settled h hq hheres)
        rw [herror] at hmissing
        cases hmissing
        contradiction
      · rw [htop]
        obtain ⟨heres, hsteps, hheres⟩ := steps_ofFront_stem p
        obtain ⟨-, hwalk⟩ := directoryAt?_walk h.named
        rw [hsteps] at hwalk
        have hwalk' := walk_drop_heres hheres hwalk
        have hstart : startOf fs.here (ofFront p.stem) = startOf fs.here p := by
          rw [startOf, startOf, isAbsolute_ofFront_stem hempty]
        rw [← hstart] at hwalk'
        have hsettled : ∀ fuel,
            ((makeChain (ancestorsWithin fuel (ofFront p.stem))).outcome fs).2 = fs := by
          intro fuel
          cases fuel with
          | zero => exact makeChain_settled hwalk'
          | succ fuel => exact makeChain_settled hwalk'
        dsimp only
        rw [hsettled]
        exact Grows.refl h.wellFormed
      · rw [hparent]
        exact ih habove

/-! ## Writing files -/

structure Writes (fs big : FileSystem) (location : Location) (content : ByteArray) : Prop where
  wellFormed : big.WellFormed
  here_eq : big.here = fs.here
  before : ∀ found, fs.node? location = some found →
    ∃ id old executable, found = .file id old executable
  file : ∃ id executable, big.node? location = some (.file id content executable)
  others : ∀ {l}, l ≠ location → big.node? l = fs.node? l

theorem writes_setContent (hfs : fs.WellFormed) {id : Nat} {old : ByteArray} {executable : Bool}
    (hnode : fs.node? location = some (.file id old executable)) (content : ByteArray) :
    Writes fs (fs.setContent location content) location content where
  wellFormed := setContent_wellFormed hfs location content
  here_eq := rfl
  before := by
    intro found hfound
    rw [hnode] at hfound
    cases hfound
    exact ⟨_, _, _, rfl⟩
  file := ⟨id, executable, by simp [node?_setContent, hnode, withContent]⟩
  others := by
    intro l hl
    rw [node?_setContent]
    cases fs.node? l <;> simp [hl]

theorem Adds.writes (h : Adds fs big location node) (hwrites : Writes big huge location content) :
    Writes fs huge location content where
  wellFormed := hwrites.wellFormed
  here_eq := hwrites.here_eq.trans h.here_eq
  before := by
    intro found hfound
    rw [h.free] at hfound
    cases hfound
  file := hwrites.file
  others := by
    intro l hl
    rw [hwrites.others hl, h.node?, if_neg hl]

theorem IsPlain.of_writes {place : Location} (h : IsPlain fs p dir)
    (hwrites : Writes fs big (dir ++ place) content) : IsPlain big p dir where
  wellFormed := hwrites.wellFormed
  named := by
    refine directoryAt?_of_meets hwrites.here_eq.symm (fun {l found} hfound hmeets => ?_) h.named
    by_cases hl : l = dir ++ place
    · subst hl
      obtain ⟨id, old, executable, rfl⟩ := hwrites.before _ hfound
      rcases hmeets with hdir | hdir | ⟨target, hlink⟩
      · cases hdir
      · cases hdir
      · cases hlink
    · rw [hwrites.others hl, hfound]
  node := by
    rw [hwrites.others, h.node]
    intro hl
    have hnode := h.node
    rw [hl] at hnode
    obtain ⟨id, old, executable, hfile⟩ := hwrites.before _ hnode
    cases hfile
  plain := by
    intro below found hfound
    by_cases hl : dir ++ below = dir ++ place
    · rw [hl] at hfound
      obtain ⟨id, executable, hfile⟩ := hwrites.file
      rw [hfile] at hfound
      cases hfound
      exact .inr ⟨_, _, _, rfl⟩
    · rw [hwrites.others hl] at hfound
      exact h.plain below found hfound

theorem writeBytes_child (h : IsPlain fs p dir) (hq : q.LeadsDown) (hname : IsName name)
    (hwrite : fs.writeBytes ((p.join q).child name) content = .ok big) :
    isTooLong ((p.join q).child name) = false ∧ fs.node? (dir ++ q.names) = some .directory ∧
      Writes fs big (dir ++ q.names ++ [name]) content := by
  have hslash : ((p.join q).child name).endsWithSlash = false :=
    endsWithSlash_child
      (isEmpty_join h.isEmpty_eq_false hq.isAbsolute_eq_false hq.segments_ne_nil) hname
  unfold writeBytes openFile at hwrite
  simp only [hslash, Bool.false_eq_true, if_false] at hwrite
  cases hplace : fs.place true ((p.join q).child name) ((p.join q).child name).steps with
  | error e =>
      rw [hplace] at hwrite
      cases hwrite
  | ok place =>
      rw [hplace] at hwrite
      have hlong := (place_eq_ok_iff.mp hplace).1.2.2
      refine ⟨hlong, ?_⟩
      have hsteps := hq.steps_child hname
      rw [child_join h.isEmpty_eq_false hq] at hplace
      have hlies := place_join h.named h.noLinks h.node hq.isAbsolute_child
        (by simp [hsteps, hq.up_notMem]) (by simp [hsteps]) hplace
      rw [hq.names_child hname] at hlies
      cases place with
      | present location node =>
          obtain ⟨rfl, hnode⟩ := hlies
          have hfound := h.plain _ _ hnode
          rw [← List.append_assoc] at hnode
          rcases hfound with rfl | ⟨id, old, executable, rfl⟩
          · cases hwrite
          · cases hwrite
            rw [← List.append_assoc]
            exact ⟨h.wellFormed.node?_of_append (by simp) hnode,
              writes_setContent h.wellFormed hnode content⟩
      | absent above last =>
          obtain ⟨hlocation, hdir, hfree⟩ := hlies
          rw [← List.append_assoc] at hlocation
          obtain ⟨rfl, hlast⟩ := List.append_inj' hlocation rfl
          cases hlast
          cases hwrite
          have hadds := adds_addFile fs ByteArray.empty false hfree
          have hmade := hadds.wellFormed h.wellFormed hdir hname (Nat.le_succ _) fun id hid => by
            cases hid
            exact ⟨Nat.le_refl _, Nat.lt_succ_self _⟩
          have hfile := (hadds.node? _).trans (if_pos rfl)
          exact ⟨hdir, hadds.writes (writes_setContent hmade hfile content)⟩

end CacheUpkeep.FileSystem
