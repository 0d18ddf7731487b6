import CacheUpkeep.Proofs.Outcome
import CacheUpkeep.Proofs.Store.Tree

/-!
# What a scan finds

A scan that succeeds finds the directories that stand in the store and in its
records, by name, and says of each what its metadata says.
-/

namespace CacheUpkeep.Store

open CacheUpkeep.Calendar CacheUpkeep.FileSystem

variable {fs : FileSystem} {p root : Path} {dir store : Location} {name record : String}
  {names : List String} {layout : Layout} {finding : Finding} {part : Part}

/-- A well-formed store without links, and a path that leads to it. -/
structure IsStore (fs : FileSystem) (root : Path) (store : Location) : Prop where
  wellFormed : fs.WellFormed
  noLinks : HasNoLinks fs store
  named : fs.directoryAt? root = some store

/-! ## Metadata -/

theorem isName_metadataName : IsName metadataName := by
  decide

def metadataOf (path : Path) : Option Node → Except PruneError (Option EntryMeta)
  | none => .ok none
  | some (.file _ content _) =>
      match String.fromUTF8? content with
      | none => .error (.io path .notUtf8)
      | some text =>
          match EntryMeta.read text with
          | .ok m => .ok (some m)
          | .error e => .error (.metadata path (.misfit e))
  | some (.sink _) => .error (.metadata path (.misfit .malformed))
  | some .directory | some (.link _) => .error (.io path .isDirectory)

theorem readMeta_eq (hdir : fs.directoryAt? p = some dir) (hlinks : HasNoLinks fs dir) :
    readMeta fs p =
      if isTooLong (p.child metadataName) then
        .error (.io (p.child metadataName) .nameTooLong)
      else metadataOf (p.child metadataName) (fs.node? (dir ++ [metadataName])) := by
  have hfind := find_child true hdir isName_metadataName (hlinks [metadataName])
  simp only [readMeta]
  cases hlong : isTooLong (p.child metadataName) with
  | true =>
      rw [hlong, if_pos rfl] at hfind
      rw [readText_of_error hfind]
      rfl
  | false =>
      rw [hlong, if_neg (by simp)] at hfind
      rw [if_neg (by simp)]
      cases hnode : fs.node? (dir ++ [metadataName]) with
      | none =>
          rw [hnode] at hfind
          rw [readText_of_error hfind, if_neg (by decide)]
          rfl
      | some node =>
          rw [hnode] at hfind
          cases node with
          | directory =>
              rw [readText_of_directory hfind]
              rfl
          | link target => exact absurd hnode (hlinks [metadataName] target)
          | sink id =>
              rw [readText_of_sink hfind]
              rfl
          | file id content executable =>
              rw [readText_of_file hfind]
              simp only [metadataOf]
              cases String.fromUTF8? content with
              | none => rfl
              | some text => rfl

theorem readMeta_eq_ok_none (hdir : fs.directoryAt? p = some dir) (hlinks : HasNoLinks fs dir) :
    readMeta fs p = .ok none ↔
      isTooLong (p.child metadataName) = false ∧ fs.node? (dir ++ [metadataName]) = none := by
  rw [readMeta_eq hdir hlinks]
  cases isTooLong (p.child metadataName) with
  | true => simp
  | false =>
      cases hnode : fs.node? (dir ++ [metadataName]) with
      | none => simp [metadataOf]
      | some node =>
          cases node with
          | file id content executable =>
              simp only [metadataOf]
              cases String.fromUTF8? content with
              | none => simp
              | some text => cases hread : EntryMeta.read text <;> simp [hread]
          | directory => simp [metadataOf]
          | link target => simp [metadataOf]
          | sink id => simp [metadataOf]

theorem readMeta_eq_ok_some {m : EntryMeta} (hdir : fs.directoryAt? p = some dir)
    (hlinks : HasNoLinks fs dir) :
    readMeta fs p = .ok (some m) ↔
      isTooLong (p.child metadataName) = false ∧ metadataAt? fs dir = some m := by
  rw [readMeta_eq hdir hlinks, metadataAt?]
  cases isTooLong (p.child metadataName) with
  | true => simp
  | false =>
      cases hnode : fs.node? (dir ++ [metadataName]) with
      | none => simp [metadataOf]
      | some node =>
          cases node with
          | file id content executable =>
              simp only [metadataOf]
              cases String.fromUTF8? content with
              | none => simp
              | some text => cases hread : EntryMeta.read text <;> simp [hread, Except.toOption]
          | directory => simp [metadataOf]
          | link target => simp [metadataOf]
          | sink id => simp [metadataOf]

/-! ## Directories in a directory -/

theorem le_total_string (a b : String) : (decide (a ≤ b) || decide (b ≤ a)) = true := by
  simpa using String.le_total a b

theorem le_trans_string (a b c : String) (hab : decide (a ≤ b) = true)
    (hbc : decide (b ≤ c) = true) : decide (a ≤ c) = true := by
  simp only [decide_eq_true_eq] at *
  exact String.le_trans hab hbc

theorem eq_of_perm_of_sorted {l l' : List String} (hperm : l.Perm l')
    (hl : l.Pairwise fun a b => decide (a ≤ b) = true)
    (hl' : l'.Pairwise fun a b => decide (a ≤ b) = true) : l = l' := by
  refine hperm.eq_of_pairwise (fun a b _ _ hab hba => ?_) hl hl'
  simp only [decide_eq_true_eq] at hab hba
  exact String.le_antisymm hab hba

theorem mergeSort_eq_of_perm {l l' : List String} (hperm : l.Perm l') :
    l.mergeSort (fun a b => a ≤ b) = l'.mergeSort fun a b => a ≤ b :=
  eq_of_perm_of_sorted
    ((List.mergeSort_perm l _).trans (hperm.trans (List.mergeSort_perm l' _).symm))
    (List.pairwise_mergeSort le_trans_string le_total_string l)
    (List.pairwise_mergeSort le_trans_string le_total_string l')

theorem mergeSort_filter (l : List String) (q : String → Bool) :
    (l.filter q).mergeSort (fun a b => a ≤ b) = (l.mergeSort fun a b => a ≤ b).filter q :=
  eq_of_perm_of_sorted
    ((List.mergeSort_perm (l.filter q) _).trans ((List.mergeSort_perm l _).filter q).symm)
    (List.pairwise_mergeSort le_trans_string le_total_string (l.filter q))
    ((List.pairwise_mergeSort le_trans_string le_total_string l).filter q)

theorem subdirectories_eq (hdir : fs.directoryAt? p = some dir) :
    subdirectories fs p =
      .ok (((fs.namesIn dir).filter fun name => fs.isDirectory (p.child name)).mergeSort
        fun a b => a ≤ b) := by
  unfold subdirectories
  rw [list_of_directory hdir]

theorem isDirectory_child (hdir : fs.directoryAt? p = some dir) (hname : IsName name)
    (hlinks : HasNoLinks fs dir) :
    fs.isDirectory (p.child name) = true ↔
      isTooLong (p.child name) = false ∧ fs.node? (dir ++ [name]) = some .directory := by
  rw [isDirectory, Option.isSome_iff_exists]
  simp only [directoryAt?_child hdir hname (hlinks [name])]
  constructor
  · rintro ⟨location, hlong, hnode, -⟩
    exact ⟨hlong, hnode⟩
  · rintro ⟨hlong, hnode⟩
    exact ⟨_, hlong, hnode, rfl⟩

theorem mem_subdirectories_iff (hfs : fs.WellFormed) (hlinks : HasNoLinks fs dir)
    (hdir : fs.directoryAt? p = some dir) (hnames : subdirectories fs p = .ok names) :
    name ∈ names ↔
      fs.node? (dir ++ [name]) = some .directory ∧ isTooLong (p.child name) = false := by
  rw [subdirectories_eq hdir] at hnames
  cases hnames
  rw [List.mem_mergeSort, List.mem_filter, hfs.mem_namesIn_iff]
  constructor
  · rintro ⟨⟨node, hnode⟩, hisdir⟩
    have hname : IsName name := hfs.isName hnode (by simp)
    exact ((isDirectory_child hdir hname hlinks).mp hisdir).symm
  · rintro ⟨hnode, hlong⟩
    have hname : IsName name := hfs.isName hnode (by simp)
    exact ⟨⟨_, hnode⟩, (isDirectory_child hdir hname hlinks).mpr ⟨hlong, hnode⟩⟩

theorem subdirectories_sorted (hfs : fs.WellFormed) (hdir : fs.directoryAt? p = some dir)
    (hnames : subdirectories fs p = .ok names) : names.Pairwise (· < ·) := by
  rw [subdirectories_eq hdir] at hnames
  cases hnames
  have hsorted := List.pairwise_mergeSort le_trans_string le_total_string
    ((fs.namesIn dir).filter fun name => fs.isDirectory (p.child name))
  have hnodup := (List.mergeSort_perm ((fs.namesIn dir).filter
    fun name => fs.isDirectory (p.child name)) fun a b => a ≤ b).nodup_iff.mpr
      ((hfs.namesIn_nodup dir).filter _)
  refine (hsorted.and hnodup).imp ?_
  rintro a b ⟨hle, hne⟩
  simp only [decide_eq_true_eq] at hle
  exact String.not_le.mp fun hge => hne (String.le_antisymm hle hge)

/-! ## Single directories -/

private theorem scanPart_of_error {e : PruneError} (h : readMeta fs (p.child name) = .error e) :
    scanPart fs p name = .error e := by
  simp only [scanPart, h]
  rfl

private theorem scanPart_of_none (h : readMeta fs (p.child name) = .ok none) :
    scanPart fs p name =
      .ok (if recordScratchNames.contains name then .scratch name else .unknown name) := by
  simp only [scanPart, h, bind, Except.bind]
  split <;> rfl

private theorem scanPart_of_some {m : EntryMeta} (h : readMeta fs (p.child name) = .ok (some m)) :
    scanPart fs p name =
      match m.kind with
      | .artifact => .ok (.artifact name m.lastUsed)
      | .record => .error (.metadata ((p.child name).child metadataName) .nestedRecord) := by
  simp only [scanPart, h, bind, Except.bind]
  cases m.kind <;> rfl

theorem scanPart_eq_ok_iff :
    scanPart fs p name = .ok part ↔
      (readMeta fs (p.child name) = .ok none ∧
        part = if recordScratchNames.contains name then .scratch name else .unknown name) ∨
      ∃ m, readMeta fs (p.child name) = .ok (some m) ∧ m.kind = .artifact ∧
        part = .artifact name m.lastUsed := by
  cases hmeta : readMeta fs (p.child name) with
  | error e => simp [scanPart_of_error hmeta]
  | ok found =>
      cases found with
      | none => simp [scanPart_of_none hmeta, eq_comm]
      | some m =>
          rw [scanPart_of_some hmeta]
          cases hkind : m.kind <;> simp [hkind, eq_comm]

private theorem scanEntry_of_error {e : PruneError}
    (h : readMeta fs (root.child name) = .error e) : scanEntry fs root name = .error e := by
  simp only [scanEntry, h]
  rfl

private theorem scanEntry_of_none (h : readMeta fs (root.child name) = .ok none) :
    scanEntry fs root name =
      .ok (if name = scratchName then .scratch name (root.child name) else .unknown name) := by
  simp only [scanEntry, h]
  rfl

private theorem scanEntry_of_artifact {m : EntryMeta}
    (h : readMeta fs (root.child name) = .ok (some m)) (hkind : m.kind = .artifact) :
    scanEntry fs root name = .ok (.artifact ⟨name, root.child name, m.lastUsed⟩) := by
  simp only [scanEntry, h, bind, Except.bind, hkind]
  rfl

private theorem scanEntry_of_record {m : EntryMeta}
    (h : readMeta fs (root.child name) = .ok (some m)) (hkind : m.kind = .record) :
    scanEntry fs root name =
      (subdirectories fs (root.child name)).bind fun names =>
        (names.mapM (scanPart fs (root.child name))).bind fun parts =>
          .ok (.record ⟨name, root.child name, m.lastUsed, parts⟩) := by
  simp only [scanEntry, h, bind, Except.bind, hkind]
  rfl

theorem scanEntry_eq_ok_iff :
    scanEntry fs root name = .ok finding ↔
      (readMeta fs (root.child name) = .ok none ∧
        finding = if name = scratchName then .scratch name (root.child name)
          else .unknown name) ∨
      (∃ m, readMeta fs (root.child name) = .ok (some m) ∧ m.kind = .artifact ∧
        finding = .artifact ⟨name, root.child name, m.lastUsed⟩) ∨
      ∃ m names parts, readMeta fs (root.child name) = .ok (some m) ∧ m.kind = .record ∧
        subdirectories fs (root.child name) = .ok names ∧
        List.Forall₂ (fun part found => scanPart fs (root.child name) part = .ok found)
          names parts ∧
        finding = .record ⟨name, root.child name, m.lastUsed, parts⟩ := by
  cases hmeta : readMeta fs (root.child name) with
  | error e => simp [scanEntry_of_error hmeta]
  | ok found =>
      cases found with
      | none => simp [scanEntry_of_none hmeta, eq_comm]
      | some m =>
          cases hkind : m.kind with
          | artifact => simp [scanEntry_of_artifact hmeta hkind, hkind, eq_comm]
          | record =>
              rw [scanEntry_of_record hmeta hkind, except_bind_eq_ok_iff]
              simp only [except_bind_eq_ok_iff, mapM_eq_ok_iff]
              simp [hkind, eq_comm]

theorem scan_eq_bind (hdir : fs.directoryAt? root = some store) :
    scan fs root =
      (subdirectories fs root).bind fun names =>
        (names.mapM (scanEntry fs root)).bind fun findings => .ok ⟨findings⟩ := by
  have hisdir : fs.isDirectory root = true := by simp [isDirectory, hdir]
  simp only [scan, hisdir, bind, Except.bind]
  rfl

theorem scan_eq_ok_iff (hdir : fs.directoryAt? root = some store) :
    scan fs root = .ok layout ↔
      ∃ names, subdirectories fs root = .ok names ∧
        List.Forall₂ (fun name found => scanEntry fs root name = .ok found)
          names layout.findings := by
  obtain ⟨findings⟩ := layout
  simp [scan_eq_bind hdir, except_bind_eq_ok_iff, mapM_eq_ok_iff]

theorem scan_of_sorted {names : List String} {findings : List Finding}
    (hdir : fs.directoryAt? root = some store)
    (hnames : ((fs.namesIn store).filter fun name => fs.isDirectory (root.child name)) = names)
    (hsorted : names.Pairwise (· ≤ ·))
    (hfindings : List.Forall₂ (fun name found => scanEntry fs root name = .ok found)
      names findings) :
    scan fs root = .ok ⟨findings⟩ := by
  refine (scan_eq_ok_iff hdir).mpr ⟨names, ?_, hfindings⟩
  rw [subdirectories_eq hdir, hnames, List.mergeSort_of_pairwise (by simpa using hsorted)]

theorem scan_of_not_isDirectory (h : fs.isDirectory root = false) :
    scan fs root = .ok ⟨[]⟩ := by
  simp only [scan, h, Bool.not_false, if_true]
  rfl

end CacheUpkeep.Store
