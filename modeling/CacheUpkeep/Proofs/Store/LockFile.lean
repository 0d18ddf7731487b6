import CacheUpkeep.Ci.Hooks
import CacheUpkeep.Proofs.Lock.Serial
import CacheUpkeep.Proofs.Store.Expendable

/-!
# The lock file of a store

The lock file stands in the directory of the store that it guards.  It is no directory and
no metadata, so it makes no difference to what a prune selects, and no prune removes it.
-/

namespace CacheUpkeep.Store

open CacheUpkeep.Calendar CacheUpkeep.FileSystem CacheUpkeep.Lock CacheUpkeep.Prune

variable {fs base left : FileSystem} {root : Path} {store place dir : Location} {number : Nat}
  {prunes : Instant → RetentionWindow → Prop} {kind : EntryKind} {lastUsed : Instant} {node : Node}

def lockPath (root : Path) : Path :=
  root.child Ci.storeLockName

theorem isName_storeLockName : IsName Ci.storeLockName := by
  decide

theorem isStore_of_adds (hs : IsStore fs root store) (hdir : fs.node? store = some .directory)
    (hadds : Adds fs base (store ++ [Ci.storeLockName]) (.file number ByteArray.empty false))
    (hnumber : number = fs.nextFile) (hnext : base.nextFile = number + 1) :
    IsStore base root store where
  wellFormed := hadds.wellFormed hs.wellFormed hdir isName_storeLockName (by omega) (by
    intro id hid
    cases hid
    omega)
  noLinks place target hlink := by
    rw [hadds.node?] at hlink
    split at hlink
    · cases hlink
    · exact hs.noLinks place target hlink
  named := directoryAt?_mono hadds.keeps hs.named

section Adds

variable (hadds : Adds fs base (store ++ [Ci.storeLockName]) (.file number ByteArray.empty false))

include hadds

theorem node?_metadata_of_adds (dir : Location) :
    base.node? (dir ++ [metadataName]) = fs.node? (dir ++ [metadataName]) := by
  rw [hadds.node?, if_neg]
  intro heq
  have hname : metadataName = Ci.storeLockName :=
    List.singleton_inj.mp (List.append_inj' heq rfl).2
  revert hname
  decide

theorem directory_of_adds (hdir : base.node? dir = some .directory) :
    fs.node? dir = some .directory := by
  rw [hadds.node?] at hdir
  split at hdir
  · cases hdir
  · exact hdir

theorem isExpendable_of_adds (h : IsExpendable base store prunes place) :
    IsExpendable fs store prunes place := by
  refine h.of_isEntry ?_ ?_
  · rintro kind dir lastUsed ⟨hdir, key, hmeta⟩
    rw [metadataAt?, node?_metadata_of_adds hadds] at hmeta
    exact ⟨directory_of_adds hadds hdir, key, hmeta⟩
  · rintro dir ⟨hdir, hnone⟩
    rw [node?_metadata_of_adds hadds] at hnone
    exact ⟨directory_of_adds hadds hdir, hnone⟩

end Adds

structure HasLockFile (root : Path) (store : Location)
    (prunes : Instant → RetentionWindow → Prop) (number : Nat) (base : FileSystem) : Prop where
  isStore : IsStore base root store
  names : NamesWithout base root store (IsExpendable base store prunes)
  short : isTooLong (lockPath root) = false
  node : ∃ node, base.node? (store ++ [Ci.storeLockName]) = some node ∧ node.number? = some number

theorem HasLockFile.of_adds (hs : IsStore fs root store)
    (hdir : fs.node? store = some .directory)
    (hnames : NamesWithout fs root store (IsExpendable fs store prunes))
    (hadds : Adds fs base (store ++ [Ci.storeLockName]) (.file number ByteArray.empty false))
    (hnumber : number = fs.nextFile) (hnext : base.nextFile = number + 1)
    (hshort : isTooLong (lockPath root) = false) : HasLockFile root store prunes number base where
  isStore := isStore_of_adds hs hdir hadds hnumber hnext
  names places hplaces := by
    have hsmall := hnames places fun place hplace =>
      isExpendable_of_adds hadds (hplaces place hplace)
    exact directoryAt?_mono (hadds.keeps.withoutAll _) hsmall
  short := hshort
  node := ⟨_, (hadds.node? _).trans (if_pos rfl), rfl⟩

theorem hasLockFile_of_open (hs : IsStore fs root store) (hdir : fs.node? store = some .directory)
    (hnames : NamesWithout fs root store (IsExpendable fs store prunes))
    (hopen : (openLockFile (lockPath root)).outcome fs = (.ok number, base)) :
    HasLockFile root store prunes number base := by
  obtain ⟨hshort, ⟨node, hnode, hnumber, rfl⟩ | ⟨hadds, hnumber, hnext⟩⟩ :=
    openLockFile_child_eq_ok hs.named isName_storeLockName (hs.noLinks _) hopen
  · exact ⟨hs, hnames, hshort, node, hnode, hnumber⟩
  · exact .of_adds hs hdir hnames hadds hnumber hnext hshort

theorem HasLockFile.not_isExpendable (h : HasLockFile root store prunes number base)
    (hpre : dir <+: [Ci.storeLockName]) : ¬ IsExpendable base store prunes dir := by
  intro hdir
  rcases List.prefix_concat_iff.mp (show dir <+: [] ++ [Ci.storeLockName] from hpre) with
    rfl | hnil
  · obtain ⟨node, hnode, hnumber⟩ := h.node
    rw [← List.nil_append [Ci.storeLockName], hdir.node?] at hnode
    cases hnode
    cases hnumber
  · exact hdir.ne_nil (List.prefix_nil.mp hnil)

theorem HasLockFile.opens_again (h : HasLockFile root store prunes number base)
    (hworn : IsWorn base store prunes left) :
    (openLockFile (lockPath root)).outcome left = (.ok number, left) := by
  obtain ⟨node, hnode, hnumber⟩ := h.node
  have hstays := hworn.node?_eq fun _ => h.not_isExpendable
  exact openLockFile_present (hworn.isStore h.isStore h.names).named isName_storeLockName h.short
    (hstays.trans hnode) hnumber

def openedFiles (root : Path) (fs : FileSystem) : FileSystem :=
  ((openLockFile (lockPath root)).outcome fs).2

/-- The lock file has been opened under this number, and since then only prunes have removed. -/
def IsGuarded (fs : FileSystem) (root : Path) (store : Location)
    (prunes : Instant → RetentionWindow → Prop) (number : Nat) (left : FileSystem) : Prop :=
  (openLockFile (lockPath root)).outcome fs = (.ok number, openedFiles root fs) ∧
    IsWorn (openedFiles root fs) store prunes left

theorem isReliable (hs : IsStore fs root store) (hdir : fs.node? store = some .directory)
    (hnames : NamesWithout fs root store (IsExpendable fs store prunes)) :
    IsReliable (lockPath root) fs (IsGuarded fs root store prunes) where
  fails hopen := by
    rw [lockPath, openLockFile_child hs.named isName_storeLockName] at hopen
    split at hopen <;> cases hopen
    rfl
  opens hopen := by
    have hopened : openedFiles root fs = _ := congrArg Prod.snd hopen
    rw [IsGuarded, hopened]
    exact ⟨hopen, .refl _ _ _⟩
  again hkept := (hasLockFile_of_open hs hdir hnames hkept.1).opens_again hkept.2

theorem keeps_isGuarded {remove : Remover} (hs : IsStore fs root store)
    (hdir : fs.node? store = some .directory)
    (hnames : NamesWithout fs root store (IsExpendable fs store prunes))
    (hremove : RemovesStepwise remove) (now : Instant) (policy : Policy)
    (hprunes : policy.dryRun = false → prunes now policy.window) :
    (prunePieces remove root now policy).Keeps (IsGuarded fs root store prunes number) :=
  .and_left fun hopen =>
    have h := hasLockFile_of_open hs hdir hnames hopen
    keeps_prunePieces hremove h.isStore h.names policy hprunes

end CacheUpkeep.Store
