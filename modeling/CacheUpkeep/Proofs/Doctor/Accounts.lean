import CacheUpkeep.Doctor.Checks
import CacheUpkeep.Proofs.Json.Readable

/-!
# Accounts of remotes

Conan prints its table of remotes and users as a list of entries or as an object keyed by
remote.  Both tell the same about each remote, for every order and for every value that an
account may hold, as long as the output can be read.
-/

namespace CacheUpkeep.Doctor

open Json (Tree)
open Json.Tree

/-! ## Accounts -/

/-- A remote with what Conan tells about it, each thing once and none of them the remote's
name. -/
structure Account where
  remote : String
  details : List (String × Tree)
  detailsOnce : (details.map Prod.fst).Nodup
  nameless : ∀ detail ∈ details, detail.1 ≠ "name" ∧ detail.1 ≠ "remote"

namespace Account

def Readable (account : Account) : Prop :=
  ∀ detail ∈ account.details, ReadableWithin (depthLimit - 2) detail.2

def HasUser (account : Account) : Prop :=
  ∃ name, name ≠ "" ∧ ("user_name", .string (some name)) ∈ account.details

/-- An object that names the remote in one of the two ways, with the details. -/
def IsEntry (account : Account) (item : Tree) : Prop :=
  ∃ key, (key = "name" ∨ key = "remote") ∧
    item.HasMembers ((key, .string (some account.remote)) :: account.details)

end Account

/-- A value that can be read as an item of an output and is no object that names a remote. -/
def IsStray (item : Tree) : Prop :=
  ∃ value, toJsonWithin (depthLimit - 1) item = some value ∧
    ∀ text, value.field? "name" ≠ some (.string text) ∧ value.field? "remote" ≠ some (.string text)

inductive Entries : List Account → List Tree → Prop
  | none : Entries [] []
  | entry {account : Account} {accounts : List Account} {item : Tree} {items : List Tree}
      (hentry : account.IsEntry item) (hrest : Entries accounts items) :
      Entries (account :: accounts) (item :: items)
  | stray {accounts : List Account} {item : Tree} {items : List Tree}
      (hstray : IsStray item) (hrest : Entries accounts items) : Entries accounts (item :: items)

structure Accounts where
  rows : List Account
  remotesOnce : (rows.map Account.remote).Nodup

namespace Accounts

def Readable (accounts : Accounts) : Prop :=
  ∀ account ∈ accounts.rows, account.Readable

def LoggedIn (accounts : Accounts) (remote : String) : Prop :=
  ∃ account ∈ accounts.rows, account.remote = remote ∧ account.HasUser

/-- The text lists the accounts, in any order. -/
def IsListed (accounts : Accounts) (text : String) : Prop :=
  ∃ rows items, rows.Perm accounts.rows ∧ Entries rows items ∧
    Tree.read text = some (.array items)

def keyed (accounts : Accounts) (entryOf : Account → Tree) : List (String × Tree) :=
  accounts.rows.map fun account => (account.remote, entryOf account)

/-- The text is an object with the details of each account under its remote. -/
def IsKeyed (accounts : Accounts) (text : String) : Prop :=
  ∃ entryOf tree, (∀ account ∈ accounts.rows, (entryOf account).HasMembers account.details) ∧
    tree.HasMembers (accounts.keyed entryOf) ∧ Tree.read text = some tree

end Accounts

/-! ## The user of an entry -/

def entryUser? (entry : Json) : Option String := do
  let name ← (← entry.field? "user_name").string?
  if name = "" then none else some name

theorem userName?_eq (users : Json) (remote : String) :
    userName? users remote = loginEntry? users remote >>= entryUser? := rfl

theorem entryUser?_isSome_iff (entry : Json) :
    (entryUser? entry).isSome = true ↔
      ∃ name, name ≠ "" ∧ entry.field? "user_name" = some (.string name) := by
  unfold entryUser?
  cases entry.field? "user_name" with
  | none => simp
  | some value =>
      cases value with
      | string name =>
          by_cases hname : name = ""
          · simp [Json.string?, hname]
          · simp [Json.string?, hname]
      | _ => simp [Json.string?]

section

variable {account : Account} {depth : Nat} {item : Tree} {value : Json} {remote : String}

theorem entryUser?_isSome_iff_hasUser {known : List (String × Tree)}
    (hitem : item.HasMembers known) (honce : (known.map Prod.fst).Nodup)
    (hknown : ∀ tree, ("user_name", tree) ∈ known ↔ ("user_name", tree) ∈ account.details)
    (hvalue : toJsonWithin depth item = some value) :
    (entryUser? value).isSome = true ↔ account.HasUser := by
  rw [entryUser?_isSome_iff]
  simp only [hitem.field?_eq_some_iff honce hvalue, hknown, toJsonWithin_eq_string_iff,
    Account.HasUser, exists_eq_right]

theorem fieldIs_iff (value : Json) (name text : String) :
    fieldIs value name text = true ↔ value.field? name = some (.string text) := by
  unfold fieldIs
  split
  · next t heq => simp [heq]
  · next hother => exact ⟨nofun, fun heq => absurd heq (hother text)⟩

/-! ## Lists of entries -/

def names (value : Json) (remote : String) : Bool :=
  fieldIs value "name" remote || fieldIs value "remote" remote

theorem userName?_array_cons (value : Json) (values : List Json) (remote : String) :
    userName? (.array (value :: values)) remote =
      if names value remote then entryUser? value else userName? (.array values) remote := by
  simp only [userName?_eq, loginEntry?, Option.bind_eq_bind]
  cases hnames : names value remote with
  | true => rw [List.find?_cons_of_pos (by exact hnames), if_pos rfl, Option.bind_some]
  | false => rw [List.find?_cons_of_neg (by simpa [names] using hnames), if_neg Bool.false_ne_true]

theorem namedMembers_once {key : String} (account : Account) (hkey : key = "name" ∨ key = "remote")
    (tree : Tree) : (((key, tree) :: account.details).map Prod.fst).Nodup := by
  refine List.nodup_cons.mpr ⟨fun hmem => ?_, account.detailsOnce⟩
  obtain ⟨detail, hdetail, rfl⟩ := List.mem_map.mp hmem
  obtain ⟨hname, hremote⟩ := account.nameless detail hdetail
  exact hkey.elim hname hremote

theorem names_iff (hentry : account.IsEntry item) (hvalue : toJsonWithin depth item = some value) :
    names value remote = true ↔ account.remote = remote := by
  obtain ⟨key, hkey, hitem⟩ := hentry
  have hfield (name : String) (hname : name = "name" ∨ name = "remote") :
      fieldIs value name remote = true ↔ name = key ∧ account.remote = remote := by
    have hnot (tree : Tree) : (name, tree) ∉ account.details := fun hmem =>
      hname.elim (account.nameless _ hmem).1 (account.nameless _ hmem).2
    rw [fieldIs_iff, hitem.field?_eq_some_iff (namedMembers_once account hkey _) hvalue]
    simp only [toJsonWithin_eq_string_iff, exists_eq_right, List.mem_cons, hnot, or_false,
      Prod.mk.injEq, Tree.string.injEq, Option.some.injEq, eq_comm (a := remote)]
  rw [names, Bool.or_eq_true, hfield "name" (.inl rfl), hfield "remote" (.inr rfl)]
  rcases hkey with rfl | rfl <;> simp

theorem IsStray.names_eq_false (hstray : IsStray item)
    (hvalue : toJsonWithin (depthLimit - 1) item = some value) (remote : String) :
    names value remote = false := by
  obtain ⟨read, hread, hnone⟩ := hstray
  cases hread.symm.trans hvalue
  rw [names, Bool.or_eq_false_iff, Bool.eq_false_iff, Bool.eq_false_iff, Ne, Ne, fieldIs_iff,
    fieldIs_iff]
  exact hnone remote

theorem entryUser?_isSome_iff_of_isEntry (hentry : account.IsEntry item)
    (hvalue : toJsonWithin depth item = some value) :
    (entryUser? value).isSome = true ↔ account.HasUser := by
  obtain ⟨key, hkey, hitem⟩ := hentry
  refine entryUser?_isSome_iff_hasUser hitem (namedMembers_once account hkey _) (fun tree => ?_)
    hvalue
  have hne : "user_name" ≠ key := by
    rcases hkey with rfl | rfl <;> decide
  simp [hne]

variable {rows : List Account} {items : List Tree} {values : List Json}

theorem userName?_array_isSome_iff (hentries : Entries rows items)
    (honce : (rows.map Account.remote).Nodup)
    (hvalues : itemsWithin (depthLimit - 1) items = some values) (remote : String) :
    (userName? (.array values) remote).isSome = true ↔
      ∃ account ∈ rows, account.remote = remote ∧ account.HasUser := by
  induction hentries generalizing values with
  | none =>
      cases hvalues
      simp [userName?_eq, loginEntry?]
  | @entry account rows item items hentry _ ih =>
      obtain ⟨hfirst, hrest⟩ := List.nodup_cons.mp honce
      obtain ⟨value, rest, hvalue, hread, rfl⟩ := itemsWithin_cons_eq_some hvalues
      rw [userName?_array_cons, List.exists_mem_cons_iff]
      by_cases hremote : account.remote = remote
      · have hothers : ¬ ∃ other ∈ rows, other.remote = remote ∧ other.HasUser := by
          rintro ⟨other, hother, heq, -⟩
          exact hfirst (List.mem_map.mpr ⟨other, hother, heq.trans hremote.symm⟩)
        rw [if_pos ((names_iff hentry hvalue).mpr hremote),
          entryUser?_isSome_iff_of_isEntry hentry hvalue, or_iff_left hothers,
          and_iff_right hremote]
      · rw [if_neg (mt (names_iff hentry hvalue).mp hremote), ih hrest hread]
        exact (or_iff_right fun h => hremote h.1).symm
  | @stray rows item items hstray _ ih =>
      obtain ⟨value, rest, hvalue, hread, rfl⟩ := itemsWithin_cons_eq_some hvalues
      rw [userName?_array_cons, hstray.names_eq_false hvalue, if_neg Bool.false_ne_true,
        ih honce hread]

theorem Account.IsEntry.readableWithin_iff (hentry : account.IsEntry item) :
    ReadableWithin (depthLimit - 1) item ↔ account.Readable := by
  obtain ⟨key, -, hitem⟩ := hentry
  rw [hitem.readableWithin_iff (by decide), List.forall_mem_cons]
  exact and_iff_right rfl

theorem Entries.readable_iff (hentries : Entries rows items) :
    (∀ item ∈ items, ReadableWithin (depthLimit - 1) item) ↔
      ∀ account ∈ rows, account.Readable := by
  induction hentries with
  | none => simp
  | entry hentry _ ih =>
      rw [List.forall_mem_cons, List.forall_mem_cons, ih, hentry.readableWithin_iff]
  | stray hstray _ ih =>
      obtain ⟨value, hvalue, -⟩ := hstray
      rw [List.forall_mem_cons, ih]
      exact and_iff_right (Option.isSome_iff_exists.mpr ⟨value, hvalue⟩)

end

/-! ## Objects keyed by remote -/

theorem loginEntry?_eq_field? {depth : Nat} {tree : Tree} {known : List (String × Tree)}
    {value : Json} (htree : tree.HasMembers known) (hvalue : toJsonWithin depth tree = some value)
    (remote : String) : loginEntry? value remote = value.field? remote := by
  obtain ⟨written, rfl, -⟩ := htree
  rw [toJsonWithin] at hvalue
  split at hvalue
  · cases hvalue
  · obtain ⟨values, -, rfl⟩ := Option.map_eq_some_iff.mp hvalue
    rfl

section

variable {accounts : Accounts} {entryOf : Account → Tree} {tree : Tree} {value : Json}

theorem keyed_once (accounts : Accounts) (entryOf : Account → Tree) :
    ((accounts.keyed entryOf).map Prod.fst).Nodup := by
  rw [Accounts.keyed, List.map_map]
  exact accounts.remotesOnce

theorem userName?_keyed_isSome_iff
    (hentries : ∀ account ∈ accounts.rows, (entryOf account).HasMembers account.details)
    (htree : tree.HasMembers (accounts.keyed entryOf))
    (hvalue : toJsonWithin depthLimit tree = some value) (remote : String) :
    (userName? value remote).isSome = true ↔ accounts.LoggedIn remote := by
  have hfield {found : Json} : value.field? remote = some found ↔
      ∃ below, (remote, below) ∈ accounts.keyed entryOf ∧
        toJsonWithin (depthLimit - 1) below = some found :=
    htree.field?_eq_some_iff (keyed_once accounts entryOf) hvalue
  have huser {account : Account} {found : Json} (haccount : account ∈ accounts.rows)
      (hread : toJsonWithin (depthLimit - 1) (entryOf account) = some found) :
      (entryUser? found).isSome = true ↔ account.HasUser :=
    entryUser?_isSome_iff_hasUser (hentries account haccount) account.detailsOnce
      (fun _ => Iff.rfl) hread
  rw [userName?_eq, loginEntry?_eq_field? htree hvalue, Option.bind_eq_bind, Option.isSome_bind,
    Option.any_eq_true]
  constructor
  · rintro ⟨found, hfound, hname⟩
    obtain ⟨below, hbelow, hread⟩ := hfield.mp hfound
    obtain ⟨account, haccount, heq⟩ := List.mem_map.mp hbelow
    cases heq
    exact ⟨account, haccount, rfl, (huser haccount hread).mp hname⟩
  · rintro ⟨account, haccount, rfl, hname⟩
    have hmem : (account.remote, entryOf account) ∈ accounts.keyed entryOf :=
      List.mem_map.mpr ⟨account, haccount, rfl⟩
    have hall := (htree.readableWithin_iff (by decide)).mp (Option.isSome_of_mem hvalue)
    obtain ⟨found, hread⟩ := Option.isSome_iff_exists.mp (hall _ hmem)
    exact ⟨found, hfield.mpr ⟨_, hmem, hread⟩, (huser haccount hread).mpr hname⟩

end

/-! ## What an output tells -/

/-- The text can be read just when the accounts can, and tells who is logged in then. -/
structure Tells (text : String) (accounts : Accounts) : Prop where
  readable : (Json.read text).isSome = true ↔ accounts.Readable
  users : ∀ value, Json.read text = some value → ∀ remote,
    (userName? value remote).isSome = true ↔ accounts.LoggedIn remote

variable {accounts : Accounts} {text : String}

theorem read_eq_of_tree {tree : Tree} (h : Tree.read text = some tree) :
    Json.read text = toJsonWithin depthLimit tree := by
  rw [Json.read, h]
  rfl

theorem Accounts.IsListed.tells (h : accounts.IsListed text) : Tells text accounts := by
  obtain ⟨rows, items, hperm, hentries, htree⟩ := h
  have honce : (rows.map Account.remote).Nodup :=
    (hperm.map Account.remote).nodup_iff.mpr accounts.remotesOnce
  have hread := read_eq_of_tree htree
  constructor
  · rw [hread]
    refine (readableWithin_array_iff (by decide)).trans (hentries.readable_iff.trans ?_)
    simp only [hperm.mem_iff, Accounts.Readable]
  · intro value hvalue remote
    rw [hread, toJsonWithin, if_neg (by decide)] at hvalue
    obtain ⟨values, hvalues, rfl⟩ := Option.map_eq_some_iff.mp hvalue
    rw [userName?_array_isSome_iff hentries honce hvalues]
    simp only [hperm.mem_iff, Accounts.LoggedIn]

theorem Accounts.IsKeyed.tells (h : accounts.IsKeyed text) : Tells text accounts := by
  obtain ⟨entryOf, tree, hentries, hmembers, htree⟩ := h
  have hread := read_eq_of_tree htree
  constructor
  · rw [hread]
    refine (hmembers.readableWithin_iff (by decide)).trans ?_
    rw [Accounts.keyed, List.forall_mem_map]
    exact forall₂_congr fun account haccount =>
      (hentries account haccount).readableWithin_iff (by decide)
  · intro value hvalue remote
    rw [hread] at hvalue
    exact userName?_keyed_isSome_iff hentries hmembers hvalue remote

end CacheUpkeep.Doctor
