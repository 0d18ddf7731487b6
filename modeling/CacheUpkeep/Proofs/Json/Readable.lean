import CacheUpkeep.Json.Syntax
import CacheUpkeep.Proofs.Json.Members
import Mathlib.Data.List.Nodup
import Mathlib.Data.List.Perm.Basic
import Mathlib.Data.Option.Basic

/-!
# Trees that are read as values

An array or an object is read as a value if all that is in it is, within one level of
nesting less.  What is found in the value of an object with each key once is what its
tree has under that key, wherever it stands there.
-/

namespace CacheUpkeep.Json.Tree

variable {depth : Nat} {items : List Tree} {members : List (Option String × Tree)}

/-- The tree has a value, with at most as many levels of nesting. -/
def ReadableWithin (depth : Nat) (tree : Tree) : Prop :=
  (toJsonWithin depth tree).isSome = true

theorem toJsonWithin_eq_string_iff {tree : Tree} {text : String} :
    toJsonWithin depth tree = some (.string text) ↔ tree = .string (some text) := by
  cases tree with
  | string content => cases content <;> simp [toJsonWithin]
  | number n => simp [toJsonWithin]
  | array items =>
      rw [toJsonWithin]
      split <;> simp
  | object members =>
      rw [toJsonWithin]
      split <;> simp
  | _ => simp [toJsonWithin]

/-! ## Items -/

theorem itemsWithin_cons_eq_some {item : Tree} {values : List Json}
    (h : itemsWithin depth (item :: items) = some values) :
    ∃ value rest, toJsonWithin depth item = some value ∧
      itemsWithin depth items = some rest ∧ values = value :: rest := by
  simp only [itemsWithin, Option.bind_eq_bind, Option.bind_eq_some_iff] at h
  obtain ⟨value, hvalue, rest, hrest, hcons⟩ := h
  exact ⟨value, rest, hvalue, hrest, (Option.some.inj hcons).symm⟩

theorem itemsWithin_isSome_iff :
    (itemsWithin depth items).isSome = true ↔ ∀ item ∈ items, ReadableWithin depth item := by
  induction items with
  | nil => simp [itemsWithin]
  | cons item rest ih =>
      rw [List.forall_mem_cons, ← ih, ReadableWithin, itemsWithin]
      cases toJsonWithin depth item <;> cases itemsWithin depth rest <;> simp

theorem readableWithin_array_iff (hdepth : 1 < depth) :
    ReadableWithin depth (.array items) ↔ ∀ item ∈ items, ReadableWithin (depth - 1) item := by
  rw [ReadableWithin, toJsonWithin, if_neg (by omega), Option.isSome_map, itemsWithin_isSome_iff]

/-! ## Members -/

theorem membersWithin_cons_eq_some {member : Option String × Tree} {values : Members}
    (h : membersWithin depth (member :: members) = some values) :
    ∃ key value rest, member.1 = some key ∧ toJsonWithin depth member.2 = some value ∧
      membersWithin depth members = some rest ∧ values = (key, value) :: rest := by
  obtain ⟨key?, tree⟩ := member
  simp only [membersWithin, Option.bind_eq_bind, Option.bind_eq_some_iff] at h
  obtain ⟨key, hkey, value, hvalue, rest, hrest, hcons⟩ := h
  exact ⟨key, value, rest, hkey, hvalue, hrest, (Option.some.inj hcons).symm⟩

theorem keys_of_membersWithin {values : Members} (h : membersWithin depth members = some values) :
    members.map Prod.fst = values.map fun member => some member.1 := by
  induction members generalizing values with
  | nil =>
      cases h
      rfl
  | cons member rest ih =>
      obtain ⟨key, value, values, hkey, -, hvalues, rfl⟩ := membersWithin_cons_eq_some h
      rw [List.map_cons, List.map_cons, ih hvalues, hkey]

theorem mem_of_membersWithin {values : Members} (h : membersWithin depth members = some values)
    {key : String} {value : Json} :
    (key, value) ∈ values ↔
      ∃ tree, (some key, tree) ∈ members ∧ toJsonWithin depth tree = some value := by
  induction members generalizing values with
  | nil =>
      cases h
      simp
  | cons member rest ih =>
      obtain ⟨first, below, values, hfirst, hbelow, hvalues, rfl⟩ := membersWithin_cons_eq_some h
      rw [List.mem_cons, ih hvalues]
      constructor
      · rintro (heq | ⟨tree, hmem, htree⟩)
        · cases heq
          exact ⟨member.2, hfirst ▸ List.mem_cons_self, hbelow⟩
        · exact ⟨tree, List.mem_cons_of_mem _ hmem, htree⟩
      · rintro ⟨tree, hmem, htree⟩
        rcases List.mem_cons.mp hmem with rfl | hmem
        · cases hfirst
          exact .inl (by rw [Option.some.inj (hbelow.symm.trans htree)])
        · exact .inr ⟨tree, hmem, htree⟩

theorem membersWithin_isSome_iff :
    (membersWithin depth members).isSome = true ↔
      ∀ member ∈ members, member.1.isSome = true ∧ ReadableWithin depth member.2 := by
  induction members with
  | nil => simp [membersWithin]
  | cons member rest ih =>
      obtain ⟨key, tree⟩ := member
      rw [List.forall_mem_cons, ← ih, ReadableWithin, membersWithin]
      cases key <;> cases toJsonWithin depth tree <;> cases membersWithin depth rest <;> simp

theorem readableWithin_object_iff (hdepth : 1 < depth) :
    ReadableWithin depth (.object members) ↔
      ∀ member ∈ members, member.1.isSome = true ∧ ReadableWithin (depth - 1) member.2 := by
  rw [ReadableWithin, toJsonWithin, if_neg (by omega), Option.isSome_map, membersWithin_isSome_iff]

/-! ## Nested arrays -/

def nested (tree : Tree) : Nat → Tree
  | 0 => tree
  | k + 1 => .array [nested tree k]

theorem readableWithin_nested_null_iff {k : Nat} :
    ReadableWithin depth (nested .null k) ↔ k = 0 ∨ k < depth := by
  induction k generalizing depth with
  | zero => simp [nested, ReadableWithin, toJsonWithin]
  | succ k ih =>
      by_cases hdepth : 1 < depth
      · rw [nested, readableWithin_array_iff hdepth, List.forall_mem_singleton, ih]
        omega
      · have hnone : toJsonWithin depth (nested .null (k + 1)) = none := by
          rw [nested, toJsonWithin, if_pos (by omega)]
        simp only [ReadableWithin, hnone, Option.isSome_none, Bool.false_eq_true, false_iff]
        omega

/-! ## Objects with known members -/

/-- The tree is an object with these members, in any order. -/
def HasMembers (tree : Tree) (members : List (String × Tree)) : Prop :=
  ∃ written, tree = .object written ∧
    written.Perm (members.map fun member => (some member.1, member.2))

variable {tree : Tree} {known : List (String × Tree)} {value found : Json} {key : String}

theorem HasMembers.readableWithin_iff (h : HasMembers tree known) (hdepth : 1 < depth) :
    ReadableWithin depth tree ↔ ∀ member ∈ known, ReadableWithin (depth - 1) member.2 := by
  obtain ⟨written, rfl, hperm⟩ := h
  rw [readableWithin_object_iff hdepth]
  simp only [hperm.mem_iff, List.forall_mem_map, Option.isSome_some, true_and]

theorem HasMembers.field?_eq_some_iff (h : HasMembers tree known)
    (hnodup : (known.map Prod.fst).Nodup) (hvalue : toJsonWithin depth tree = some value) :
    value.field? key = some found ↔
      ∃ below, (key, below) ∈ known ∧ toJsonWithin (depth - 1) below = some found := by
  obtain ⟨written, rfl, hperm⟩ := h
  rw [toJsonWithin] at hvalue
  split at hvalue
  · cases hvalue
  obtain ⟨values, hvalues, rfl⟩ := Option.map_eq_some_iff.mp hvalue
  have hkeys : ((values.map Prod.fst).map some).Perm ((known.map Prod.fst).map some) := by
    have hwritten := hperm.map Prod.fst
    rw [keys_of_membersWithin hvalues] at hwritten
    simpa only [List.map_map, Function.comp_def] using hwritten
  have honce : (values.map Prod.fst).Nodup :=
    .of_map some (hkeys.nodup_iff.mpr (hnodup.map (Option.some_injective _)))
  rw [field?, member?_sortedMembers_eq_some_iff honce, mem_of_membersWithin hvalues]
  simp only [hperm.mem_iff, List.mem_map, Prod.mk.injEq, Option.some.injEq, Prod.exists,
    exists_eq_right_right, exists_eq_right]

end CacheUpkeep.Json.Tree
