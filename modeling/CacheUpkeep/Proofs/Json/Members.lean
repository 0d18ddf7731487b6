import CacheUpkeep.Json.Value
import Mathlib.Data.List.Basic
import Mathlib.Data.String.Basic

/-!
# Members of objects

Looking a key up in the members of an object, the value at the end of a path of
keys, and objects that have each key once.  Members in the order of their keys are
told by what is looked up in them.
-/

namespace CacheUpkeep.Json

/-- The value at the end of a path of keys; the empty path leads to the value itself. -/
def at? : List String → Json → Option Json
  | [], value => some value
  | key :: rest, .object members => (member? key members).bind (at? rest)
  | _ :: _, _ => none

def isObject : Json → Bool
  | .object _ => true
  | _ => false

/-- The value and all that is in it have each key of an object once. -/
inductive HasDistinctKeys : Json → Prop where
  | null : HasDistinctKeys .null
  | bool (b : Bool) : HasDistinctKeys (.bool b)
  | number (n : JsonNumber) : HasDistinctKeys (.number n)
  | string (text : String) : HasDistinctKeys (.string text)
  | array {items : List Json} (below : ∀ item ∈ items, HasDistinctKeys item) :
      HasDistinctKeys (.array items)
  | object {members : Members} (nodup : (members.map Prod.fst).Nodup)
      (below : ∀ member ∈ members, HasDistinctKeys member.2) : HasDistinctKeys (.object members)

def AreSorted (members : Members) : Prop :=
  (members.map Prod.fst).Pairwise (· < ·)

instance (members : Members) : Decidable (AreSorted members) :=
  inferInstanceAs (Decidable ((members.map Prod.fst).Pairwise (· < ·)))

variable {key other : String} {value : Json} {members members' : Members}

theorem isObject_iff : value.isObject = true ↔ ∃ members, value = .object members := by
  cases value <;> simp [isObject]

theorem HasDistinctKeys.nodup (h : HasDistinctKeys (.object members)) :
    (members.map Prod.fst).Nodup := by
  cases h with
  | object nodup below => exact nodup

/-! ## Looking up -/

@[simp] theorem member?_nil (key : String) : member? key [] = none := rfl

theorem member?_cons (key other : String) (value : Json) (rest : Members) :
    member? key ((other, value) :: rest) =
      if key = other then some value else member? key rest := by
  by_cases h : key = other
  · simp [member?, h]
  · have hne : (key == other) = false := by simpa using h
    simp [member?, List.lookup_cons, hne, h]

theorem mem_of_member? (h : member? key members = some value) : (key, value) ∈ members := by
  induction members with
  | nil => cases h
  | cons member rest ih =>
      obtain ⟨other, below⟩ := member
      rw [member?_cons] at h
      split at h
      · next heq =>
          cases h
          rw [heq]
          exact List.mem_cons_self
      · exact List.mem_cons_of_mem _ (ih h)

theorem member?_eq_none_iff : member? key members = none ↔ key ∉ members.map Prod.fst := by
  induction members with
  | nil => simp
  | cons member rest ih =>
      obtain ⟨other, below⟩ := member
      rw [member?_cons]
      split
      · next heq => simp [heq]
      · next hne => rw [ih, List.map_cons, List.mem_cons, not_or, and_iff_right hne]

theorem member?_of_mem (hnodup : (members.map Prod.fst).Nodup) (hmem : (key, value) ∈ members) :
    member? key members = some value := by
  induction members with
  | nil => cases hmem
  | cons member rest ih =>
      obtain ⟨hhead, htail⟩ := List.nodup_cons.mp hnodup
      rw [member?_cons]
      rcases List.mem_cons.mp hmem with heq | hrest
      · cases heq
        exact if_pos rfl
      · rw [if_neg, ih htail hrest]
        rintro rfl
        exact hhead (List.mem_map.mpr ⟨_, hrest, rfl⟩)

theorem HasDistinctKeys.member? (h : HasDistinctKeys (.object members))
    (hvalue : Json.member? key members = some value) : HasDistinctKeys value := by
  cases h with
  | object nodup below => exact below _ (mem_of_member? hvalue)

@[simp] theorem at?_nil (value : Json) : value.at? [] = some value := rfl

@[simp] theorem at?_object (key : String) (path : List String) (members : Members) :
    (object members).at? (key :: path) = (Json.member? key members).bind (at? path) := rfl

theorem at?_cons_of_not_isObject (h : value.isObject = false) (key : String)
    (path : List String) : value.at? (key :: path) = none := by
  cases value <;> first | rfl | cases h

theorem member?_insert (key other : String) (value : Json) (members : Members) :
    member? other (insert key value members) =
      if other = key then some value else member? other members := by
  induction members with
  | nil => simp [insert, member?_cons]
  | cons member rest ih =>
      obtain ⟨first, below⟩ := member
      unfold insert
      split
      · rw [member?_cons]
      · split
        · next heq =>
            subst heq
            rw [member?_cons, member?_cons]
            split <;> rfl
        · next hne =>
            rw [member?_cons, ih, member?_cons]
            by_cases hfirst : other = first
            · subst hfirst
              rw [if_pos rfl, if_neg (Ne.symm hne), if_pos rfl]
            · rw [if_neg hfirst, if_neg hfirst]

theorem member?_append (key : String) (members members' : Members) :
    member? key (members ++ members') = (member? key members).or (member? key members') :=
  List.lookup_append

theorem member?_eq_some_iff (hnodup : (members.map Prod.fst).Nodup) :
    member? key members = some value ↔ (key, value) ∈ members :=
  ⟨mem_of_member?, member?_of_mem hnodup⟩

/-! ## Sorted members -/

theorem AreSorted.nodup (h : AreSorted members) : (members.map Prod.fst).Nodup :=
  h.imp fun hlt => ne_of_lt hlt

theorem mem_keys_insert : other ∈ (insert key value members).map Prod.fst ↔
    other = key ∨ other ∈ members.map Prod.fst := by
  have hnone : member? other (insert key value members) = none ↔
      other ≠ key ∧ member? other members = none := by
    rw [member?_insert]
    split <;> simp_all
  rw [member?_eq_none_iff, member?_eq_none_iff] at hnone
  tauto

theorem AreSorted.insert (h : AreSorted members) (key : String) (value : Json) :
    AreSorted (Json.insert key value members) := by
  induction members with
  | nil => exact List.pairwise_singleton _ _
  | cons member rest ih =>
      obtain ⟨first, below⟩ := member
      obtain ⟨hfirst, hrest⟩ := List.pairwise_cons.mp h
      unfold Json.insert
      split
      · next hlt =>
          refine List.pairwise_cons.mpr ⟨fun other hother => ?_, h⟩
          rcases List.mem_cons.mp hother with rfl | hother
          · exact hlt
          · exact hlt.trans (hfirst other hother)
      · next hge =>
          split
          · next heq =>
              subst heq
              exact h
          · next hne =>
              refine List.pairwise_cons.mpr ⟨fun other hother => ?_, ih hrest⟩
              rcases mem_keys_insert.mp hother with rfl | hother
              · exact lt_of_le_of_ne (not_lt.mp hge) (Ne.symm hne)
              · exact hfirst other hother

theorem member?_sortedMembers (key : String) (members : Members) :
    member? key (sortedMembers members) = member? key members.reverse := by
  suffices hfold : ∀ sorted : Members,
      member? key (members.foldl (fun sorted next => Json.insert next.1 next.2 sorted) sorted) =
        (member? key members.reverse).or (member? key sorted) from
    (hfold []).trans Option.or_none
  induction members with
  | nil => exact fun sorted => rfl
  | cons first rest ih =>
      intro sorted
      rw [List.foldl_cons, ih, List.reverse_cons, member?_append, Option.or_assoc,
        member?_insert, member?_cons]
      split <;> rfl

theorem member?_sortedMembers_eq_some_iff (hnodup : (members.map Prod.fst).Nodup) :
    member? key (sortedMembers members) = some value ↔ (key, value) ∈ members := by
  have hreverse : (members.reverse.map Prod.fst).Nodup := by
    rw [List.map_reverse]
    exact (List.reverse_perm _).symm.nodup hnodup
  rw [member?_sortedMembers, member?_eq_some_iff hreverse, List.mem_reverse]

theorem AreSorted.ext (h : AreSorted members) (h' : AreSorted members')
    (hlookup : ∀ key, member? key members = member? key members') : members = members' := by
  have hmem : ∀ member, member ∈ members ↔ member ∈ members' := by
    rintro ⟨key, value⟩
    constructor
    · intro hmem
      exact mem_of_member? (hlookup key ▸ member?_of_mem h.nodup hmem)
    · intro hmem
      exact mem_of_member? ((hlookup key).symm ▸ member?_of_mem h'.nodup hmem)
  have hsorted := List.pairwise_map.mp h
  have hsorted' := List.pairwise_map.mp h'
  have hnodup : ∀ {a b : String × Json}, a.1 < b.1 → a ≠ b := fun hab =>
    ne_of_apply_ne Prod.fst (ne_of_lt hab)
  have hperm : members.Perm members' :=
    (List.perm_ext_iff_of_nodup (hsorted.imp hnodup) (hsorted'.imp hnodup)).mpr hmem
  exact hperm.eq_of_pairwise (fun a b _ _ hab hba => absurd hba (lt_asymm hab)) hsorted hsorted'

end CacheUpkeep.Json
