import CacheUpkeep.Proofs.Calendar.Timestamp
import CacheUpkeep.Proofs.Json.Strings
import CacheUpkeep.Proofs.Outcome
import CacheUpkeep.Proofs.Store.Tree

/-!
# Entry metadata round trips

The metadata that is written for an entry is read back as it was, also from the
octets of a file, with a leap second that does not end a minute carried to the
next second.  No time that is read has such a leap second.
-/

namespace CacheUpkeep.Store

open CacheUpkeep.Calendar CacheUpkeep.Json CacheUpkeep.FileSystem

namespace EntryMeta

theorem ofName?_name (kind : EntryKind) : EntryKind.ofName? kind.name = some kind := by
  cases kind <;> rfl

theorem toJson_eq (m : EntryMeta) :
    m.toJson = .object ([("key", m.key), ("kind", m.kind.name),
      ("last_used", Timestamp.write m.lastUsed)].map Tree.stringMember) := rfl

def carried (m : EntryMeta) : EntryMeta :=
  { m with lastUsed := m.lastUsed.carried }

theorem carried_eq_self {m : EntryMeta} (h : m.lastUsed.IsRegular) : m.carried = m := by
  rw [carried, Instant.carried_eq_self h]

theorem carried_eq_self_iff {m : EntryMeta} : m.carried = m ↔ m.lastUsed.IsRegular := by
  refine ⟨fun h => ?_, carried_eq_self⟩
  rw [← Instant.carried_eq_self_iff]
  exact congrArg lastUsed h

theorem read_write (m : EntryMeta) : read m.write = .ok m.carried := by
  have htree : Tree.read m.write = some (.object ([("key", m.key), ("kind", m.kind.name),
      ("last_used", Timestamp.write m.lastUsed)].map Tree.stringTree)) := by
    rw [write, toJson_eq]
    exact Tree.read_pretty_object (by simp)
  have hkey : keyOf (.string (some m.key)) = .ok m.key := rfl
  have hkind : kindOf (.string (some m.kind.name)) = .ok m.kind := by
    simp [kindOf, kindOfName, ofName?_name]
  have hused : lastUsedOf (.string (some (Timestamp.write m.lastUsed))) =
      .ok m.lastUsed.carried := by
    simp [lastUsedOf, Timestamp.read_write]
  unfold read
  rw [htree]
  simp [ofTree, Draft.members, Draft.member, Draft.finish, Tree.stringTree, hkey, hkind, hused,
    Except.map, bind, Except.bind, carried]

theorem read_write_eq_ok_iff {m : EntryMeta} : read m.write = .ok m ↔ m.lastUsed.IsRegular := by
  rw [read_write, Except.ok.injEq, carried_eq_self_iff]

/-! ## Times that are read -/

theorem lastUsedOf_isRegular {tree : Tree} {t : Instant} (h : lastUsedOf tree = .ok t) :
    t.IsRegular := by
  unfold lastUsedOf at h
  split at h
  · next text =>
      cases hread : Timestamp.read text with
      | none => simp [hread] at h
      | some time =>
          rw [hread] at h
          cases h
          exact Timestamp.read_isRegular hread
  · cases h

def Draft.IsRegular (d : Draft) : Prop :=
  ∀ t, d.lastUsed = some t → t.IsRegular

theorem Draft.member_isRegular {d d' : Draft} {name : String} {value : Tree}
    (hd : d.IsRegular) (h : d.member name value = .ok d') : d'.IsRegular := by
  unfold Draft.member at h
  split at h
  · split at h
    · cases h
    · obtain ⟨key, -, rfl⟩ := map_eq_ok h
      exact hd
  · split at h
    · split at h
      · cases h
      · obtain ⟨kind, -, rfl⟩ := map_eq_ok h
        exact hd
    · split at h
      · split at h
        · cases h
        · obtain ⟨t, ht, rfl⟩ := map_eq_ok h
          rintro _ ⟨⟩
          exact lastUsedOf_isRegular ht
      · cases h
        exact hd

theorem Draft.members_isRegular {members : List (Option String × Tree)} {d d' : Draft}
    (hd : d.IsRegular) (h : d.members members = .ok d') : d'.IsRegular := by
  induction members generalizing d with
  | nil =>
      cases h
      exact hd
  | cons first rest ih =>
      obtain ⟨name, value⟩ := first
      cases name with
      | none => cases h
      | some name =>
          obtain ⟨next, hnext, hrest⟩ := except_bind_eq_ok_iff.mp h
          exact ih (Draft.member_isRegular hd hnext) hrest

theorem Draft.finish_isRegular {d : Draft} {m : EntryMeta} (hd : d.IsRegular)
    (h : d.finish = .ok m) : m.lastUsed.IsRegular := by
  unfold Draft.finish at h
  split at h
  · cases h
  · cases h
  · cases h
  · next hused =>
      cases h
      exact hd _ hused

theorem ofItems_isRegular {items : List Tree} {m : EntryMeta} (h : ofItems items = .ok m) :
    m.lastUsed.IsRegular := by
  unfold ofItems at h
  split at h
  · cases h
  · obtain ⟨_, -, ⟨⟩⟩ := except_bind_eq_ok_iff.mp h
  · obtain ⟨_, -, h⟩ := except_bind_eq_ok_iff.mp h
    obtain ⟨_, -, ⟨⟩⟩ := except_bind_eq_ok_iff.mp h
  · obtain ⟨key, -, h⟩ := except_bind_eq_ok_iff.mp h
    obtain ⟨kind, -, h⟩ := except_bind_eq_ok_iff.mp h
    obtain ⟨t, ht, h⟩ := except_bind_eq_ok_iff.mp h
    split at h
    · cases h
      exact lastUsedOf_isRegular ht
    · cases h

theorem ofTree_isRegular {tree : Tree} {m : EntryMeta} (h : ofTree tree = .ok m) :
    m.lastUsed.IsRegular := by
  cases tree with
  | object members =>
      obtain ⟨d, hd, hfinish⟩ := except_bind_eq_ok_iff.mp h
      exact Draft.finish_isRegular (Draft.members_isRegular (by rintro _ ⟨⟩) hd) hfinish
  | array items => exact ofItems_isRegular h
  | _ => cases h

theorem read_isRegular {text : String} {m : EntryMeta} (h : read text = .ok m) :
    m.lastUsed.IsRegular := by
  unfold read at h
  cases htree : Tree.read text with
  | none => simp [htree] at h
  | some tree =>
      cases hm : ofTree tree with
      | error e => simp [htree, hm] at h
      | ok found =>
          simp only [htree, hm, Except.ok.injEq] at h
          exact h ▸ ofTree_isRegular hm

end EntryMeta

theorem metadataAt?_of_written {fs : FileSystem} {dir : Location} {m : EntryMeta} {id : Nat}
    {executable : Bool}
    (hnode : fs.node? (dir ++ [metadataName]) = some (.file id m.write.toUTF8 executable)) :
    metadataAt? fs dir = some m.carried := by
  unfold metadataAt?
  rw [hnode]
  simp only [fromUTF8?_toUTF8, Option.bind_some, EntryMeta.read_write]
  rfl

theorem metadataAt?_of_written_isRegular {fs : FileSystem} {dir : Location} {m : EntryMeta}
    {id : Nat} {executable : Bool} (hregular : m.lastUsed.IsRegular)
    (hnode : fs.node? (dir ++ [metadataName]) = some (.file id m.write.toUTF8 executable)) :
    metadataAt? fs dir = some m := by
  rw [metadataAt?_of_written hnode, EntryMeta.carried_eq_self hregular]

end CacheUpkeep.Store
