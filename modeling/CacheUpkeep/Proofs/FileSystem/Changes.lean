import CacheUpkeep.FileSystem.Edit
import CacheUpkeep.Proofs.FileSystem.Lookup

/-!
# Changing a file system

What a change leaves of the nodes that were there, and what it adds: a directory
or a file where nothing stood, or another content of one file.
-/

namespace CacheUpkeep.FileSystem

open CacheUpkeep.Path

variable {fs big small : FileSystem} {dir location : Location} {node : Node} {p : Path}
  {name : String}

/-! ## Removing -/

theorem removeTree_eq_ok (h : fs.removeTree p = .ok small) :
    ∃ location node, fs.linkStat p = .ok (location, node) ∧ small = fs.without location := by
  unfold removeTree at h
  cases hstat : fs.linkStat p with
  | error e =>
      rw [hstat] at h
      cases h
  | ok found =>
      obtain ⟨location, node⟩ := found
      rw [hstat] at h
      cases node with
      | directory =>
          cases h
          exact ⟨location, _, rfl, rfl⟩
      | link target =>
          cases h
          exact ⟨location, _, rfl, rfl⟩
      | file id content executable => cases h
      | sink id => cases h

/-! ## Adding nodes -/

structure Adds (fs big : FileSystem) (location : Location) (node : Node) : Prop where
  entries_eq : big.entries = fs.entries ++ [(location, node)]
  here_eq : big.here = fs.here
  free : fs.node? location = none

theorem Adds.ne_nil (h : Adds fs big location node) : location ≠ [] := by
  rintro rfl
  cases h.free

theorem Adds.node? (h : Adds fs big location node) (l : Location) :
    big.node? l = if l = location then some node else fs.node? l := by
  by_cases hnil : l = []
  · subst hnil
    rw [if_neg (Ne.symm h.ne_nil)]
    rfl
  · have hfree := h.free
    rw [node?_eq_lookup _ h.ne_nil] at hfree
    rw [node?_eq_lookup _ hnil, node?_eq_lookup _ hnil, h.entries_eq, List.lookup_append]
    by_cases hl : l = location
    · subst hl
      simp [hfree]
    · have hne : (l == location) = false := by simpa using hl
      simp [List.lookup_cons, hne, hl]

theorem Adds.keeps (h : Adds fs big location node) : big.Extends fs where
  here_eq := h.here_eq.symm
  node? := by
    intro l found hfound
    rw [h.node?, if_neg, hfound]
    rintro rfl
    rw [h.free] at hfound
    cases hfound

theorem Adds.wellFormed (h : Adds fs big (dir ++ [name]) node) (hfs : fs.WellFormed)
    (hdir : fs.node? dir = some .directory) (hname : IsName name)
    (hnext : fs.nextFile ≤ big.nextFile)
    (hnumber : ∀ id, node.number? = some id → fs.nextFile ≤ id ∧ id < big.nextFile) :
    big.WellFormed where
  locations_nodup := by
    rw [h.entries_eq, List.map_append, List.nodup_append]
    refine ⟨hfs.locations_nodup, by simp, ?_⟩
    intro l hl l' hl' heq
    obtain ⟨e, he, rfl⟩ := List.mem_map.mp hl
    simp only [List.map_cons, List.map_nil, List.mem_singleton] at hl'
    have hfound := (hfs.mem_entries_iff (hfs.inside e he).1).mp he
    rw [heq, hl', h.free] at hfound
    cases hfound
  inside := by
    intro e he
    rw [h.entries_eq, List.mem_append, List.mem_singleton] at he
    rcases he with he | rfl
    · exact ⟨(hfs.inside e he).1, h.keeps.node? (hfs.inside e he).2⟩
    · refine ⟨by simp, h.keeps.node? ?_⟩
      simpa using hdir
  named := by
    intro e he x hx
    rw [h.entries_eq, List.mem_append, List.mem_singleton] at he
    rcases he with he | rfl
    · exact hfs.named e he x hx
    · rcases List.mem_append.mp hx with hx | hx
      · exact hfs.isName hdir hx
      · rw [List.mem_singleton.mp hx]
        exact hname
  files_nodup := by
    rw [h.entries_eq, List.filterMap_append, List.nodup_append]
    refine ⟨hfs.files_nodup, ?_, ?_⟩
    · cases hnode : node.number? <;> simp [hnode]
    · intro id hid id' hid' heq
      obtain ⟨e, he, heid⟩ := List.mem_filterMap.mp hid
      have hlt := hfs.files_lt e he id heid
      obtain ⟨e', he', heid'⟩ := List.mem_filterMap.mp hid'
      rw [List.mem_singleton] at he'
      subst he'
      have hge := (hnumber id' heid').1
      omega
  files_lt := by
    intro e he id hid
    rw [h.entries_eq, List.mem_append, List.mem_singleton] at he
    rcases he with he | rfl
    · exact Nat.lt_of_lt_of_le (hfs.files_lt e he id hid) hnext
    · exact (hnumber id hid).2

theorem adds_addEntry (fs : FileSystem) (node : Node) (hfree : fs.node? location = none) :
    Adds fs (fs.addEntry location node) location node :=
  ⟨rfl, rfl, hfree⟩

theorem adds_addFile (fs : FileSystem) (content : ByteArray) (executable : Bool)
    (hfree : fs.node? location = none) :
    Adds fs (fs.addFile location content executable) location
      (.file fs.nextFile content executable) :=
  ⟨rfl, rfl, hfree⟩

/-! ## Contents -/

def withContent (content : ByteArray) : Node → Node
  | .file id _ executable => .file id content executable
  | node => node

theorem setContent_entries (fs : FileSystem) (location : Location) (content : ByteArray) :
    (fs.setContent location content).entries = fs.entries.map fun e =>
      (e.1, if e.1 = location then withContent content e.2 else e.2) := by
  refine List.map_congr_left fun e _ => ?_
  obtain ⟨l, node⟩ := e
  dsimp only
  split
  · cases node <;> rfl
  · rfl

theorem number?_withContent (content : ByteArray) (node : Node) :
    (withContent content node).number? = node.number? := by
  cases node <;> rfl

theorem node?_setContent (fs : FileSystem) (location : Location) (content : ByteArray)
    (l : Location) :
    (fs.setContent location content).node? l =
      (fs.node? l).map fun node => if l = location then withContent content node else node := by
  by_cases hnil : l = []
  · subst hnil
    simp [withContent]
  · rw [node?_eq_lookup _ hnil, node?_eq_lookup _ hnil, setContent_entries]
    generalize fs.entries = entries
    induction entries with
    | nil => rfl
    | cons e rest ih =>
        obtain ⟨l', node⟩ := e
        by_cases hl : l = l'
        · subst hl
          simp
        · have hne : (l == l') = false := by simpa using hl
          simp only [List.map_cons, List.lookup_cons, hne]
          exact ih

theorem setContent_wellFormed (hfs : fs.WellFormed) (location : Location) (content : ByteArray) :
    (fs.setContent location content).WellFormed := by
  have hentries := setContent_entries fs location content
  have hmem : ∀ e ∈ (fs.setContent location content).entries,
      ∃ e' ∈ fs.entries, e.1 = e'.1 ∧ e.2.number? = e'.2.number? := by
    intro e he
    rw [hentries] at he
    obtain ⟨e', he', rfl⟩ := List.mem_map.mp he
    refine ⟨e', he', rfl, ?_⟩
    dsimp only
    split
    · exact number?_withContent content e'.2
    · rfl
  refine ⟨?_, ?_, ?_, ?_, ?_⟩
  · rw [hentries, List.map_map]
    exact hfs.locations_nodup
  · intro e he
    obtain ⟨e', he', hl, -⟩ := hmem e he
    rw [hl]
    obtain ⟨hnil, hdir⟩ := hfs.inside e' he'
    refine ⟨hnil, ?_⟩
    rw [node?_setContent, hdir]
    simp [withContent]
  · intro e he
    obtain ⟨e', he', hl, -⟩ := hmem e he
    rw [hl]
    exact hfs.named e' he'
  · have hnumbers : ((fs.setContent location content).entries.filterMap fun e => e.2.number?) =
        fs.entries.filterMap fun e => e.2.number? := by
      rw [hentries, List.filterMap_map]
      refine List.filterMap_congr fun e _ => ?_
      dsimp only [Function.comp]
      split
      · exact number?_withContent content e.2
      · rfl
    rw [hnumbers]
    exact hfs.files_nodup
  · intro e he id hid
    obtain ⟨e', he', -, hnumber⟩ := hmem e he
    exact hfs.files_lt e' he' id (hnumber ▸ hid)

end CacheUpkeep.FileSystem
