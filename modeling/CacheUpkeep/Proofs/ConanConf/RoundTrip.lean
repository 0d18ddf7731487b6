import CacheUpkeep.Proofs.ConanConf.Entries
import CacheUpkeep.Proofs.Text.Lines

/-!
# Reading what was written

A conf that was read or set is written in lines that are read back as they are, except
that a key which starts with `#` makes its line a comment.  Such keys come from lines
with blanks before the `#`, which are trimmed only after the test for comments.
-/

namespace CacheUpkeep.ConanConf

open CacheUpkeep.Text

variable {conf : ConanConf} {line : List Char} {text key value : String} {e : String × String}
  {values : List (String × String)}

/-! ## Lines -/

def lineOf (e : String × String) : List Char :=
  e.1.toList ++ '=' :: e.2.toList

def IsComment (key : String) : Prop :=
  key.toList.head? = some '#'

instance (key : String) : Decidable (IsComment key) :=
  inferInstanceAs (Decidable (_ = _))

/-- A key and a value that make up one trimmed line, which is split between them. -/
structure IsLine (e : String × String) : Prop where
  mark_notMem : '=' ∉ e.1.toList
  newLine_notMem_key : '\n' ∉ e.1.toList
  newLine_notMem_value : '\n' ∉ e.2.toList
  key_start : ∀ c ∈ e.1.toList.head?, isBlank c = false
  value_end : ∀ c ∈ e.2.toList.getLast?, isBlank c = false

theorem IsLine.newLine_notMem (h : IsLine e) : '\n' ∉ lineOf e := by
  simp [lineOf, h.newLine_notMem_key, h.newLine_notMem_value]

theorem IsLine.isTrimmed (h : IsLine e) : IsTrimmed (lineOf e) where
  head := by
    intro c hc
    rw [lineOf, List.head?_append] at hc
    cases hhead : e.1.toList.head? with
    | some first =>
        rw [hhead] at hc
        obtain rfl : first = c := by simpa using hc
        exact h.key_start first hhead
    | none =>
        rw [hhead] at hc
        obtain rfl : '=' = c := by simpa using hc
        decide
  last := by
    intro c hc
    rw [lineOf, List.getLast?_append_cons, List.getLast?_cons] at hc
    cases hlast : e.2.toList.getLast? with
    | some last =>
        rw [hlast] at hc
        obtain rfl : last = c := by simpa using hc
        exact h.value_end last hlast
    | none =>
        rw [hlast] at hc
        obtain rfl : '=' = c := by simpa using hc
        decide

theorem head?_lineOf_eq_some_iff : (lineOf e).head? = some '#' ↔ IsComment e.1 := by
  unfold lineOf IsComment
  cases e.1.toList with
  | nil => simp
  | cons c rest => simp

theorem IsLine.entryOfLine?_lineOf (h : IsLine e) :
    entryOfLine? (lineOf e) = if IsComment e.1 then none else some e := by
  have hsplit : splitAtFirst '=' (lineOf e) = some (e.1.toList, e.2.toList) :=
    splitAtFirst_eq_some_iff.mpr ⟨rfl, h.mark_notMem⟩
  unfold entryOfLine?
  simp only [head?_lineOf_eq_some_iff]
  split
  · rfl
  · rw [h.isTrimmed.trimList_eq, hsplit]
    simp

theorem entryOfLine?_eq_some (h : entryOfLine? line = some e) :
    line.head? ≠ some '#' ∧ trimList line = lineOf e ∧ '=' ∉ e.1.toList := by
  unfold entryOfLine? at h
  split at h
  · cases h
  · next hhead =>
      obtain ⟨⟨before, after⟩, hsplit, heq⟩ := Option.map_eq_some_iff.mp h
      cases heq
      obtain ⟨hline, hmark⟩ := splitAtFirst_eq_some_iff.mp hsplit
      exact ⟨hhead, by simpa [lineOf] using hline, by simpa using hmark⟩

theorem isLine_of_entryOfLine? (hline : '\n' ∉ line) (h : entryOfLine? line = some e) :
    IsLine e := by
  obtain ⟨-, htrimmed, hmark⟩ := entryOfLine?_eq_some h
  have hends := isTrimmed_trimList line
  have hnewLine : '\n' ∉ lineOf e := by
    rw [← htrimmed]
    exact fun hmem => hline (mem_of_mem_trimList hmem)
  rw [htrimmed] at hends
  obtain ⟨hkey, hvalue⟩ : '\n' ∉ e.1.toList ∧ '\n' ∉ e.2.toList := by
    simpa [lineOf] using hnewLine
  refine ⟨hmark, hkey, hvalue, fun c hc => hends.head c ?_, fun c hc => hends.last c ?_⟩
  · rw [lineOf, List.head?_append, Option.mem_def.mp hc]
    rfl
  · rw [lineOf, List.getLast?_append_cons, List.getLast?_cons, Option.mem_def.mp hc]
    rfl

/-! ## Confs -/

structure WellFormed (conf : ConanConf) : Prop where
  nodup_keys : conf.keys.Nodup
  isLine : ∀ e ∈ conf.entries, IsLine e

theorem wellFormed_empty : WellFormed empty :=
  ⟨List.nodup_nil, by simp [empty]⟩

theorem WellFormed.setAll (h : conf.WellFormed) (hvalues : ∀ e ∈ values, IsLine e) :
    (conf.setAll values).WellFormed := by
  induction values generalizing conf with
  | nil => exact h
  | cons e rest ih =>
      refine ih ⟨nodup_keys_set h.nodup_keys e.1 e.2, fun other hother => ?_⟩ fun other hother =>
        hvalues other (List.mem_cons_of_mem _ hother)
      rcases mem_setIn hother with rfl | hold
      · exact hvalues _ List.mem_cons_self
      · exact h.isLine other hold

theorem wellFormed_read (text : String) : (read text).WellFormed := by
  refine wellFormed_empty.setAll fun e he => ?_
  obtain ⟨line, hline, hentry⟩ := List.mem_filterMap.mp he
  exact isLine_of_entryOfLine? (newLine_notMem_of_mem_linesList hline) hentry

def withoutComments (conf : ConanConf) : ConanConf :=
  ⟨conf.entries.filter fun e => !decide (IsComment e.1)⟩

theorem withoutComments_setAll (hvalues : ∀ e ∈ values, ¬ IsComment e.1) (conf : ConanConf) :
    (conf.setAll values).withoutComments = conf.withoutComments.setAll values :=
  filter_setAll (fun key => !decide (IsComment key)) (by simpa using hvalues) conf

theorem withoutComments_eq_self_iff :
    conf.withoutComments = conf ↔ ∀ key ∈ conf.keys, ¬ IsComment key := by
  obtain ⟨entries⟩ := conf
  simp [withoutComments, keys, List.filter_eq_self]

theorem WellFormed.withoutComments (h : conf.WellFormed) : conf.withoutComments.WellFormed where
  nodup_keys := h.nodup_keys.sublist (List.filter_sublist.map Prod.fst)
  isLine e he := h.isLine e (List.mem_of_mem_filter he)

theorem toList_write (conf : ConanConf) :
    conf.write.toList = (conf.entries.map lineOf).flatMap fun line => line ++ ['\n'] := by
  unfold write
  induction conf.entries with
  | nil => rfl
  | cons e rest ih => simp [lineOf, ih]

theorem WellFormed.linesList_write (h : conf.WellFormed) :
    linesList conf.write.toList = conf.entries.map lineOf := by
  rw [toList_write]
  refine linesList_flatMap fun line hline => ?_
  obtain ⟨e, he, rfl⟩ := List.mem_map.mp hline
  refine ⟨(h.isLine e he).newLine_notMem, fun hreturn => ?_⟩
  exact absurd ((h.isLine e he).isTrimmed.last '\r' hreturn) (by decide)

theorem WellFormed.read_write (h : conf.WellFormed) : read conf.write = conf.withoutComments := by
  have hentries : (conf.entries.map lineOf).filterMap entryOfLine? =
      conf.withoutComments.entries := by
    rw [List.filterMap_map, ConanConf.withoutComments, ← List.filterMap_eq_filter]
    refine List.filterMap_congr fun e he => ?_
    rw [Function.comp_apply, (h.isLine e he).entryOfLine?_lineOf]
    by_cases hcomment : IsComment e.1 <;> simp [hcomment, Option.guard]
  rw [read, h.linesList_write, hentries, setAll_of_nodup]
  · rfl
  · exact h.withoutComments.nodup_keys

theorem eq_withoutComments_of_write_eq (h : conf.WellFormed)
    (hwrite : conf.withoutComments.write = conf.write) : conf.withoutComments = conf := by
  have hlines := congrArg (fun text => (linesList text.toList).length) hwrite
  simp only [h.withoutComments.linesList_write, h.linesList_write, List.length_map] at hlines
  obtain ⟨entries⟩ := conf
  exact congrArg ConanConf.mk
    (List.filter_eq_self.mpr (List.length_filter_eq_length_iff.mp hlines))

/-! ## Comments after blanks -/

/-- A line with a mark whose first character is blank and whose first other one is `#`. -/
def HasIndentedComment (text : String) : Prop :=
  ∃ line ∈ linesList text.toList,
    line.head? ≠ some '#' ∧ (trimList line).head? = some '#' ∧ '=' ∈ trimList line

theorem mem_keys_read :
    key ∈ (read text).keys ↔
      ∃ line ∈ linesList text.toList, ∃ value, entryOfLine? line = some (key, value) := by
  rw [read, mem_keys_setAll]
  constructor
  · rintro (hkey | hkey)
    · obtain ⟨⟨_, value⟩, he, rfl⟩ := List.mem_map.mp hkey
      obtain ⟨line, hline, hentry⟩ := List.mem_filterMap.mp he
      exact ⟨line, hline, value, hentry⟩
    · cases hkey
  · rintro ⟨line, hline, value, hentry⟩
    exact .inl (List.mem_map.mpr ⟨_, List.mem_filterMap.mpr ⟨line, hline, hentry⟩, rfl⟩)

theorem exists_comment_iff :
    (∃ key ∈ (read text).keys, IsComment key) ↔ HasIndentedComment text := by
  constructor
  · rintro ⟨key, hkey, hcomment⟩
    obtain ⟨line, hline, value, hentry⟩ := mem_keys_read.mp hkey
    obtain ⟨hhead, htrimmed, -⟩ := entryOfLine?_eq_some hentry
    refine ⟨line, hline, hhead, ?_, ?_⟩
    · rw [htrimmed]
      exact head?_lineOf_eq_some_iff.mpr hcomment
    · simp [htrimmed, lineOf]
  · rintro ⟨line, hline, hhead, hcomment, hmark⟩
    cases hsplit : splitAtFirst '=' (trimList line) with
    | none => exact absurd hmark (splitAtFirst_eq_none_iff.mp hsplit)
    | some parts =>
        obtain ⟨before, after⟩ := parts
        have hentry : entryOfLine? line = some (String.ofList before, String.ofList after) := by
          rw [entryOfLine?, if_neg hhead, hsplit]
          rfl
        have hline' := (entryOfLine?_eq_some hentry).2.1
        rw [hline', head?_lineOf_eq_some_iff] at hcomment
        exact ⟨_, mem_keys_read.mpr ⟨line, hline, _, hentry⟩, hcomment⟩

end CacheUpkeep.ConanConf
