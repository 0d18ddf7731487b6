import CacheUpkeep.Text.Blank
import CacheUpkeep.Text.Lines
import Mathlib.Data.List.Basic
import Mathlib.Data.List.Infix

/-!
# Splitting texts

A text that is made of lines has these lines.  A text is split at its first mark in one
way, and no blank stands at the ends of a trimmed text.
-/

namespace CacheUpkeep.Text

variable {mark c : Char} {text line piece before after : List Char} {lines : List (List Char)}

/-! ## At each mark -/

theorem mark_notMem_of_mem_splitAtEach (h : piece ∈ splitAtEach mark text) : mark ∉ piece := by
  induction text generalizing piece with
  | nil =>
      simp only [splitAtEach, List.mem_singleton] at h
      simp [h]
  | cons c rest ih =>
      unfold splitAtEach at h
      split at h
      · rcases List.mem_cons.mp h with rfl | h
        · simp
        · exact ih h
      · next hc =>
          split at h
          · simp only [List.mem_singleton] at h
            subst h
            simpa using fun heq => hc heq.symm
          · next first others heq =>
              rcases List.mem_cons.mp h with rfl | h
              · have hfirst := ih (heq ▸ List.mem_cons_self)
                simp only [List.mem_cons, not_or]
                exact ⟨fun heq => hc heq.symm, hfirst⟩
              · exact ih (heq ▸ List.mem_cons_of_mem _ h)

theorem splitAtEach_of_notMem (h : mark ∉ line) : splitAtEach mark line = [line] := by
  induction line with
  | nil => rfl
  | cons c rest ih =>
      obtain ⟨hc, hrest⟩ : mark ≠ c ∧ mark ∉ rest := by simpa using h
      rw [splitAtEach, if_neg (Ne.symm hc), ih hrest]

theorem splitAtEach_append (h : mark ∉ line) (rest : List Char) :
    splitAtEach mark (line ++ mark :: rest) = line :: splitAtEach mark rest := by
  induction line with
  | nil => rw [List.nil_append, splitAtEach, if_pos rfl]
  | cons c front ih =>
      obtain ⟨hc, hfront⟩ : mark ≠ c ∧ mark ∉ front := by simpa using h
      rw [List.cons_append, splitAtEach, if_neg (Ne.symm hc), ih hfront]

/-! ## Lines -/

theorem dropReturn_prefix (line : List Char) : dropReturn line <+: line := by
  unfold dropReturn
  split
  · exact List.dropLast_prefix line
  · exact List.prefix_rfl

private theorem prefix_of_mem_linesOfPieces {pieces : List (List Char)}
    (h : line ∈ linesOfPieces pieces) : ∃ piece ∈ pieces, line <+: piece := by
  induction pieces using linesOfPieces.induct with
  | case1 => cases h
  | case2 last hempty => simp [linesOfPieces, hempty] at h
  | case3 last hempty =>
      rw [linesOfPieces, if_neg hempty, List.mem_singleton] at h
      exact ⟨last, List.mem_singleton_self last, h ▸ List.prefix_rfl⟩
  | case4 piece rest hrest ih =>
      rw [linesOfPieces.eq_3 piece rest hrest] at h
      rcases List.mem_cons.mp h with rfl | h
      · exact ⟨piece, List.mem_cons_self, dropReturn_prefix piece⟩
      · obtain ⟨other, hother, hline⟩ := ih h
        exact ⟨other, List.mem_cons_of_mem _ hother, hline⟩

theorem newLine_notMem_of_mem_linesList (h : line ∈ linesList text) : '\n' ∉ line := by
  obtain ⟨piece, hpiece, hline⟩ := prefix_of_mem_linesOfPieces h
  exact fun hmem => mark_notMem_of_mem_splitAtEach hpiece (hline.subset hmem)

theorem linesList_flatMap
    (h : ∀ line ∈ lines, '\n' ∉ line ∧ line.getLast? ≠ some '\r') :
    linesList (lines.flatMap fun line => line ++ ['\n']) = lines := by
  unfold linesList
  induction lines with
  | nil => rfl
  | cons line rest ih =>
      obtain ⟨hline, hreturn⟩ := h line List.mem_cons_self
      have hrest := ih fun other hother => h other (List.mem_cons_of_mem _ hother)
      rw [List.flatMap_cons, List.append_assoc, List.singleton_append, splitAtEach_append hline,
        linesOfPieces.eq_3 _ _ (splitAtEach_ne_nil _ _), hrest, dropReturn, if_neg hreturn]

/-! ## At the first mark -/

theorem splitAtFirst_eq_some_iff :
    splitAtFirst mark text = some (before, after) ↔
      text = before ++ mark :: after ∧ mark ∉ before := by
  induction text generalizing before with
  | nil => simp [splitAtFirst]
  | cons c rest ih =>
      by_cases hc : c = mark
      · subst hc
        rw [splitAtFirst, if_pos rfl]
        constructor
        · intro h
          cases h
          exact ⟨rfl, List.not_mem_nil⟩
        · rintro ⟨htext, hbefore⟩
          cases before with
          | nil =>
              cases htext
              rfl
          | cons first others =>
              cases htext
              exact absurd List.mem_cons_self hbefore
      · rw [splitAtFirst, if_neg hc]
        constructor
        · intro h
          obtain ⟨⟨front, back⟩, hsplit, heq⟩ := Option.map_eq_some_iff.mp h
          cases heq
          obtain ⟨rfl, hfront⟩ := ih.mp hsplit
          exact ⟨rfl, by simpa using ⟨Ne.symm hc, hfront⟩⟩
        · rintro ⟨htext, hbefore⟩
          cases before with
          | nil =>
              cases htext
              exact absurd rfl hc
          | cons first others =>
              cases htext
              have hothers : mark ∉ others := fun h => hbefore (List.mem_cons_of_mem _ h)
              rw [ih.mpr ⟨rfl, hothers⟩, Option.map_some]

theorem splitAtFirst_eq_none_iff : splitAtFirst mark text = none ↔ mark ∉ text := by
  induction text with
  | nil => simp [splitAtFirst]
  | cons c rest ih =>
      by_cases hc : c = mark
      · simp [splitAtFirst, hc]
      · simp [splitAtFirst, hc, ih, Ne.symm hc]

/-! ## Before a longer mark -/

theorem beforeFirst_of_not_infix {marks : List Char} (h : ¬ marks <:+: text) :
    beforeFirst marks text = text := by
  induction text with
  | nil => rfl
  | cons c rest ih =>
      have hprefix : marks.isPrefixOf (c :: rest) = false := by
        rw [Bool.eq_false_iff]
        exact fun hp => h (List.isPrefixOf_iff_prefix.mp hp).isInfix
      rw [beforeFirst, hprefix, if_neg (by simp), ih fun hi => h (List.infix_cons hi)]

theorem beforeFirst_append {marks : List Char} (h : ¬ marks <:+: before ++ marks.dropLast)
    (after : List Char) : beforeFirst marks (before ++ marks ++ after) = before := by
  induction before with
  | nil =>
      cases marks with
      | nil => exact absurd List.nil_infix h
      | cons c rest =>
          have hprefix : (c :: rest).isPrefixOf (c :: (rest ++ after)) = true :=
            List.isPrefixOf_iff_prefix.mpr ⟨after, rfl⟩
          rw [List.nil_append, List.cons_append, beforeFirst, if_pos hprefix]
  | cons c rest ih =>
      -- A mark that started here would end before the one after `rest` does.
      have hlater := ih fun hi => h (List.infix_cons hi)
      have hprefix : marks.isPrefixOf (c :: (rest ++ marks ++ after)) = false := by
        rw [Bool.eq_false_iff, ne_eq, List.isPrefixOf_iff_prefix]
        intro hp
        have hfront : c :: (rest ++ marks.dropLast) <+: c :: (rest ++ marks ++ after) := by
          rw [List.append_assoc]
          exact List.prefix_cons_inj c |>.mpr (List.prefix_append_right_inj rest |>.mpr
            ((List.dropLast_prefix marks).trans (List.prefix_append marks after)))
        have hlength : marks.length ≤ (c :: (rest ++ marks.dropLast)).length := by
          simp only [List.length_cons, List.length_append, List.length_dropLast]
          omega
        exact h (List.prefix_of_prefix_length_le hp hfront hlength).isInfix
      rw [List.cons_append, List.cons_append, beforeFirst, hprefix, if_neg (by simp), hlater]

/-! ## Trimming -/

structure IsTrimmed (text : List Char) : Prop where
  head : ∀ c ∈ text.head?, isBlank c = false
  last : ∀ c ∈ text.getLast?, isBlank c = false

theorem dropBlankStart_of_head (h : ∀ c ∈ text.head?, isBlank c = false) :
    dropBlankStart text = text := by
  cases text with
  | nil => rfl
  | cons c rest => simp [dropBlankStart, h c rfl]

theorem dropBlankEnd_of_last (h : ∀ c ∈ text.getLast?, isBlank c = false) :
    dropBlankEnd text = text := by
  rw [← List.head?_reverse] at h
  rw [dropBlankEnd, ← dropBlankStart, dropBlankStart_of_head h, List.reverse_reverse]

theorem IsTrimmed.trimList_eq (h : IsTrimmed text) : trimList text = text := by
  rw [trimList, dropBlankStart_of_head h.head, dropBlankEnd_of_last h.last]

theorem isBlank_of_mem_head?_dropBlankStart (h : c ∈ (dropBlankStart text).head?) :
    isBlank c = false := by
  have hhead := List.head?_dropWhile_not isBlank text
  rw [← dropBlankStart, Option.mem_def.mp h] at hhead
  exact hhead

theorem trimList_prefix_start (text : List Char) : trimList text <+: dropBlankStart text := by
  rw [trimList, dropBlankEnd, ← List.reverse_suffix, List.reverse_reverse]
  exact List.dropWhile_suffix isBlank

theorem mem_of_mem_trimList (h : c ∈ trimList text) : c ∈ text :=
  (List.dropWhile_suffix isBlank).subset ((trimList_prefix_start text).subset h)

theorem exists_blanks_trimList (text : List Char) :
    ∃ before after, text = before ++ trimList text ++ after ∧
      ∀ c ∈ before ++ after, isBlank c = true := by
  have hstart := List.takeWhile_append_dropWhile (p := isBlank) (l := text)
  have hend := congrArg List.reverse
    (List.takeWhile_append_dropWhile (p := isBlank) (l := (dropBlankStart text).reverse))
  rw [List.reverse_append, List.reverse_reverse] at hend
  refine ⟨text.takeWhile isBlank, ((dropBlankStart text).reverse.takeWhile isBlank).reverse, ?_, ?_⟩
  · rw [List.append_assoc, trimList, dropBlankEnd, hend]
    exact hstart.symm
  · intro c hc
    rw [List.mem_append, List.mem_reverse] at hc
    rcases hc with hc | hc <;> exact List.all_eq_true.mp List.all_takeWhile c hc

theorem isTrimmed_trimList (text : List Char) : IsTrimmed (trimList text) where
  head := by
    intro c hc
    obtain ⟨back, hback⟩ := trimList_prefix_start text
    have hhead : c ∈ (dropBlankStart text).head? := by
      rw [← hback, List.head?_append, Option.mem_def.mp hc]
      rfl
    exact isBlank_of_mem_head?_dropBlankStart hhead
  last := by
    intro c hc
    rw [trimList, dropBlankEnd, List.getLast?_reverse] at hc
    exact isBlank_of_mem_head?_dropBlankStart hc

end CacheUpkeep.Text
