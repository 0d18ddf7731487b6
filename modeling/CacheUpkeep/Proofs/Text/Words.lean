import CacheUpkeep.Text.Blank
import Mathlib.Data.List.TakeWhile

/-!
# Words of a text

A text is split into words at any one blank of it.  The last word of a text that begins
with a run of other characters is the last one after the run, or the run itself.
-/

namespace CacheUpkeep.Text

variable {word text rest run : List Char} {c : Char}

/-- Every fact about the words of a longer text comes from this equation. -/
theorem wordsFrom_break (hc : isBlank c = true) :
    wordsFrom word (text ++ c :: rest) = wordsFrom word text ++ wordsFrom [] rest := by
  induction text generalizing word with
  | nil =>
      have hnil : wordsFrom word [] = if word.isEmpty then [] else [word.reverse] := by
        rw [wordsFrom]
      rw [List.nil_append, hnil, wordsFrom, if_pos hc]
      split <;> rfl
  | cons d text ih =>
      rw [List.cons_append, wordsFrom, wordsFrom]
      by_cases hd : isBlank d = true
      · rw [if_pos hd, if_pos hd, ih]
        split <;> rfl
      · rw [if_neg hd, if_neg hd, ih]

theorem wordsFrom_solid (hne : word.reverse ++ run ≠ []) (h : ∀ c ∈ run, isBlank c = false) :
    wordsFrom word run = [word.reverse ++ run] := by
  induction run generalizing word with
  | nil =>
      have hword : word ≠ [] := by simpa using hne
      rw [wordsFrom, if_neg (by simpa using hword), List.append_nil]
  | cons c run ih =>
      obtain ⟨hc, hrun⟩ := List.forall_mem_cons.mp h
      have hshift : (c :: word).reverse ++ run = word.reverse ++ c :: run := by simp
      rw [wordsFrom, if_neg (by simp [hc]), ih (hshift ▸ hne) hrun, hshift]

theorem wordsFrom_eq_nil_iff :
    wordsFrom word text = [] ↔ word = [] ∧ ∀ c ∈ text, isBlank c = true := by
  induction text generalizing word with
  | nil => cases word <;> simp [wordsFrom]
  | cons c text ih =>
      rw [wordsFrom]
      by_cases hc : isBlank c = true
      · cases word <;> simp [hc, ih]
      · simp [hc, ih]

/-! ## The last word -/

def lastWord? (text : List Char) : Option (List Char) :=
  (wordsFrom [] text).getLast?

/-- The last of the words behind the first blank of a text. -/
def laterWord? (text : List Char) : Option (List Char) :=
  lastWord? (text.dropWhile fun c => !isBlank c)

theorem laterWord?_eq_none_iff :
    laterWord? text = none ↔
      ∀ c ∈ text.dropWhile fun c => !isBlank c, isBlank c = true := by
  rw [laterWord?, lastWord?, List.getLast?_eq_none_iff, wordsFrom_eq_nil_iff]
  exact and_iff_right rfl

theorem lastWord?_break (hc : isBlank c = true) :
    lastWord? (text ++ c :: rest) = (lastWord? rest).or (lastWord? text) := by
  rw [lastWord?, wordsFrom_break hc, List.getLast?_append]
  rfl

theorem lastWord?_cons (hc : isBlank c = true) : lastWord? (c :: rest) = lastWord? rest := by
  rw [lastWord?, wordsFrom, if_pos hc]
  rfl

theorem lastWord?_solid (hne : run ≠ []) (h : ∀ c ∈ run, isBlank c = false) :
    lastWord? run = some run := by
  rw [lastWord?, wordsFrom_solid (by simpa using hne) h]
  rfl

theorem lastWord?_append (hne : run ≠ []) (h : ∀ c ∈ run, isBlank c = false) :
    lastWord? (run ++ rest) =
      (laterWord? rest).or (some (run ++ rest.takeWhile fun c => !isBlank c)) := by
  have hsolid : ∀ c ∈ run ++ rest.takeWhile (fun c => !isBlank c), isBlank c = false := by
    intro c hc
    rcases List.mem_append.mp hc with hc | hc
    · exact h c hc
    · simpa using List.mem_takeWhile_imp hc
  have hword := lastWord?_solid (List.append_ne_nil_of_left_ne_nil hne _) hsolid
  have hsplit := List.takeWhile_append_dropWhile (p := fun c => !isBlank c) (l := rest)
  unfold laterWord?
  cases hbreak : rest.dropWhile fun c => !isBlank c with
  | nil =>
      rw [hbreak, List.append_nil] at hsplit
      rw [hsplit] at hword ⊢
      exact hword
  | cons c behind =>
      have hc : isBlank c = true := by
        simpa [hbreak] using List.head?_dropWhile_not (fun c => !isBlank c) rest
      rw [hbreak] at hsplit
      conv => lhs; rw [← hsplit]
      rw [← List.append_assoc, lastWord?_break hc, hword, lastWord?_cons hc]

end CacheUpkeep.Text
