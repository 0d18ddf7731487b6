import CacheUpkeep.Proofs.Text.Decimal
import CacheUpkeep.Retention

/-!
# Texts of retention windows

A window of at least one day is read as it is written, with its amount and its unit.
-/

namespace CacheUpkeep

open CacheUpkeep.Text

namespace RetentionUnit

theorem ofLetter?_letter (unit : RetentionUnit) : ofLetter? unit.letter = some unit := by
  cases unit <;> rfl

theorem isBlank_letter (unit : RetentionUnit) : isBlank unit.letter = false := by
  cases unit <;> decide

end RetentionUnit

namespace RetentionWindow

theorem readAmount?_digits {n : Nat} (hn : n < Number.limit32) :
    readAmount? (digits n) = some n := by
  obtain ⟨hne, hdigits⟩ := isNumeral_digits n
  have hplus : ∀ rest, digits n ≠ '+' :: rest := by
    intro rest heq
    exact absurd (hdigits '+' (heq ▸ List.mem_cons_self)) (by decide)
  unfold readAmount?
  dsimp only
  split
  · next rest heq => exact absurd heq (hplus rest)
  · simpa [hne, digitsValue_digits, hn] using hdigits

theorem trimList_text (w : RetentionWindow) :
    trimList w.text.toList = digits w.amount ++ [w.unit.letter] := by
  have hend : dropBlankEnd (digits w.amount ++ [w.unit.letter]) =
      digits w.amount ++ [w.unit.letter] := by
    rw [dropBlankEnd, List.reverse_append, List.reverse_singleton, List.singleton_append,
      List.dropWhile_cons_of_neg (by simp [RetentionUnit.isBlank_letter])]
    simp
  rw [text, String.toList_ofList, trimList, (isNumeral_digits w.amount).dropBlankStart, hend]

theorem read_text {w : RetentionWindow} (hpos : 1 ≤ w.amount) : read w.text = .ok w := by
  have hamount : readAmount? (digits w.amount) = some w.amount := readAmount?_digits w.amount_lt
  rw [read, trimList_text, readTrimmed]
  simp only [List.getLast?_concat, List.dropLast_concat, RetentionUnit.ofLetter?_letter, hamount]
  rw [if_neg (by omega), dif_pos w.amount_lt]

theorem ofJson_text {w : RetentionWindow} (hpos : 1 ≤ w.amount) :
    ofJson (.string w.text) = .ok w := by
  rw [ofJson, read_text hpos]

end RetentionWindow

end CacheUpkeep
