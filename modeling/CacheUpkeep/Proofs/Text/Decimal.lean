import CacheUpkeep.Text.Blank
import CacheUpkeep.Text.Decimal
import Mathlib.Data.List.Induction

/-!
# Numerals in a text

A numeral is made of digits, has no more of them than its number needs, and
zeros in front of it do not count.
-/

namespace CacheUpkeep.Text

def IsNumeral (text : List Char) : Prop :=
  text ≠ [] ∧ ∀ c ∈ text, isDigit c = true

theorem isDigit_digitOf (n : Nat) : isDigit (digitOf n) = true := by
  have hall : ∀ m < 10, isDigit (Char.ofNat (48 + m)) = true := by decide
  exact hall (n % 10) (Nat.mod_lt n (by decide))

theorem isNumeral_digits (n : Nat) : IsNumeral (digits n) := by
  induction n using Nat.strongRecOn with
  | _ n ih =>
      unfold digits
      split
      · refine ⟨by simp, fun c hc => ?_⟩
        rw [List.mem_singleton.mp hc]
        exact isDigit_digitOf n
      · obtain ⟨-, hdigits⟩ := ih (n / 10) (by omega)
        refine ⟨by simp, fun c hc => ?_⟩
        rcases List.mem_append.mp hc with hc | hc
        · exact hdigits c hc
        · rw [List.mem_singleton.mp hc]
          exact isDigit_digitOf _

theorem IsNumeral.leftpad {text : List Char} (h : IsNumeral text) (width : Nat) :
    IsNumeral (text.leftpad width '0') := by
  refine ⟨fun hnil => h.1 (List.append_eq_nil_iff.mp hnil).2, fun c hc => ?_⟩
  rcases List.mem_append.mp hc with hc | hc
  · rw [List.eq_of_mem_replicate hc]
    decide
  · exact h.2 c hc

theorem length_digits_le {k n : Nat} (hn : n < Nat.pow 10 (k + 1)) :
    (digits n).length ≤ k + 1 := by
  induction k generalizing n with
  | zero =>
      have hlt : n < 10 := by simpa using hn
      unfold digits
      simp [hlt]
  | succ k ih =>
      unfold digits
      split
      · simp
      · have hpow : Nat.pow 10 (k + 1 + 1) = Nat.pow 10 (k + 1) * 10 := rfl
        have hlt : n / 10 < Nat.pow 10 (k + 1) := by omega
        have := ih hlt
        simp only [List.length_append, List.length_singleton]
        omega

theorem length_leftpad_digits {k n : Nat} (hn : n < Nat.pow 10 (k + 1)) :
    ((digits n).leftpad (k + 1) '0').length = k + 1 := by
  have := length_digits_le hn
  rw [List.length_leftpad]
  omega

theorem digitsValue_zeros (k : Nat) (text : List Char) :
    digitsValue (List.replicate k '0' ++ text) = digitsValue text := by
  induction k with
  | zero => rfl
  | succ k ih =>
      rw [← ih, List.replicate_succ]
      rfl

theorem digitsValue_leftpad_digits (width n : Nat) :
    digitsValue ((digits n).leftpad width '0') = n := by
  rw [List.leftpad, digitsValue_zeros, digitsValue_digits]

theorem digitsValue_append_zeros (text : List Char) (k : Nat) :
    digitsValue (text ++ List.replicate k '0') = digitsValue text * Nat.pow 10 k := by
  induction k with
  | zero => simp
  | succ k ih =>
      have hpow : Nat.pow 10 (k + 1) = Nat.pow 10 k * 10 := rfl
      have hzero : digitValue '0' = 0 := by decide
      rw [List.replicate_succ', ← List.append_assoc, digitsValue_concat, ih, hpow, hzero,
        Nat.add_zero, ← Nat.mul_assoc (digitsValue text), Nat.mul_comm]

theorem digitValue_le {c : Char} (h : isDigit c = true) : digitValue c ≤ 9 := by
  simp only [isDigit, Bool.and_eq_true, decide_eq_true_eq, Char.le_def, UInt32.le_iff_toNat_le] at h
  have hhigh : c.toNat ≤ 57 := h.2
  unfold digitValue
  omega

theorem digitsValue_lt {text : List Char} (h : ∀ c ∈ text, isDigit c = true) :
    digitsValue text < Nat.pow 10 text.length := by
  induction text using List.reverseRecOn with
  | nil => decide
  | append_singleton text c ih =>
      have hlt := ih fun c hc => h c (List.mem_append_left _ hc)
      have hle := digitValue_le (h c (by simp))
      have hpow : Nat.pow 10 (text.length + 1) = Nat.pow 10 text.length * 10 := rfl
      rw [digitsValue_concat, List.length_append, List.length_singleton]
      omega

/-! ## Numerals at the start of a text -/

theorem IsNumeral.takeWhile {text : List Char} (h : IsNumeral text) :
    text.takeWhile isDigit = text :=
  calc text.takeWhile isDigit
      = (text ++ []).takeWhile isDigit := by rw [List.append_nil]
    _ = text ++ [].takeWhile isDigit := List.takeWhile_append_of_pos h.2
    _ = text := List.append_nil text

theorem takeWhile_isDigit {text rest : List Char} {c : Char} (h : IsNumeral text)
    (hc : isDigit c = false) : (text ++ c :: rest).takeWhile isDigit = text := by
  rw [List.takeWhile_append_of_pos h.2, List.takeWhile_cons_of_neg (by simp [hc]),
    List.append_nil]

theorem isBlank_of_isDigit {c : Char} (h : isDigit c = true) : isBlank c = false := by
  simp only [isDigit, Bool.and_eq_true, decide_eq_true_eq, Char.le_def, UInt32.le_iff_toNat_le] at h
  have hlow : 48 ≤ c.toNat := h.1
  have hhigh : c.toNat ≤ 57 := h.2
  simp only [isBlank, Bool.or_eq_false_iff, Bool.and_eq_false_iff, decide_eq_false_iff_not,
    beq_eq_false_iff_ne, ne_eq]
  omega

theorem dropBlankStart_cons {c : Char} {rest : List Char} (hc : isBlank c = false) :
    dropBlankStart (c :: rest) = c :: rest :=
  List.dropWhile_cons_of_neg (by simp [hc])

theorem IsNumeral.dropBlankStart {text : List Char} (h : IsNumeral text) (rest : List Char) :
    dropBlankStart (text ++ rest) = text ++ rest := by
  obtain ⟨c, cs, rfl⟩ := List.exists_cons_of_ne_nil h.1
  exact dropBlankStart_cons (isBlank_of_isDigit (h.2 c List.mem_cons_self))

end CacheUpkeep.Text
