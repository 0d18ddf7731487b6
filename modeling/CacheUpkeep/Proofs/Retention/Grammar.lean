import CacheUpkeep.Proofs.Retention
import CacheUpkeep.Proofs.Text.Lines

/-!
# Retention expressions

Exactly the texts of one grammar are read as windows, and every other text is refused in one
of three ways.  Reading by octets and by single digits, with a limit at each digit, gives the
same answer for every text: the last character is never cut.
-/

namespace CacheUpkeep

open CacheUpkeep.Text CacheUpkeep.Number

/-! ## Letters of units -/

namespace RetentionUnit

def letters : RetentionUnit → List Char
  | .days => ['d', 'D']
  | .weeks => ['w', 'W']

theorem ofLetter?_eq_some_iff {c : Char} {unit : RetentionUnit} :
    ofLetter? c = some unit ↔ c ∈ unit.letters := by
  unfold ofLetter?
  constructor
  · intro h
    split at h
    · next hc =>
        cases h
        simpa [letters] using hc
    · split at h
      · next hc =>
          cases h
          simpa [letters] using hc
      · cases h
  · intro h
    cases unit <;> simp only [letters, List.mem_cons, List.not_mem_nil, or_false] at h <;>
      rcases h with rfl | rfl <;> rfl

end RetentionUnit

namespace RetentionWindow

variable {text front : List Char} {letter : Char} {n n' total : Nat} {unit unit' : RetentionUnit}

/-! ## Amounts -/

/-- A numeral with any number of zeros in front, with or without a plus sign. -/
inductive IsAmount (n : Nat) : List Char → Prop where
  | plain {ds : List Char} (isNumeral : IsNumeral ds) (value : digitsValue ds = n) : IsAmount n ds
  | signed {ds : List Char} (isNumeral : IsNumeral ds) (value : digitsValue ds = n) :
      IsAmount n ('+' :: ds)

def unsigned : List Char → List Char
  | '+' :: rest => rest
  | text => text

theorem unsigned_cons_of_ne {c : Char} (hc : c ≠ '+') (rest : List Char) :
    unsigned (c :: rest) = c :: rest := by
  unfold unsigned
  split
  · next heq =>
      cases heq
      exact absurd rfl hc
  · rfl

theorem unsigned_of_isNumeral (h : IsNumeral text) : unsigned text = text := by
  obtain ⟨c, rest, rfl⟩ := List.exists_cons_of_ne_nil h.1
  refine unsigned_cons_of_ne ?_ rest
  rintro rfl
  exact absurd (h.2 '+' List.mem_cons_self) (by decide)

theorem isAmount_iff :
    IsAmount n text ↔ IsNumeral (unsigned text) ∧ digitsValue (unsigned text) = n := by
  constructor
  · intro h
    cases h with
    | plain isNumeral value =>
        rw [unsigned_of_isNumeral isNumeral]
        exact ⟨isNumeral, value⟩
    | signed isNumeral value => exact ⟨isNumeral, value⟩
  · rintro ⟨hnumeral, hvalue⟩
    cases text with
    | nil => exact .plain hnumeral hvalue
    | cons c rest =>
        by_cases hc : c = '+'
        · subst hc
          exact .signed hnumeral hvalue
        · rw [unsigned_cons_of_ne hc] at hnumeral hvalue
          exact .plain hnumeral hvalue

theorem readAmount?_eq (text : List Char) :
    readAmount? text =
      if (unsigned text).isEmpty || !(unsigned text).all isDigit then none
      else if digitsValue (unsigned text) < limit32 then some (digitsValue (unsigned text))
      else none := by
  cases text with
  | nil => rfl
  | cons c rest =>
      by_cases hc : c = '+'
      · subst hc
        rfl
      · rw [unsigned_cons_of_ne hc]
        unfold readAmount?
        dsimp only
        split
        · next heq => exact absurd (List.cons.inj heq).1 hc
        · rfl

theorem readAmount?_of_isAmount (h : IsAmount n text) :
    readAmount? text = if n < limit32 then some n else none := by
  obtain ⟨⟨hne, hdigits⟩, rfl⟩ := isAmount_iff.mp h
  have hcond : ((unsigned text).isEmpty || !(unsigned text).all isDigit) = false := by
    simpa [hne] using hdigits
  rw [readAmount?_eq, hcond, if_neg (by simp)]

theorem readAmount?_of_not_isAmount (h : ∀ n, ¬ IsAmount n text) : readAmount? text = none := by
  have hcond : ((unsigned text).isEmpty || !(unsigned text).all isDigit) = true := by
    rw [Bool.or_eq_true, Bool.not_eq_true', ← Bool.not_eq_true, List.isEmpty_iff,
      List.all_eq_true]
    by_cases hnil : unsigned text = []
    · exact .inl hnil
    · exact .inr fun hdigits => h _ (isAmount_iff.mpr ⟨⟨hnil, hdigits⟩, rfl⟩)
  rw [readAmount?_eq, if_pos hcond]

/-! ## Expressions -/

/-- An amount and the letter of a unit, and nothing between, before or behind them. -/
def IsExpression (text : List Char) (n : Nat) (unit : RetentionUnit) : Prop :=
  ∃ front letter, text = front ++ [letter] ∧ IsAmount n front ∧ letter ∈ unit.letters

theorem isExpression_concat_iff :
    IsExpression (front ++ [letter]) n unit ↔
      IsAmount n front ∧ RetentionUnit.ofLetter? letter = some unit := by
  rw [RetentionUnit.ofLetter?_eq_some_iff]
  constructor
  · rintro ⟨front', letter', heq, hamount, hletter⟩
    obtain ⟨rfl, hlast⟩ := List.append_inj' heq rfl
    cases hlast
    exact ⟨hamount, hletter⟩
  · rintro ⟨hamount, hletter⟩
    exact ⟨front, letter, rfl, hamount, hletter⟩

theorem not_isExpression_nil : ¬ IsExpression [] n unit := by
  rintro ⟨front, letter, heq, -⟩
  exact List.append_ne_nil_of_right_ne_nil front (List.cons_ne_nil letter []) heq.symm

theorem IsExpression.unique (h : IsExpression text n unit) (h' : IsExpression text n' unit') :
    n = n' ∧ unit = unit' := by
  obtain ⟨front, letter, rfl, hamount, hletter⟩ := h
  obtain ⟨hamount', hunit'⟩ := isExpression_concat_iff.mp h'
  have hunit := RetentionUnit.ofLetter?_eq_some_iff.mpr hletter
  rw [hunit] at hunit'
  have hn := (isAmount_iff.mp hamount).2
  have hn' := (isAmount_iff.mp hamount').2
  exact ⟨hn.symm.trans hn', Option.some.inj hunit'⟩

/-! ## Reading expressions -/

theorem readTrimmed_of_isExpression (h : IsExpression text n unit) :
    readTrimmed text =
      if n = 0 then .error (.zero (String.ofList text))
      else if h : n < limit32 then .ok ⟨n, unit, h⟩
      else .error (.invalid (String.ofList text)) := by
  obtain ⟨front, letter, rfl, hamount, hletter⟩ := h
  have hunit := RetentionUnit.ofLetter?_eq_some_iff.mpr hletter
  have hread := readAmount?_of_isAmount hamount
  by_cases hlt : n < limit32
  · rw [if_pos hlt] at hread
    simp only [readTrimmed, List.getLast?_concat, List.dropLast_concat, hunit, hread]
  · have hzero : n ≠ 0 := by
      rintro rfl
      exact hlt (by decide)
    rw [if_neg hlt] at hread
    rw [dif_neg hlt, if_neg hzero]
    simp only [readTrimmed, List.getLast?_concat, List.dropLast_concat, hunit, hread]

theorem readTrimmed_of_not_isExpression (hne : text ≠ [])
    (h : ∀ n unit, ¬ IsExpression text n unit) :
    readTrimmed text = .error (.invalid (String.ofList text)) := by
  obtain ⟨front, letter, rfl⟩ := (List.eq_nil_or_concat' text).resolve_left hne
  cases hunit : RetentionUnit.ofLetter? letter with
  | none => simp only [readTrimmed, List.getLast?_concat, hunit]
  | some unit =>
      have hamount : ∀ n, ¬ IsAmount n front := fun n hn =>
        h n unit (isExpression_concat_iff.mpr ⟨hn, hunit⟩)
      have hread := readAmount?_of_not_isAmount hamount
      simp only [readTrimmed, List.getLast?_concat, List.dropLast_concat, hunit, hread]

/-- The answer to a text, which is empty, an expression of some amount, or anything else. -/
inductive IsAnswer (text : List Char) : Except RetentionError RetentionWindow → Prop where
  | empty (nil : text = []) : IsAnswer text (.error .empty)
  | window (w : RetentionWindow) (pos : 1 ≤ w.amount)
      (expression : IsExpression text w.amount w.unit) : IsAnswer text (.ok w)
  | zero (unit : RetentionUnit) (expression : IsExpression text 0 unit) :
      IsAnswer text (.error (.zero (String.ofList text)))
  | invalid (ne : text ≠ []) (large : ∀ n unit, IsExpression text n unit → limit32 ≤ n) :
      IsAnswer text (.error (.invalid (String.ofList text)))

theorem isAnswer_readTrimmed (text : List Char) : IsAnswer text (readTrimmed text) := by
  by_cases hexp : ∃ n unit, IsExpression text n unit
  · obtain ⟨n, unit, hexp⟩ := hexp
    rw [readTrimmed_of_isExpression hexp]
    split
    · next hzero =>
        subst hzero
        exact .zero unit hexp
    · next hzero =>
        split
        · next hlt => exact .window ⟨n, unit, hlt⟩ (Nat.one_le_iff_ne_zero.mpr hzero) hexp
        · next hlt =>
            have hne : text ≠ [] := by
              rintro rfl
              exact not_isExpression_nil hexp
            refine .invalid hne fun n' unit' hexp' => ?_
            rw [← (hexp.unique hexp').1]
            exact Nat.not_lt.mp hlt
  · have hnone : ∀ n unit, ¬ IsExpression text n unit := fun n unit h => hexp ⟨n, unit, h⟩
    by_cases hnil : text = []
    · subst hnil
      exact .empty rfl
    · rw [readTrimmed_of_not_isExpression hnil hnone]
      exact .invalid hnil fun n unit h => absurd h (hnone n unit)

theorem IsAnswer.readTrimmed_eq {r : Except RetentionError RetentionWindow}
    (h : IsAnswer text r) : readTrimmed text = r := by
  cases h with
  | empty nil =>
      subst nil
      rfl
  | window w pos expression =>
      rw [readTrimmed_of_isExpression expression, if_neg (Nat.one_le_iff_ne_zero.mp pos),
        dif_pos w.amount_lt]
  | zero unit expression => rw [readTrimmed_of_isExpression expression, if_pos rfl]
  | invalid ne large =>
      by_cases hexp : ∃ n unit, IsExpression text n unit
      · obtain ⟨n, unit, hexp⟩ := hexp
        have hlarge := large n unit hexp
        have hzero : n ≠ 0 := by
          rintro rfl
          exact absurd hlarge (by decide)
        rw [readTrimmed_of_isExpression hexp, if_neg hzero, dif_neg (Nat.not_lt.mpr hlarge)]
      · exact readTrimmed_of_not_isExpression ne fun n unit h => hexp ⟨n, unit, h⟩

theorem readTrimmed_eq_iff {r : Except RetentionError RetentionWindow} :
    readTrimmed text = r ↔ IsAnswer text r :=
  ⟨fun h => h ▸ isAnswer_readTrimmed text, IsAnswer.readTrimmed_eq⟩

theorem isAnswer_empty_iff : IsAnswer text (.error .empty) ↔ text = [] := by
  constructor
  · intro h
    cases h with
    | empty nil => exact nil
  · exact .empty

theorem isAnswer_ok_iff {w : RetentionWindow} :
    IsAnswer text (.ok w) ↔ 1 ≤ w.amount ∧ IsExpression text w.amount w.unit := by
  constructor
  · intro h
    cases h with
    | window _ pos expression => exact ⟨pos, expression⟩
  · rintro ⟨pos, expression⟩
    exact .window w pos expression

theorem isAnswer_zero_iff {t : String} :
    IsAnswer text (.error (.zero t)) ↔
      t = String.ofList text ∧ ∃ unit, IsExpression text 0 unit := by
  constructor
  · intro h
    cases h with
    | zero unit expression => exact ⟨rfl, unit, expression⟩
  · rintro ⟨rfl, unit, expression⟩
    exact .zero unit expression

theorem isAnswer_invalid_iff {t : String} :
    IsAnswer text (.error (.invalid t)) ↔
      t = String.ofList text ∧ text ≠ [] ∧ ∀ n unit, IsExpression text n unit → limit32 ≤ n := by
  constructor
  · intro h
    cases h with
    | invalid ne large => exact ⟨rfl, ne, large⟩
  · rintro ⟨rfl, ne, large⟩
    exact .invalid ne large

/-! ## Digit by digit -/

def takeIn? (total : Nat) : List Char → Option Nat
  | [] => some total
  | c :: rest =>
      let next := 10 * total + digitValue c
      if isDigit c && next < limit32 then takeIn? next rest else none

def digitsValueFrom (total : Nat) (text : List Char) : Nat :=
  text.foldl (fun total c => 10 * total + digitValue c) total

theorem digitsValueFrom_cons (total : Nat) (c : Char) (rest : List Char) :
    digitsValueFrom total (c :: rest) = digitsValueFrom (10 * total + digitValue c) rest := by
  rw [digitsValueFrom, List.foldl_cons, ← digitsValueFrom]

theorem le_digitsValueFrom (total : Nat) (text : List Char) :
    total ≤ digitsValueFrom total text := by
  induction text generalizing total with
  | nil => exact Nat.le_refl total
  | cons c rest ih =>
      have hrest := ih (10 * total + digitValue c)
      rw [digitsValueFrom_cons]
      omega

theorem takeIn?_eq (htotal : total < limit32) :
    takeIn? total text =
      if text.all isDigit = true ∧ digitsValueFrom total text < limit32 then
        some (digitsValueFrom total text)
      else none := by
  induction text generalizing total with
  | nil => simp [takeIn?, digitsValueFrom, htotal]
  | cons c rest ih =>
      rw [takeIn?, digitsValueFrom_cons]
      by_cases hnext : 10 * total + digitValue c < limit32
      · cases hc : isDigit c with
        | false => simp [hc]
        | true => simp [hc, hnext, ih hnext]
      · have hbeyond := le_digitsValueFrom (10 * total + digitValue c) rest
        have hend : ¬ digitsValueFrom (10 * total + digitValue c) rest < limit32 := by
          omega
        simp [hnext, hend]

def takeAmount? (text : List Char) : Option Nat :=
  if (unsigned text).isEmpty then none else takeIn? 0 (unsigned text)

theorem takeAmount?_eq (text : List Char) : takeAmount? text = readAmount? text := by
  have hvalue : digitsValueFrom 0 (unsigned text) = digitsValue (unsigned text) := rfl
  rw [takeAmount?, readAmount?_eq, takeIn?_eq (by decide), hvalue]
  cases (unsigned text).isEmpty <;> cases (unsigned text).all isDigit <;> simp

/-! ## Octet by octet -/

/-- The text before the last octets of a text; there is none if these start within a character
or are more than the text has. -/
def cutBack? (text : String) (octets : Nat) : Option String :=
  if octets ≤ text.utf8ByteSize then
    String.fromUTF8? (text.toUTF8.extract 0 (text.utf8ByteSize - octets))
  else none

theorem cutBack?_append (front back : String) :
    cutBack? (front ++ back) back.utf8ByteSize = some front := by
  have hfront : (front ++ back).toUTF8.extract 0 front.utf8ByteSize = front.toUTF8 := by
    rw [String.toUTF8, String.toByteArray_append]
    exact ByteArray.extract_append_eq_left rfl
  have hsize : (front ++ back).utf8ByteSize = front.utf8ByteSize + back.utf8ByteSize :=
    String.utf8ByteSize_append
  rw [cutBack?, hsize, if_pos (Nat.le_add_left _ _), Nat.add_sub_cancel, hfront]
  exact dif_pos front.isValidUTF8

/-- Reads a window with the text cut before the octets of its last character, where each digit is
taken in by itself; none if that is no place to cut. -/
def readByOctets (text : String) : Option (Except RetentionError RetentionWindow) :=
  let t := trim text
  match t.toList.getLast? with
  | none => some (.error .empty)
  | some last =>
      (cutBack? t last.utf8Size).map fun front =>
        match RetentionUnit.ofLetter? last, takeAmount? front.toList with
        | some unit, some amount =>
            if amount = 0 then .error (.zero t)
            else if h : amount < limit32 then .ok ⟨amount, unit, h⟩
            else .error (.invalid t)
        | _, _ => .error (.invalid t)

theorem readByOctets_eq (text : String) : readByOctets text = some (read text) := by
  unfold readByOctets read trim
  rcases List.eq_nil_or_concat' (trimList text.toList) with hnil | ⟨front, last, hconcat⟩
  · rw [hnil]
    rfl
  · have hcut : cutBack? (String.ofList (front ++ [last])) last.utf8Size =
        some (String.ofList front) := by
      have hsize : (String.ofList [last]).utf8ByteSize = last.utf8Size :=
        String.utf8ByteSize_singleton
      rw [String.ofList_append, ← hsize]
      exact cutBack?_append _ _
    cases hunit : RetentionUnit.ofLetter? last <;> cases hamount : readAmount? front <;>
      simp only [hconcat, String.toList_ofList, List.getLast?_concat, List.dropLast_concat, hcut,
        Option.map_some, takeAmount?_eq, readTrimmed, hunit, hamount]

/-! ## The grammar -/

/--
Reading takes away the blanks at both ends.  Of nothing it says so; otherwise it gives the
window of an expression, unless its amount is zero, which is said with the expression, or it
does not fit, and refuses every other text as it is.  No text is cut within a character, and
what is written for a window that is not empty is read as that window.
-/
theorem read_iff_grammar (text : String) :
    (∃ before after, text.toList = before ++ (trim text).toList ++ after ∧
      (∀ c ∈ before ++ after, isBlank c = true) ∧ IsTrimmed (trim text).toList) ∧
    (read text = .error .empty ↔ trim text = "") ∧
    (∀ w, read text = .ok w ↔
      1 ≤ w.amount ∧ IsExpression (trim text).toList w.amount w.unit) ∧
    (∀ t, read text = .error (.zero t) ↔
      t = trim text ∧ ∃ unit, IsExpression (trim text).toList 0 unit) ∧
    (∀ t, read text = .error (.invalid t) ↔
      t = trim text ∧ trim text ≠ "" ∧
        ∀ n unit, IsExpression (trim text).toList n unit → limit32 ≤ n) ∧
    readByOctets text = some (read text) ∧
    ∀ w : RetentionWindow, 1 ≤ w.amount → read w.text = .ok w := by
  have hempty : trim text = "" ↔ trimList text.toList = [] := String.ofList_eq_empty_iff
  have hlist : (trim text).toList = trimList text.toList := String.toList_ofList
  rw [hlist, ne_eq, hempty]
  obtain ⟨before, after, htext, hblank⟩ := exists_blanks_trimList text.toList
  exact ⟨⟨before, after, htext, hblank, isTrimmed_trimList _⟩,
    readTrimmed_eq_iff.trans isAnswer_empty_iff,
    fun _ => readTrimmed_eq_iff.trans isAnswer_ok_iff,
    fun _ => readTrimmed_eq_iff.trans isAnswer_zero_iff,
    fun _ => readTrimmed_eq_iff.trans isAnswer_invalid_iff, readByOctets_eq text,
    fun _ hpos => read_text hpos⟩

theorem read_iff_grammar_sample :
    read "\u00a0+007W\n" = .ok ⟨7, .weeks, by decide⟩ ∧
      read "4294967296d" = .error (.invalid "4294967296d") ∧
      read standard.text = .ok standard := by
  obtain ⟨-, -, hok, -⟩ := read_iff_grammar "\u00a0+007W\n"
  obtain ⟨-, -, -, -, hinvalid, -, htext⟩ := read_iff_grammar "4294967296d"
  have htrim : trim "4294967296d" = "4294967296d" := by decide +kernel
  refine ⟨(hok _).mpr ⟨by decide, "+007".toList, 'W', by decide +kernel, ?_, by decide⟩,
    (hinvalid _).mpr ⟨htrim.symm, by simp [htrim], fun n unit hexp => ?_⟩,
    htext standard (by decide)⟩
  · exact .signed ⟨by decide, List.all_eq_true.mp (by decide)⟩ (by decide)
  · have hamount : IsExpression (trim "4294967296d").toList 4294967296 .days :=
      ⟨"4294967296".toList, 'd', by rw [htrim]; rfl,
        .plain ⟨by decide, List.all_eq_true.mp (by decide)⟩ (by decide), by decide⟩
    rw [(hexp.unique hamount).1]

end RetentionWindow

end CacheUpkeep
