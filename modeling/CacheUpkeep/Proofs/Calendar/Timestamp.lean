import CacheUpkeep.Calendar.Timestamp
import CacheUpkeep.Proofs.Calendar.LeapSeconds
import CacheUpkeep.Proofs.Text.Decimal

/-!
# Timestamps round trip

Reading the text that is written for an instant gives the instant, with a leap
second as the second 60 and with years of any number of digits.  Leap seconds
that do not end a minute have no text of their own: they are written, and read,
as the next second.
-/

namespace CacheUpkeep.Calendar.Timestamp

open CacheUpkeep.Text

variable {text rest : List Char} {c : Char}

theorem readDigits_numeral {limit : Nat} (htext : IsNumeral text) (hlen : text.length ≤ limit)
    (hc : isDigit c = false) :
    readDigits limit (text ++ c :: rest) = some (digitsValue text, c :: rest) := by
  have htake : ((text ++ c :: rest).take limit).takeWhile isDigit = text := by
    rw [List.take_append, List.take_of_length_le hlen]
    cases limit - text.length with
    | zero => simp [htext.takeWhile]
    | succ k => exact takeWhile_isDigit htext hc
  unfold readDigits
  simp only [htake, List.isEmpty_iff, htext.1, if_false, List.drop_left]

theorem readNumber_twoDigitText {n : Nat} (hn : n < 100) (hc : isDigit c = false) :
    readNumber 2 (twoDigitText n ++ c :: rest) = some (n, c :: rest) := by
  have htext : IsNumeral (twoDigitText n) := (isNumeral_digits n).leftpad 2
  have hlen : (twoDigitText n).length = 2 := length_leftpad_digits (k := 1) hn
  rw [readNumber, htext.dropBlankStart, readDigits_numeral htext (by omega) hc, twoDigitText,
    digitsValue_leftpad_digits]

theorem readMark_cons (hc : isBlank c = false) : readMark c (c :: rest) = some rest := by
  simp [readMark, dropBlankStart_cons hc]

/-! ## Dates -/

theorem readYear_numeral (htext : IsNumeral text) (hlen : text.length ≤ 4)
    (hc : isDigit c = false) :
    readYear (text ++ c :: rest) = some ((digitsValue text : Int), c :: rest) := by
  obtain ⟨d, ds, rfl⟩ := List.exists_cons_of_ne_nil htext.1
  have hd : isDigit d = true := htext.2 d List.mem_cons_self
  have hminus : d ≠ '-' := by
    rintro rfl
    exact absurd hd (by decide)
  have hplus : d ≠ '+' := by
    rintro rfl
    exact absurd hd (by decide)
  have hread : readDigits 4 (d :: ds ++ c :: rest) = some (digitsValue (d :: ds), c :: rest) :=
    readDigits_numeral htext hlen hc
  unfold readYear
  rw [htext.dropBlankStart, List.cons_append]
  split
  · next heq => exact absurd (List.cons.inj heq).1 hminus
  · next heq => exact absurd (List.cons.inj heq).1 hplus
  · rw [← List.cons_append, hread]
    rfl

theorem readYear_minus (htext : IsNumeral text) (hc : isDigit c = false) :
    readYear ('-' :: (text ++ c :: rest)) = some (-(digitsValue text : Int), c :: rest) := by
  have hread : readDigits (text ++ c :: rest).length (text ++ c :: rest) =
      some (digitsValue text, c :: rest) := readDigits_numeral htext (by simp) hc
  have hblank : dropBlankStart ('-' :: (text ++ c :: rest)) = '-' :: (text ++ c :: rest) :=
    dropBlankStart_cons (by decide)
  simp only [readYear, hblank, hread]
  rfl

theorem readYear_plus (htext : IsNumeral text) (hc : isDigit c = false) :
    readYear ('+' :: (text ++ c :: rest)) = some ((digitsValue text : Int), c :: rest) := by
  have hread : readDigits (text ++ c :: rest).length (text ++ c :: rest) =
      some (digitsValue text, c :: rest) := readDigits_numeral htext (by simp) hc
  have hblank : dropBlankStart ('+' :: (text ++ c :: rest)) = '+' :: (text ++ c :: rest) :=
    dropBlankStart_cons (by decide)
  simp only [readYear, hblank, hread]
  rfl

theorem readYear_yearText (year : Int) (rest : List Char) :
    readYear (yearText year ++ '-' :: rest) = some (year, '-' :: rest) := by
  have hminus : isDigit '-' = false := by decide
  unfold yearText
  split
  · next h =>
      simp only [Bool.and_eq_true, decide_eq_true_eq] at h
      have hn : year.toNat < Nat.pow 10 (3 + 1) := by
        have hpow : Nat.pow 10 (3 + 1) = 10000 := rfl
        omega
      rw [readYear_numeral ((isNumeral_digits _).leftpad 4)
        (Nat.le_of_eq (length_leftpad_digits hn)) hminus, digitsValue_leftpad_digits,
        Int.toNat_of_nonneg h.1]
  · have hnumeral : IsNumeral ((digits year.natAbs).leftpad 4 '0') :=
      (isNumeral_digits _).leftpad 4
    by_cases hneg : year < 0
    · rw [if_pos hneg, List.cons_append, readYear_minus hnumeral hminus,
        digitsValue_leftpad_digits]
      simp only [Option.some.injEq, Prod.mk.injEq, and_true]
      omega
    · rw [if_neg hneg, List.cons_append, readYear_plus hnumeral hminus,
        digitsValue_leftpad_digits]
      simp only [Option.some.injEq, Prod.mk.injEq, and_true]
      omega

theorem Date.of?_self (d : Date) : Date.of? d.year d.month d.day = some d :=
  dif_pos d.isDate

theorem readDate_written (d : Date) (rest : List Char) (hc : isDigit c = false) :
    readDate (yearText d.year ++ '-' :: twoDigitText d.month ++ '-' ::
      twoDigitText d.day ++ c :: rest) = some (d, c :: rest) := by
  have hmonth : d.month < 100 := by
    have := d.isDate.2.2.2.1
    omega
  have hday : d.day < 100 := by
    have hle := d.isDate.2.2.2.2.2
    have hmax : daysInMonth d.year d.month ≤ 31 := by
      unfold daysInMonth
      split
      · split <;> omega
      · split <;> omega
    omega
  have hminus : isDigit '-' = false := by decide
  have hblank : isBlank '-' = false := by decide
  simp only [readDate, List.append_assoc, List.cons_append, readYear_yearText,
    readMark_cons hblank, readNumber_twoDigitText hmonth hminus,
    readNumber_twoDigitText hday hc, Option.bind_eq_bind, Option.bind_some, Date.of?_self]
  rfl

/-! ## Times of day -/

theorem readFraction_numeral (htext : IsNumeral text) (hlen : text.length ≤ 9)
    (hc : isDigit c = false) :
    readFraction ('.' :: (text ++ c :: rest)) =
      some (digitsValue text * Nat.pow 10 (9 - text.length), c :: rest) := by
  have htake : (text ++ List.replicate 9 '0').take 9 =
      text ++ List.replicate (9 - text.length) '0' := by
    rw [List.take_append, List.take_of_length_le hlen, List.take_replicate,
      Nat.min_eq_left (by omega)]
  simp only [readFraction, takeWhile_isDigit htext hc, List.isEmpty_iff, htext.1, if_false,
    htake, digitsValue_append_zeros, List.drop_left]

theorem readFraction_fractionText {nano : Nat} (hnano : nano < nanosPerSecond)
    (rest : List Char) :
    readFraction (fractionText nano ++ 'Z' :: rest) = some (nano, 'Z' :: rest) := by
  have hz : isDigit 'Z' = false := by decide
  have hbound : nanosPerSecond = 1000000000 := rfl
  have hwidth : ∀ k n, k + 1 ≤ 9 → n < Nat.pow 10 (k + 1) →
      readFraction ('.' :: ((digits n).leftpad (k + 1) '0' ++ 'Z' :: rest)) =
        some (n * Nat.pow 10 (9 - (k + 1)), 'Z' :: rest) := by
    intro k n hk hn
    have hlen := length_leftpad_digits hn
    rw [readFraction_numeral ((isNumeral_digits n).leftpad _) (by omega) hz, hlen,
      digitsValue_leftpad_digits]
  unfold fractionText
  split
  · next h =>
      subst h
      rfl
  · split
    · next h =>
        have hpow : Nat.pow 10 (9 - (2 + 1)) = 1000000 := rfl
        have hlt : nano / 1000000 < Nat.pow 10 (2 + 1) := by
          have : Nat.pow 10 (2 + 1) = 1000 := rfl
          omega
        rw [List.cons_append, hwidth 2 _ (by omega) hlt, hpow]
        simp only [Option.some.injEq, Prod.mk.injEq, and_true]
        omega
    · split
      · next h =>
          have hpow : Nat.pow 10 (9 - (5 + 1)) = 1000 := rfl
          have hlt : nano / 1000 < Nat.pow 10 (5 + 1) := by
            have : Nat.pow 10 (5 + 1) = 1000000 := rfl
            omega
          rw [List.cons_append, hwidth 5 _ (by omega) hlt, hpow]
          simp only [Option.some.injEq, Prod.mk.injEq, and_true]
          omega
      · have hpow : Nat.pow 10 (9 - (8 + 1)) = 1 := rfl
        have hlt : nano < Nat.pow 10 (8 + 1) := by
          have : Nat.pow 10 (8 + 1) = 1000000000 := rfl
          omega
        rw [List.cons_append, hwidth 8 _ (by omega) hlt, hpow, Nat.mul_one]

theorem fractionText_append (nano : Nat) (rest : List Char) :
    ∃ c cs, fractionText nano ++ 'Z' :: rest = c :: cs ∧ isDigit c = false := by
  unfold fractionText
  split
  · exact ⟨'Z', rest, rfl, by decide⟩
  · split
    · exact ⟨'.', _, rfl, by decide⟩
    · split
      · exact ⟨'.', _, rfl, by decide⟩
      · exact ⟨'.', _, rfl, by decide⟩

theorem readTime_parts {hour minute second nano : Nat} (hhour : hour < 24) (hminute : minute < 60)
    (hsecond : second < 61) (hnano : nano < nanosPerSecond) :
    readTime (twoDigitText hour ++ ':' :: (twoDigitText minute ++ ':' ::
      (twoDigitText second ++ (fractionText nano ++ ['Z'])))) =
      if second = 60 then
        some (hour * 3600 + minute * 60 + 59, nano + nanosPerSecond, ['Z'])
      else some (hour * 3600 + minute * 60 + second, nano, ['Z']) := by
  have hcolon : isDigit ':' = false := by decide
  have hblank : isBlank ':' = false := by decide
  have hfraction := readFraction_fractionText hnano []
  obtain ⟨c, cs, heq, hc⟩ := fractionText_append nano []
  rw [heq] at hfraction ⊢
  unfold readTime
  simp only [readNumber_twoDigitText (show hour < 100 by omega) hcolon,
    readNumber_twoDigitText (show minute < 100 by omega) hcolon,
    readNumber_twoDigitText (show second < 100 by omega) hc, readMark_cons hblank, hfraction,
    Option.bind_eq_bind, Option.bind_some]
  rw [if_neg (by simp; omega)]
  split <;> rfl

/-! ## Instants -/

theorem of?_self (t : Instant) : Instant.of? t.date t.second t.nano = some t :=
  dif_pos t.isTime

theorem shift?_zero (t : Instant) : t.shift? (-0) = some t := by
  obtain ⟨hsecond, -⟩ := t.isTime
  unfold Instant.shift?
  simp only [Int.neg_zero, Int.add_zero, Int.toNat_natCast]
  rw [if_neg (by omega), if_neg (by omega), of?_self]

theorem readTime_written (t : Instant) :
    readTime (twoDigitText (t.second / 3600) ++ ':' :: (twoDigitText (t.second / 60 % 60) ++ ':' ::
      (twoDigitText (t.second % 60 + if nanosPerSecond ≤ t.nano then 1 else 0) ++
        (fractionText (if nanosPerSecond ≤ t.nano then t.nano - nanosPerSecond else t.nano) ++
          ['Z'])))) = some (t.carried.second, t.carried.nano, ['Z']) := by
  obtain ⟨hsecond, hnano⟩ := t.isTime
  have hday : secondsPerDay = 86400 := rfl
  by_cases h : nanosPerSecond ≤ t.nano
  · rw [if_pos h, if_pos h, readTime_parts (by omega) (by omega) (by omega) (by omega)]
    by_cases hlast : t.second % 60 = 59
    · rw [if_pos (by omega), Instant.carried_eq_self fun _ => hlast]
      simp only [Option.some.injEq, Prod.mk.injEq, and_true]
      omega
    · rw [if_neg (by omega), Instant.carried, dif_neg fun hregular => hlast (hregular h)]
      simp only [Option.some.injEq, Prod.mk.injEq, and_true]
      omega
  · rw [if_neg h, if_neg h, readTime_parts (by omega) (by omega) (by omega) (by omega),
      if_neg (by omega), Instant.carried_eq_self fun hle => absurd hle h]
    simp only [Option.some.injEq, Prod.mk.injEq, and_true]
    omega

theorem readList_writeList (t : Instant) : readList (writeList t) = some t.carried := by
  have hz : dropBlankStart ['Z'] = ['Z'] := by decide
  have hoffset : readOffset ['Z'] = some (0, []) := by decide
  have hT : isDigit 'T' = false := by decide
  have hdate := fun rest => readDate_written t.date rest hT
  have hof : Instant.of? t.date t.carried.second t.carried.nano = some t.carried := by
    rw [← t.date_carried, of?_self]
  simp only [List.append_assoc, List.cons_append] at hdate
  unfold readList writeList
  simp only [List.append_assoc, List.cons_append, hdate, readTime_written, hz, hoffset,
    Option.bind_eq_bind, Option.bind_some, hof]
  exact shift?_zero t.carried

theorem read_write (t : Instant) : read (write t) = some t.carried := by
  rw [read, write, String.toList_ofList, readList_writeList]

/-! ## Instants that are read -/

theorem readFraction_lt {nano : Nat} (h : readFraction text = some (nano, rest)) :
    nano < nanosPerSecond := by
  unfold readFraction at h
  split at h
  · next ds =>
      simp only [Option.ite_none_left_eq_some, Option.some.injEq, Prod.mk.injEq] at h
      obtain ⟨-, rfl, -⟩ := h
      have hdigits : ∀ c ∈ (ds.takeWhile isDigit ++ List.replicate 9 '0').take 9,
          isDigit c = true := by
        intro c hc
        rcases List.mem_append.mp (List.mem_of_mem_take hc) with hc | hc
        · exact List.all_eq_true.mp List.all_takeWhile c hc
        · rw [List.eq_of_mem_replicate hc]
          decide
      have hlen : ((ds.takeWhile isDigit ++ List.replicate 9 '0').take 9).length = 9 := by
        simp
      have hlt := digitsValue_lt hdigits
      rw [hlen] at hlt
      exact hlt
  · cases h
    decide

theorem readTime_isRegular {second nano : Nat} (h : readTime text = some (second, nano, rest)) :
    nanosPerSecond ≤ nano → second % 60 = 59 := by
  simp only [readTime, Option.bind_eq_bind, Option.bind_eq_some_iff, Prod.exists] at h
  obtain ⟨hour, _, -, _, -, minute, _, -, _, -, s, _, -, n, _, hfraction, h⟩ := h
  have hn := readFraction_lt hfraction
  split at h
  · cases h
  · split at h
    · cases h
      omega
    · cases h
      omega

def IsOffset (seconds : Int) : Prop :=
  60 ∣ seconds ∧ seconds.natAbs < secondsPerDay

theorem IsOffset.neg {seconds : Int} (h : IsOffset seconds) : IsOffset (-seconds) :=
  ⟨Int.dvd_neg.mpr h.1, by rw [Int.natAbs_neg]; exact h.2⟩

theorem isOffset_zero : IsOffset 0 :=
  ⟨Int.dvd_zero 60, by decide⟩

theorem readOffsetSeconds_isOffset {n : Nat} (h : readOffsetSeconds text = some (n, rest)) :
    IsOffset n := by
  simp only [readOffsetSeconds, Option.bind_eq_bind, Option.bind_eq_some_iff, Prod.exists] at h
  obtain ⟨hours, _, -, minutes, _, -, h⟩ := h
  split at h
  · cases h
  · next hlimits =>
      simp only [Bool.or_eq_true, decide_eq_true_eq] at hlimits
      cases h
      unfold IsOffset secondsPerDay
      omega

theorem readSigned_isOffset {n : Int} (h : readOffset.readSigned text = some (n, rest)) :
    IsOffset n := by
  unfold readOffset.readSigned at h
  split at h
  · split at h
    · cases h
      exact isOffset_zero
    · split at h
      · simp only [Option.map_eq_some_iff, Prod.mk.injEq, Prod.exists] at h
        obtain ⟨m, _, hm, rfl, -⟩ := h
        exact readOffsetSeconds_isOffset hm
      · split at h
        · simp only [Option.map_eq_some_iff, Prod.mk.injEq, Prod.exists] at h
          obtain ⟨m, _, hm, rfl, -⟩ := h
          exact (readOffsetSeconds_isOffset hm).neg
        · cases h
  · cases h

theorem readOffset_isOffset {n : Int} (h : readOffset text = some (n, rest)) : IsOffset n := by
  unfold readOffset at h
  split at h
  · split at h
    · cases h
      exact isOffset_zero
    · exact readSigned_isOffset h
  · exact readSigned_isOffset h

theorem parts_of_of? {date : Date} {second nano : Nat} {t : Instant}
    (h : Instant.of? date second nano = some t) : t.second = second ∧ t.nano = nano := by
  unfold Instant.of? at h
  split at h
  · cases h
    exact ⟨rfl, rfl⟩
  · cases h

theorem isRegular_of_shift? {t later : Instant} {seconds : Int} (ht : t.IsRegular)
    (hseconds : IsOffset seconds) (h : t.shift? seconds = some later) : later.IsRegular := by
  have hday : secondsPerDay = 86400 := rfl
  obtain ⟨hminutes, hlimit⟩ := hseconds
  unfold Instant.shift? at h
  unfold Instant.IsRegular at *
  simp only at h
  split at h
  · obtain ⟨date, -, hof⟩ := Option.bind_eq_some_iff.mp h
    obtain ⟨hsecond, hnano⟩ := parts_of_of? hof
    omega
  · split at h
    · obtain ⟨date, -, hof⟩ := Option.bind_eq_some_iff.mp h
      obtain ⟨hsecond, hnano⟩ := parts_of_of? hof
      omega
    · obtain ⟨hsecond, hnano⟩ := parts_of_of? h
      omega

theorem readList_eq_some {t : Instant} (h : readList text = some t) :
    ∃ date text second nano rest stamp seconds,
      readTime text = some (second, nano, rest) ∧
      Instant.of? date second nano = some stamp ∧ IsOffset seconds ∧
      stamp.shift? seconds = some t := by
  simp only [readList, Option.bind_eq_bind, Option.bind_eq_some_iff, Prod.exists] at h
  obtain ⟨date, text, -, h⟩ := h
  split at h
  · split at h
    · simp only [Option.bind_some, Option.bind_eq_some_iff, Prod.exists] at h
      obtain ⟨second, nano, rest, htime, offset, _, hoffset, h⟩ := h
      split at h
      · cases h
      · obtain ⟨stamp, hstamp, hshift⟩ := Option.bind_eq_some_iff.mp h
        exact ⟨date, _, second, nano, rest, stamp, -offset, htime, hstamp,
          (readOffset_isOffset hoffset).neg, hshift⟩
    · cases h
  · cases h

theorem readList_isRegular {t : Instant} (h : readList text = some t) : t.IsRegular := by
  obtain ⟨date, text, second, nano, rest, stamp, seconds, htime, hstamp, hseconds, hshift⟩ :=
    readList_eq_some h
  refine isRegular_of_shift? ?_ hseconds hshift
  obtain ⟨hsecond, hnano⟩ := parts_of_of? hstamp
  rw [Instant.IsRegular, hsecond, hnano]
  exact readTime_isRegular htime

theorem read_isRegular {text : String} {t : Instant} (h : read text = some t) : t.IsRegular :=
  readList_isRegular h

end CacheUpkeep.Calendar.Timestamp
