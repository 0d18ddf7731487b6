import CacheUpkeep.Doctor.Checks
import CacheUpkeep.Proofs.Text.Decimal
import CacheUpkeep.Proofs.Text.Words

/-!
# Versions with a vendor's suffix

A version that fits the machine's numbers is read back from the word that begins with it,
whatever else that word holds.  But a version is read off the last word of an output: what
stands behind a blank of the suffix is judged in place of the version before it.
-/

namespace CacheUpkeep.Doctor

open CacheUpkeep.Text CacheUpkeep.Number

/-! ## A word that begins with a version -/

def EndsNumber (text : List Char) : Prop :=
  ∀ c ∈ text.head?, isDigit c = false

theorem endsNumber_cons {c : Char} (hc : isDigit c = false) (rest : List Char) :
    EndsNumber (c :: rest) := by
  intro d hd
  rw [← Option.mem_some.mp hd, hc]

instance : (text : List Char) → Decidable (EndsNumber text)
  | [] => .isTrue nofun
  | c :: rest =>
      decidable_of_iff (isDigit c = false) ⟨fun h => endsNumber_cons h rest, fun h => h c rfl⟩

theorem EndsNumber.takeWhile {text : List Char} (h : EndsNumber text) (p : Char → Bool) :
    EndsNumber (text.takeWhile p) := by
  cases text with
  | nil => exact h
  | cons c rest =>
      rw [List.takeWhile_cons]
      split
      · exact endsNumber_cons (h c rfl) _
      · exact nofun

theorem takeWhile_number {number rest : List Char} (h : IsNumeral number)
    (hrest : EndsNumber rest) : (number ++ rest).takeWhile isDigit = number := by
  cases rest with
  | nil => rw [List.append_nil, h.takeWhile]
  | cons c rest => exact takeWhile_isDigit h (hrest c rfl)

theorem dropWhile_number {number rest : List Char} (h : IsNumeral number)
    (hrest : EndsNumber rest) : (number ++ rest).dropWhile isDigit = rest := by
  have hsplit := List.takeWhile_append_dropWhile (p := isDigit) (l := number ++ rest)
  rw [takeWhile_number h hrest] at hsplit
  exact List.append_cancel_left hsplit

namespace Version

structure Fits (v : Version) : Prop where
  major : v.major < limit64
  minor : v.minor < limit64
  patch : v.patch < limit64

theorem component_digits {n : Nat} (h : n < limit64) : component (digits n) = n := by
  rw [component, digitsValue_digits]
  exact if_pos h

theorem toList_text (v : Version) :
    v.text.toList = digits v.major ++ '.' :: (digits v.minor ++ '.' :: digits v.patch) := by
  simp [text, numeral]

theorem text_ne_nil (v : Version) : v.text.toList ≠ [] := by
  rw [toList_text]
  exact List.append_ne_nil_of_left_ne_nil (isNumeral_digits v.major).1 _

theorem text_solid (v : Version) : ∀ c ∈ v.text.toList, isBlank c = false := by
  intro c hc
  have hdigits {n : Nat} (h : c ∈ digits n) : isBlank c = false :=
    isBlank_of_isDigit ((isNumeral_digits n).2 c h)
  have hdot (h : c = '.') : isBlank c = false := by
    subst h
    decide
  rw [toList_text] at hc
  simp only [List.mem_append, List.mem_cons] at hc
  rcases hc with hc | hc | hc | hc | hc
  · exact hdigits hc
  · exact hdot hc
  · exact hdigits hc
  · exact hdot hc
  · exact hdigits hc

theorem ofWord?_text {v : Version} (hv : v.Fits) {rest : List Char} (hrest : EndsNumber rest) :
    ofWord? (v.text.toList ++ rest) = some v := by
  have hdot (rest : List Char) : EndsNumber ('.' :: rest) := endsNumber_cons (by decide) rest
  have hmajor := isNumeral_digits v.major
  have hminor := isNumeral_digits v.minor
  have hpatch := isNumeral_digits v.patch
  have hword : v.text.toList ++ rest =
      digits v.major ++ '.' :: (digits v.minor ++ '.' :: (digits v.patch ++ rest)) := by
    rw [toList_text]
    simp only [List.append_assoc, List.cons_append]
  rw [hword, ofWord?]
  simp only [takeWhile_number hmajor (hdot _), dropWhile_number hmajor (hdot _),
    takeWhile_number hminor (hdot _), dropWhile_number hminor (hdot _),
    takeWhile_number hpatch hrest, List.isEmpty_eq_false_iff.mpr hmajor.1,
    List.isEmpty_eq_false_iff.mpr hminor.1, component_digits hv.major,
    component_digits hv.minor, component_digits hv.patch, Bool.false_eq_true, if_false]

theorem ofWord?_eq_none {word : List Char} (h : EndsNumber word) : ofWord? word = none := by
  have hnone : word.takeWhile isDigit = [] := by
    cases word with
    | nil => rfl
    | cons c rest => rw [List.takeWhile_cons_of_neg (by simp [h c rfl])]
  rw [ofWord?, hnone]
  rfl

end Version

/-! ## The output of a version query -/

/-- What `git --version` prints: its version and what its vendor adds. -/
def gitBanner (v : Version) (suffix : String) : String :=
  "git version " ++ v.text ++ suffix

/-- The issues with a version, or with an output that tells none. -/
def verdict (output : String) : Option Version → List Issue
  | none => [.gitVersionUnknown (trim output)]
  | some v => if v.before leastGitVersion then [.gitTooOld] else []

theorem gitVersionIssues_eq_verdict (o : CommandOutput) :
    gitVersionIssues (.ok o) = verdict o.stdout (Version.read o.stdout) := by
  cases h : Version.read o.stdout with
  | none => simp only [gitVersionIssues, h, verdict]
  | some v => simp only [gitVersionIssues, h, verdict]

theorem Version.read_eq (output : String) :
    Version.read output = (lastWord? output.toList).bind ofWord? := by
  unfold Version.read lastWord?
  cases (wordsFrom [] output.toList).getLast? <;> rfl

section

variable {v : Version} {suffix : String}

theorem lastWord?_gitBanner (v : Version) (suffix : String) :
    lastWord? (gitBanner v suffix).toList =
      (laterWord? suffix.toList).or
        (some (v.text.toList ++ suffix.toList.takeWhile fun c => !isBlank c)) := by
  have hbanner : (gitBanner v suffix).toList =
      "git version".toList ++ ' ' :: (v.text.toList ++ suffix.toList) := by
    simp [gitBanner]
  rw [hbanner, lastWord?_break (by decide),
    lastWord?_append v.text_ne_nil v.text_solid, Option.or_assoc]
  rfl

theorem read_gitBanner (hv : v.Fits) (hsuffix : EndsNumber suffix.toList) :
    Version.read (gitBanner v suffix) =
      match laterWord? suffix.toList with
      | none => some v
      | some word => Version.ofWord? word := by
  rw [Version.read_eq, lastWord?_gitBanner]
  cases laterWord? suffix.toList with
  | none => exact Version.ofWord?_text hv (hsuffix.takeWhile _)
  | some word => rfl

/-- A suffix is dropped just when the last word behind its first blank, if there is one,
tells the same version.  The verdict depends on that word alone then, and on the version
before the suffix if nothing but blanks stands there. -/
theorem gitSuffix_isDropped_iff (hv : v.Fits) (hsuffix : EndsNumber suffix.toList) :
    (Version.read (gitBanner v suffix) = some v ↔
      ∀ word ∈ laterWord? suffix.toList, Version.ofWord? word = some v) ∧
    ∀ o : CommandOutput, o.stdout = gitBanner v suffix →
      ((∀ c ∈ suffix.toList.dropWhile fun c => !isBlank c, isBlank c = true) →
        gitVersionIssues (.ok o) =
          if v.before leastGitVersion then [.gitTooOld] else []) ∧
      ∀ word ∈ laterWord? suffix.toList,
        gitVersionIssues (.ok o) = verdict o.stdout (Version.ofWord? word) ∧
        (EndsNumber word → gitVersionIssues (.ok o) = [.gitVersionUnknown (trim o.stdout)]) := by
  have hread := read_gitBanner hv hsuffix
  refine ⟨?_, fun o ho => ⟨fun hblank => ?_, fun word hword => ?_⟩⟩
  · rw [hread]
    cases laterWord? suffix.toList with
    | none => exact ⟨fun _ _ => nofun, fun _ => rfl⟩
    | some word =>
        exact ⟨fun h later hlater => Option.mem_some.mp hlater ▸ h, fun h => h word rfl⟩
  · rw [laterWord?_eq_none_iff.mpr hblank] at hread
    rw [gitVersionIssues_eq_verdict, ho, hread]
    rfl
  · rw [Option.mem_def.mp hword] at hread
    have hverdict : gitVersionIssues (.ok o) = verdict o.stdout (Version.ofWord? word) := by
      rw [gitVersionIssues_eq_verdict, ho, hread]
    exact ⟨hverdict, fun hend => hverdict.trans (by rw [Version.ofWord?_eq_none hend]; rfl)⟩

end

theorem gitSuffix_isDropped_iff_sample :
    Version.read (gitBanner ⟨2, 39, 5⟩ ".windows.1") = some ⟨2, 39, 5⟩ ∧
    Version.read (gitBanner ⟨2, 39, 5⟩ " (Apple Git-154)") ≠ some ⟨2, 39, 5⟩ ∧
    gitVersionIssues (.ok (.success (gitBanner ⟨2, 39, 5⟩ " (Apple Git-154)"))) =
      [.gitVersionUnknown (trim (gitBanner ⟨2, 39, 5⟩ " (Apple Git-154)"))] := by
  have hfits : Version.Fits ⟨2, 39, 5⟩ := ⟨by decide, by decide, by decide⟩
  have hword : laterWord? " (Apple Git-154)".toList = some "Git-154)".toList := by decide
  have hdot : EndsNumber ".windows.1".toList := by decide
  have hblank : EndsNumber " (Apple Git-154)".toList := by decide
  have hwindows := gitSuffix_isDropped_iff hfits hdot
  have happle := gitSuffix_isDropped_iff hfits hblank
  refine ⟨hwindows.1.mpr (by decide), fun hread => ?_, ?_⟩
  · exact absurd (happle.1.mp hread _ hword) (by decide)
  · exact ((happle.2 _ rfl).2 _ hword).2 (by decide)

end CacheUpkeep.Doctor
