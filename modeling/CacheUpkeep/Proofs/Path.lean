import CacheUpkeep.FileSystem.Resolve
import Mathlib.Data.List.Basic

/-!
# Joining paths

A relative path is joined to a path that is not empty by putting its segments
after those of the other, without the empty one that a slash at the end leaves.
-/

namespace CacheUpkeep.Path

open CacheUpkeep.FileSystem

def stem (p : Path) : List String :=
  if p.segments.getLast? = some "" then p.segments.dropLast else p.segments

variable {p q : Path} {name : String}

theorem stem_ne_nil (hp : p.isEmpty = false) : p.stem ≠ [] := by
  obtain ⟨segments⟩ := p
  unfold stem
  split
  · next hlast =>
      rintro hnil
      have hlen : segments.length = 1 := by
        have hpos : segments ≠ [] := by
          rintro rfl
          simp at hlast
        have := congrArg List.length hnil
        have := List.length_pos_iff.mpr hpos
        simp only [List.length_dropLast, List.length_nil] at *
        omega
      obtain ⟨s, rfl⟩ := List.length_eq_one_iff.mp hlen
      simp only [List.getLast?_singleton, Option.some.injEq] at hlast
      subst hlast
      simp [isEmpty] at hp
  · rintro rfl
    simp [isEmpty] at hp

theorem segments_eq (p : Path) : p.segments = p.stem ∨ p.segments = p.stem ++ [""] := by
  unfold stem
  split
  · next hlast =>
      right
      exact (List.dropLast_append_getLast? _ hlast).symm
  · exact .inl rfl

theorem join_eq (hp : p.isEmpty = false) (hq : q.isAbsolute = false) :
    p.join q = ⟨p.stem ++ q.segments⟩ := by
  unfold join stem
  simp only [hp, hq, Bool.or_self, Bool.false_eq_true, if_false]
  split <;> rfl

@[simp] theorem isAbsolute_single (name : String) : (⟨[name]⟩ : Path).isAbsolute = false := by
  simp [isAbsolute]

theorem child_eq (hp : p.isEmpty = false) : p.child name = ⟨p.stem ++ [name]⟩ :=
  join_eq hp (isAbsolute_single name)

theorem child_injective (hp : p.isEmpty = false) : Function.Injective p.child := by
  intro name other h
  rw [child_eq hp, child_eq hp] at h
  simpa using h

theorem steps_eq_stem (p : Path) : p.steps = p.stem.filterMap stepOf := by
  unfold steps
  cases p.segments_eq with
  | inl h => rw [h]
  | inr h =>
      rw [h, List.filterMap_append]
      simp [stepOf]

theorem steps_join (hp : p.isEmpty = false) (hq : q.isAbsolute = false) :
    (p.join q).steps = p.steps ++ q.steps := by
  rw [join_eq hp hq, steps_eq_stem p]
  simp [steps, List.filterMap_append]

theorem hasNul_join (hp : p.isEmpty = false) (hq : q.isAbsolute = false) :
    (p.join q).hasNul = (p.hasNul || q.hasNul) := by
  rw [join_eq hp hq]
  unfold hasNul
  cases p.segments_eq with
  | inl h => rw [h, List.any_append]
  | inr h =>
      rw [h, List.any_append, List.any_append]
      simp

theorem isEmpty_join (hp : p.isEmpty = false) (hq : q.isAbsolute = false)
    (hne : q.segments ≠ []) : (p.join q).isEmpty = false := by
  rw [join_eq hp hq]
  obtain ⟨a, as, hstem⟩ := List.exists_cons_of_ne_nil (stem_ne_nil hp)
  obtain ⟨b, bs, hsegments⟩ := List.exists_cons_of_ne_nil hne
  simp [isEmpty, hstem, hsegments]

theorem isAbsolute_join (hp : p.isEmpty = false) (hq : q.isAbsolute = false)
    (hne : q.segments ≠ []) : (p.join q).isAbsolute = p.isAbsolute := by
  rw [join_eq hp hq]
  obtain ⟨a, as, hstem⟩ := List.exists_cons_of_ne_nil (stem_ne_nil hp)
  obtain ⟨b, bs, hsegments⟩ := List.exists_cons_of_ne_nil hne
  have hjoin : (⟨p.stem ++ q.segments⟩ : Path).isAbsolute = decide (a = "") := by
    rw [hstem, hsegments]
    by_cases ha : a = ""
    · subst ha
      cases as <;> rfl
    · unfold isAbsolute
      split
      · next heq =>
          cases as <;> simp_all
      · simp [ha]
  rw [hjoin]
  cases p.segments_eq with
  | inl h =>
      rw [hstem] at h
      cases as with
      | nil =>
          have ha : a ≠ "" := by
            rintro rfl
            simp [isEmpty, h] at hp
          simp [isAbsolute, h, ha]
      | cons c cs =>
          by_cases ha : a = ""
          · simp [isAbsolute, h, ha]
          · simp [isAbsolute, h, ha]
  | inr h =>
      rw [hstem] at h
      by_cases ha : a = ""
      · cases as <;> simp [isAbsolute, h, ha]
      · cases as <;> simp [isAbsolute, h, ha]

theorem text_join (hp : p.isEmpty = false) (hq : q.isAbsolute = false)
    (hne : q.segments ≠ []) :
    (p.join q).text = "/".intercalate p.stem ++ "/" ++ q.text := by
  rw [join_eq hp hq]
  exact String.intercalate_append_of_ne_nil (stem_ne_nil hp) hne

theorem size_text_le_join (hp : p.isEmpty = false) (hq : q.isAbsolute = false)
    (hne : q.segments ≠ []) : p.text.utf8ByteSize ≤ (p.join q).text.utf8ByteSize := by
  rw [text_join hp hq hne]
  cases p.segments_eq with
  | inl h =>
      have htext : p.text = "/".intercalate p.stem := by rw [text, h]
      rw [htext]
      simp only [String.utf8ByteSize_append]
      omega
  | inr h =>
      have htext : p.text = "/".intercalate p.stem ++ "/" ++ "" := by
        rw [text, h, String.intercalate_append_of_ne_nil (stem_ne_nil hp) (by simp)]
        simp
      rw [htext]
      simp only [String.utf8ByteSize_append]
      have hempty : ("" : String).utf8ByteSize = 0 := rfl
      omega

theorem text_cons_cons (first second : String) (rest : List String) :
    (⟨first :: second :: rest⟩ : Path).text = first ++ "/" ++ (⟨second :: rest⟩ : Path).text := by
  simp [text]

theorem size_text_here (first : String) (rest : List String) :
    (⟨first :: "." :: rest⟩ : Path).text.utf8ByteSize =
      (⟨first :: rest⟩ : Path).text.utf8ByteSize + 2 := by
  have hslash : ("/" : String).utf8ByteSize = 1 := rfl
  have hhere : ("." : String).utf8ByteSize = 1 := rfl
  cases rest with
  | nil => simp [text, hslash, hhere]
  | cons second rest =>
      simp only [text_cons_cons, String.utf8ByteSize_append, hslash, hhere]
      omega

/-! ## Children -/

theorem stepOf_name (hname : IsName name) : stepOf name = some (.down name) := by
  obtain ⟨h₁, h₂, h₃, -⟩ := hname
  simp [stepOf, h₁, h₂, h₃]

theorem steps_child (hp : p.isEmpty = false) (hname : IsName name) :
    (p.child name).steps = p.steps ++ [.down name] := by
  rw [child, steps_join hp (isAbsolute_single name)]
  simp [steps, stepOf_name hname]

theorem hasNul_single (hname : IsName name) : (⟨[name]⟩ : Path).hasNul = false := by
  obtain ⟨-, -, -, hchars⟩ := hname
  simp only [hasNul, List.any_cons, List.any_nil, Bool.or_false, List.any_eq_false,
    decide_eq_true_eq]
  exact fun c hc => (hchars c hc).2

theorem endsWithSlash_child (hp : p.isEmpty = false) (hname : IsName name) :
    (p.child name).endsWithSlash = false := by
  rw [child_eq hp]
  simp [endsWithSlash, hname.1]

theorem isTooLong_child (hp : p.isEmpty = false) (hlong : isTooLong p = true) :
    isTooLong (p.child name) = true := by
  have hsize := size_text_le_join hp (isAbsolute_single name) (by simp)
  simp only [isTooLong, decide_eq_true_eq] at hlong ⊢
  exact Nat.le_trans hlong hsize

end CacheUpkeep.Path
