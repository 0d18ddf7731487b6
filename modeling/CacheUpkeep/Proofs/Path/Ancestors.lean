import CacheUpkeep.Proofs.Path
import CacheUpkeep.Proofs.Text.Lines
import Mathlib.Data.List.TakeWhile

/-!
# Paths that lead down

A relative path without steps up leads down from whatever it is joined to.  The
parents of the joined path lead down from there as well, until they are the
other path again, without the empty segments and dots at its end.
-/

namespace CacheUpkeep.Path

open CacheUpkeep.FileSystem CacheUpkeep.Text

variable {p q : Path} {name s : String} {front blanks : List String}

def Step.name? : Step → Option String
  | .down name => some name
  | .here | .up => none

def names (p : Path) : Location :=
  p.steps.filterMap Step.name?

/-- A relative path of a text, without steps up. -/
structure LeadsDown (p : Path) : Prop where
  isAbsolute_eq_false : p.isAbsolute = false
  up_notMem : .up ∉ p.steps
  segments_ne_nil : p.segments ≠ []
  slash_notMem : ∀ s ∈ p.segments, '/' ∉ s.toList

/-! ## Paths of texts -/

theorem leadsDown_ofString {text : String} (habs : (ofString text).isAbsolute = false)
    (hup : .up ∉ (ofString text).steps) : (ofString text).LeadsDown where
  isAbsolute_eq_false := habs
  up_notMem := hup
  segments_ne_nil := by simp [ofString, splitAtEach_ne_nil]
  slash_notMem := by
    intro s hs
    obtain ⟨piece, hpiece, rfl⟩ := List.mem_map.mp hs
    simpa using mark_notMem_of_mem_splitAtEach hpiece

theorem stepOf_eq_down {s : String} (h : stepOf s = some (.down name)) :
    s = name ∧ name ≠ "" ∧ name ≠ "." ∧ name ≠ ".." := by
  unfold stepOf at h
  split at h
  · cases h
  · next h₁ =>
      split at h
      · cases h
      · next h₂ =>
          split at h
          · cases h
          · next h₃ =>
              cases h
              exact ⟨rfl, h₁, h₂, h₃⟩

theorem mem_segments_of_mem_names (hname : name ∈ p.names) :
    name ∈ p.segments ∧ name ≠ "" ∧ name ≠ "." ∧ name ≠ ".." := by
  simp only [names, steps, List.mem_filterMap] at hname
  obtain ⟨step, ⟨s, hs, hstep⟩, hdown⟩ := hname
  cases step with
  | here => cases hdown
  | up => cases hdown
  | down found =>
      cases hdown
      obtain ⟨rfl, hne⟩ := stepOf_eq_down hstep
      exact ⟨hs, hne⟩

theorem LeadsDown.isName (h : p.LeadsDown) (hnul : p.hasNul = false) (hname : name ∈ p.names) :
    IsName name := by
  obtain ⟨hs, h₁, h₂, h₃⟩ := mem_segments_of_mem_names hname
  refine ⟨h₁, h₂, h₃, fun c hc => ⟨?_, ?_⟩⟩
  · rintro rfl
    exact h.slash_notMem _ hs hc
  · have hchars : (name.toList.any fun c => c.toNat = 0) = false :=
      Bool.eq_false_iff.mpr (List.any_eq_false.mp hnul name hs)
    simpa using List.any_eq_false.mp hchars c hc

theorem names_sublist (p : Path) : p.names.Sublist p.segments := by
  obtain ⟨segments⟩ := p
  simp only [names, steps]
  induction segments with
  | nil => exact List.Sublist.refl _
  | cons s rest ih =>
      cases hstep : stepOf s with
      | none =>
          rw [List.filterMap_cons_none hstep]
          exact ih.cons s
      | some step =>
          rw [List.filterMap_cons_some hstep]
          cases step with
          | here => exact ih.cons s
          | up => exact ih.cons s
          | down name =>
              obtain ⟨rfl, -⟩ := stepOf_eq_down hstep
              exact ih.cons_cons s

/-! ## Blank segments -/

def IsBlank (s : String) : Prop :=
  s = "" ∨ s = "."

theorem step_of_isBlank (hs : IsBlank s) {step : Step} (hstep : stepOf s = some step) :
    step = .here := by
  rcases hs with rfl | rfl
  · cases hstep
  · cases hstep
    rfl

theorem blank_or_last (segments : List String) :
    (∀ s ∈ segments, IsBlank s) ∨
      ∃ front name blanks, segments = front ++ name :: blanks ∧ ¬ IsBlank name ∧
        ∀ s ∈ blanks, IsBlank s := by
  induction segments with
  | nil => exact .inl (by simp)
  | cons s rest ih =>
      rcases ih with hblank | ⟨front, name, blanks, rfl, hname, hblanks⟩
      · by_cases hs : IsBlank s
        · exact .inl (by simpa using ⟨hs, hblank⟩)
        · exact .inr ⟨[], s, rest, rfl, hs, hblank⟩
      · exact .inr ⟨s :: front, name, blanks, rfl, hname, hblanks⟩

theorem trimmed_append_blanks (hfront : front ≠ []) (hblanks : ∀ s ∈ blanks, IsBlank s) :
    trimmed (front ++ blanks) = trimmed front := by
  obtain ⟨first, rest, rfl⟩ := List.exists_cons_of_ne_nil hfront
  simp only [List.cons_append, trimmed, List.reverse_append]
  rw [List.dropWhile_append_of_pos]
  intro s hs
  simpa [IsBlank] using hblanks s (List.mem_reverse.mp hs)

theorem trimmed_append_single (hfront : front ≠ []) (hname : ¬ IsBlank name) :
    trimmed (front ++ [name]) = front ++ [name] := by
  obtain ⟨first, rest, rfl⟩ := List.exists_cons_of_ne_nil hfront
  have hkeep : (decide (name = "") || decide (name = ".")) = false := by
    simpa [IsBlank] using hname
  simp [trimmed, hkeep]

theorem eq_trimmed_append (segments : List String) :
    ∃ blanks, segments = trimmed segments ++ blanks ∧ ∀ s ∈ blanks, IsBlank s := by
  cases segments with
  | nil => exact ⟨[], rfl, by simp⟩
  | cons first rest =>
      refine ⟨(rest.reverse.takeWhile fun s => s = "" || s = ".").reverse, ?_, ?_⟩
      · simp only [trimmed, List.cons_append, ← List.reverse_append,
          List.takeWhile_append_dropWhile, List.reverse_reverse]
      · intro s hs
        have := List.mem_takeWhile_imp (List.mem_reverse.mp hs)
        simpa [IsBlank] using this

/-! ## Joined paths -/

theorem stem_join (hp : p.isEmpty = false) (hq : q.LeadsDown) :
    (p.join q).stem = p.stem ++ q.stem := by
  have hlast : (p.stem ++ q.segments).getLast? = q.segments.getLast? := by
    rw [List.getLast?_append_of_ne_nil _ hq.segments_ne_nil]
  rw [join_eq hp hq.isAbsolute_eq_false, stem, stem.eq_def q, hlast]
  split
  · exact List.dropLast_append_of_ne_nil hq.segments_ne_nil
  · rfl

theorem LeadsDown.child_eq (hq : q.LeadsDown) : q.child name = ⟨q.stem ++ [name]⟩ := by
  cases hempty : q.isEmpty with
  | false => exact Path.child_eq hempty
  | true =>
      have hsegments : q.segments = [""] := by
        simpa [isEmpty, hq.segments_ne_nil] using hempty
      simp [Path.child, join, hempty, stem, hsegments]

theorem LeadsDown.isAbsolute_child (hq : q.LeadsDown) : (q.child name).isAbsolute = false := by
  cases hempty : q.isEmpty with
  | false =>
      rw [← hq.isAbsolute_eq_false]
      exact isAbsolute_join hempty (isAbsolute_single name) (by simp)
  | true => simp [Path.child, join, hempty]

theorem child_join (hp : p.isEmpty = false) (hq : q.LeadsDown) :
    (p.join q).child name = p.join (q.child name) := by
  have hempty := isEmpty_join hp hq.isAbsolute_eq_false hq.segments_ne_nil
  rw [Path.child_eq hempty, stem_join hp hq, join_eq hp hq.isAbsolute_child, hq.child_eq,
    List.append_assoc]

theorem LeadsDown.steps_child (hq : q.LeadsDown) (hname : IsName name) :
    (q.child name).steps = q.steps ++ [.down name] := by
  rw [hq.child_eq, steps_eq_stem q]
  simp [steps, List.filterMap_append, stepOf_name hname]

theorem LeadsDown.names_child (hq : q.LeadsDown) (hname : IsName name) :
    (q.child name).names = q.names ++ [name] := by
  rw [names, hq.steps_child hname, List.filterMap_append]
  rfl

theorem LeadsDown.of_append {rest : List String}
    (hq : (⟨front ++ rest⟩ : Path).LeadsDown) (hne : front ≠ []) : (⟨front⟩ : Path).LeadsDown where
  isAbsolute_eq_false := by
    have habs := hq.isAbsolute_eq_false
    obtain ⟨first, others, rfl⟩ := List.exists_cons_of_ne_nil hne
    by_cases hfirst : first = ""
    · subst hfirst
      cases others with
      | nil => rfl
      | cons s others => simp [isAbsolute] at habs
    · simp [isAbsolute, hfirst]
  up_notMem := by
    have hup := hq.up_notMem
    simp only [steps, List.filterMap_append, List.mem_append, not_or] at hup
    exact hup.1
  segments_ne_nil := hne
  slash_notMem s hs := hq.slash_notMem s (List.mem_append_left _ hs)

/-! ## Lengths -/

theorem size_intercalate_le_of_sublist {xs ys : List String} (h : xs.Sublist ys) :
    ("/".intercalate xs).utf8ByteSize ≤ ("/".intercalate ys).utf8ByteSize := by
  induction h with
  | slnil => exact Nat.le_refl _
  | @cons xs ys y h ih =>
      by_cases hys : ys = []
      · subst hys
        rw [List.sublist_nil.mp h]
        exact Nat.zero_le _
      · rw [String.intercalate_cons_of_ne_nil hys]
        simp only [String.utf8ByteSize_append]
        omega
  | @cons_cons xs ys x h ih =>
      by_cases hys : ys = []
      · subst hys
        rw [List.sublist_nil.mp h]
      · rw [String.intercalate_cons_of_ne_nil hys]
        by_cases hxs : xs = []
        · subst hxs
          rw [String.intercalate_singleton]
          simp only [String.utf8ByteSize_append]
          omega
        · rw [String.intercalate_cons_of_ne_nil hxs]
          simp only [String.utf8ByteSize_append]
          omega

/-! ## Parents -/

def ofFront (front : List String) : Path :=
  if trimmed front = [""] then root else ⟨trimmed front⟩

theorem parent?_eq (hsegments : p.segments = front ++ name :: blanks) (hfront : front ≠ [])
    (hname : ¬ IsBlank name) (hblanks : ∀ s ∈ blanks, IsBlank s) :
    p.parent? = some (ofFront front) := by
  have htrimmed : trimmed p.segments = front ++ [name] := by
    rw [hsegments, List.append_cons, trimmed_append_blanks (by simp) hblanks,
      trimmed_append_single hfront hname]
  unfold parent?
  rw [htrimmed]
  split
  · next hnil => simp at hnil
  · next first hsingle =>
      have hlength := congrArg List.length hsingle
      have hpos := List.length_pos_iff.mpr hfront
      simp only [List.length_append, List.length_singleton] at hlength
      omega
  · rw [List.dropLast_concat]
    split
    · next h => rw [ofFront, h, if_pos rfl]
    · next h => rw [ofFront, if_neg h]

theorem ofFront_append_blanks (hfront : front ≠ []) (hblanks : ∀ s ∈ blanks, IsBlank s) :
    ofFront (front ++ blanks) = ofFront front := by
  rw [ofFront, ofFront, trimmed_append_blanks hfront hblanks]

theorem ofFront_append_single (hfront : front ≠ []) (hname : ¬ IsBlank name) :
    ofFront (front ++ [name]) = ⟨front ++ [name]⟩ := by
  rw [ofFront, trimmed_append_single hfront hname, if_neg]
  intro hsingle
  have hlength := congrArg List.length hsingle
  have hpos := List.length_pos_iff.mpr hfront
  simp only [List.length_append, List.length_singleton] at hlength
  omega

theorem steps_ofFront (front : List String) :
    ∃ heres, front.filterMap stepOf = (ofFront front).steps ++ heres ∧
      ∀ step ∈ heres, step = .here := by
  obtain ⟨blanks, hfront, hblanks⟩ := eq_trimmed_append front
  refine ⟨blanks.filterMap stepOf, ?_, ?_⟩
  · have hsteps : (ofFront front).steps = (trimmed front).filterMap stepOf := by
      unfold ofFront
      split
      · next h =>
          rw [h]
          rfl
      · rfl
    rw [hsteps, ← List.filterMap_append, ← hfront]
  · intro step hstep
    obtain ⟨s, hs, hstep⟩ := List.mem_filterMap.mp hstep
    exact step_of_isBlank (hblanks s hs) hstep

theorem isAbsolute_ofFront {rest : List String} (hfront : front ≠ []) (hrest : rest ≠ []) :
    (ofFront front).isAbsolute = (⟨front ++ rest⟩ : Path).isAbsolute := by
  obtain ⟨first, others, rfl⟩ := List.exists_cons_of_ne_nil hfront
  obtain ⟨last, lasts, rfl⟩ := List.exists_cons_of_ne_nil hrest
  obtain ⟨kept, hkept⟩ : ∃ kept, trimmed (first :: others) = first :: kept := ⟨_, rfl⟩
  rw [ofFront, hkept]
  by_cases hfirst : first = ""
  · subst hfirst
    cases kept <;> cases others <;> rfl
  · simp [isAbsolute, hfirst]

theorem isEmpty_ofFront (hfront : front ≠ []) : (ofFront front).isEmpty = false := by
  obtain ⟨first, others, rfl⟩ := List.exists_cons_of_ne_nil hfront
  unfold ofFront
  split
  · rfl
  · next hroot =>
      have hne : trimmed (first :: others) ≠ [] := List.cons_ne_nil _ _
      simp [isEmpty, hroot, hne]

theorem hasNul_ofFront {rest : List String} (h : (⟨front ++ rest⟩ : Path).hasNul = false) :
    (ofFront front).hasNul = false := by
  obtain ⟨blanks, hfront, -⟩ := eq_trimmed_append front
  unfold ofFront
  split
  · rfl
  · rw [hfront] at h
    simp only [hasNul, List.any_append, Bool.or_eq_false_iff] at h
    exact h.1.1

theorem isTooLong_ofFront {rest : List String} (h : isTooLong ⟨front ++ rest⟩ = false) :
    isTooLong (ofFront front) = false := by
  obtain ⟨blanks, hfront, -⟩ := eq_trimmed_append front
  have hkept : trimmed front <+: front := ⟨blanks, hfront.symm⟩
  unfold ofFront
  split
  · decide
  · rw [Bool.eq_false_iff, isTooLong, Ne, decide_eq_true_eq, Nat.not_le] at h ⊢
    exact Nat.lt_of_le_of_lt (size_intercalate_le_of_sublist
      (hkept.sublist.trans (List.sublist_append_left front rest))) h

theorem parent?_cases (p : Path) :
    p.parent? = none ∨ p.parent? = some empty ∨
      ∃ front name blanks, p.segments = front ++ name :: blanks ∧ front ≠ [] ∧
        ¬ IsBlank name ∧ (∀ s ∈ blanks, IsBlank s) ∧ p.parent? = some (ofFront front) := by
  obtain ⟨segments⟩ := p
  cases segments with
  | nil => exact .inl rfl
  | cons first rest =>
      rcases blank_or_last rest with hblank | ⟨front, name, blanks, rfl, hname, hblanks⟩
      · have htrimmed : trimmed (first :: rest) = [first] := by
          rw [← List.singleton_append, trimmed_append_blanks (by simp) hblank]
          rfl
        simp only [parent?, htrimmed]
        split
        · exact .inl rfl
        · exact .inr (.inl rfl)
      · exact .inr (.inr ⟨first :: front, name, blanks, rfl, by simp, hname, hblanks,
          parent?_eq rfl (by simp) hname hblanks⟩)

theorem stepOf_of_not_isBlank (hname : ¬ IsBlank name) : ∃ step, stepOf name = some step := by
  unfold stepOf
  rw [if_neg fun h => hname (.inl h)]
  split
  · exact ⟨_, rfl⟩
  · split <;> exact ⟨_, rfl⟩

theorem steps_of_segments {before : List Step} {last : String} (hname : ¬ IsBlank name)
    (hblanks : ∀ s ∈ blanks, IsBlank s)
    (hsteps : (⟨front ++ name :: blanks⟩ : Path).steps = before ++ [.down last]) :
    front.filterMap stepOf = before := by
  obtain ⟨step, hstep⟩ := stepOf_of_not_isBlank hname
  have hheres : ∀ step ∈ blanks.filterMap stepOf, step = .here := by
    intro step hmem
    obtain ⟨s, hs, hs'⟩ := List.mem_filterMap.mp hmem
    exact step_of_isBlank (hblanks s hs) hs'
  simp only [steps, List.filterMap_append, List.filterMap_cons_some hstep] at hsteps
  rcases List.eq_nil_or_concat' (blanks.filterMap stepOf) with hnil | ⟨heres, step, hconcat⟩
  · rw [hnil] at hsteps
    exact (List.append_inj' hsteps rfl).1
  · rw [hconcat, ← List.cons_append, ← List.append_assoc] at hsteps
    obtain ⟨-, hlast⟩ := List.append_inj' hsteps rfl
    rw [hheres step (by simp [hconcat])] at hlast
    cases hlast

theorem parent?_join (hp : p.isEmpty = false) (hq : q.LeadsDown) :
    (∀ step ∈ q.steps, step = .here) ∨
      (p.join q).parent? = some (ofFront p.stem) ∨
        ∃ above, above.LeadsDown ∧ (p.join q).parent? = some (p.join above) := by
  obtain ⟨segments⟩ := q
  rcases blank_or_last segments with hblank | ⟨front, name, blanks, rfl, hname, hblanks⟩
  · left
    intro step hstep
    obtain ⟨s, hs, hstep⟩ := List.mem_filterMap.mp hstep
    exact step_of_isBlank (hblank s hs) hstep
  · right
    have hstem := stem_ne_nil hp
    have hsegments : (p.join ⟨front ++ name :: blanks⟩).segments =
        (p.stem ++ front) ++ name :: blanks := by
      rw [join_eq hp hq.isAbsolute_eq_false, List.append_assoc]
    rw [parent?_eq hsegments (by simp [hstem]) hname hblanks]
    rcases blank_or_last front with hblank | ⟨front', name', blanks', rfl, hname', hblanks'⟩
    · left
      rw [ofFront_append_blanks hstem hblank]
    · right
      have habove : (⟨front' ++ [name']⟩ : Path).LeadsDown := by
        have h : (⟨(front' ++ [name']) ++ (blanks' ++ name :: blanks)⟩ : Path).LeadsDown := by
          simpa using hq
        exact h.of_append (by simp)
      have happend : p.stem ++ (front' ++ name' :: blanks') =
          (p.stem ++ front' ++ [name']) ++ blanks' := by simp
      refine ⟨_, habove, ?_⟩
      rw [happend, ofFront_append_blanks (by simp) hblanks',
        ofFront_append_single (by simp [hstem]) hname',
        join_eq hp habove.isAbsolute_eq_false, List.append_assoc]

theorem steps_ofFront_stem (p : Path) :
    ∃ heres, p.steps = (ofFront p.stem).steps ++ heres ∧ ∀ step ∈ heres, step = .here := by
  rw [steps_eq_stem]
  exact steps_ofFront p.stem

theorem isAbsolute_ofFront_stem (hp : p.isEmpty = false) :
    (ofFront p.stem).isAbsolute = p.isAbsolute := by
  rw [← isAbsolute_join hp (isAbsolute_single "x") (by simp), join_eq hp (isAbsolute_single "x")]
  exact isAbsolute_ofFront (stem_ne_nil hp) (by simp)

end CacheUpkeep.Path
