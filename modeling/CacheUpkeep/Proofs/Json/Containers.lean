import CacheUpkeep.Proofs.Json.Readable
import CacheUpkeep.Proofs.Json.Strings

/-!
# Reading arrays and objects

A text of items or members is read one after the other, each with the step lemma of its
kind; nested arrays are read to any depth.
-/

namespace CacheUpkeep.Json.Tree

variable {fuel : Nat} {text tail more rest : List Char} {tree : Tree} {trees : List Tree}

theorem readItems_last (hvalue : readValue fuel text = some (tree, tail))
    (htail : skipSpace tail = ']' :: rest) : readItems (fuel + 1) text = some ([tree], rest) := by
  simp only [readItems, hvalue, htail, Option.bind_eq_bind, Option.bind_some]
  rfl

theorem readItems_next (hvalue : readValue fuel text = some (tree, tail))
    (htail : skipSpace tail = ',' :: more)
    (hmore : readItems fuel (skipSpace more) = some (trees, rest)) :
    readItems (fuel + 1) text = some (tree :: trees, rest) := by
  simp only [readItems, hvalue, htail, hmore, Option.bind_eq_bind, Option.bind_some]
  rfl

theorem readValue_array {c : Char} {after : List Char} (hskip : skipSpace text = c :: after)
    (hc : c ≠ ']') (hread : readItems fuel (c :: after) = some (trees, rest)) :
    readValue (fuel + 1) ('[' :: text) = some (.array trees, rest) := by
  simp only [readValue, hskip]
  split
  · next heq => exact absurd (List.cons.inj heq).1 hc
  · rw [hread]
    rfl

/-! ## Members without spaces -/

def field (key : String) (value : List Char) : List Char :=
  quotedString key ++ ':' :: value

theorem skipSpace_field (key : String) (value : List Char) :
    skipSpace (field key value) = field key value :=
  skipSpace_quote key _

theorem readMembers_field (key : String) (hskip : skipSpace text = text)
    (hvalue : readValue fuel text = some (tree, '\x7d' :: rest)) :
    readMembers (fuel + 1) (field key text) = some ([(some key, tree)], rest) :=
  readMembers_last key (hskip.symm ▸ hvalue) (skipSpace_cons (by decide))

theorem readMembers_fields {members : List (Option String × Tree)} (key : String)
    (hskip : skipSpace text = text) (hvalue : readValue fuel text = some (tree, ',' :: more))
    (hmore : skipSpace more = more) (hmembers : readMembers fuel more = some (members, rest)) :
    readMembers (fuel + 1) (field key text) = some ((some key, tree) :: members, rest) :=
  readMembers_next key (hskip.symm ▸ hvalue) (skipSpace_cons (by decide)) (hmore.symm ▸ hmembers)

theorem readValue_fields {members : List (Option String × Tree)} {key : String}
    (hread : readMembers fuel (field key text) = some (members, rest)) :
    readValue (fuel + 1) ('\x7b' :: field key text) = some (.object members, rest) :=
  readValue_quotedMember hread

theorem read_of_readValue (least : Nat) (hstart : skipSpace text = text)
    (hlength : least ≤ text.length + 1)
    (hread : ∀ fuel, least ≤ fuel → readValue fuel text = some (tree, [])) :
    read (String.ofList text) = some tree := by
  rw [read, String.toList_ofList, readList, hstart, hread _ hlength]
  rfl

/-! ## Nested arrays -/

def nestedText : Nat → List Char → List Char
  | 0, rest => 'n' :: 'u' :: 'l' :: 'l' :: rest
  | k + 1, rest => '[' :: nestedText k (']' :: rest)

theorem nestedText_head (k : Nat) (rest : List Char) :
    ∃ c after, nestedText k rest = c :: after ∧ c ≠ ']' ∧ isSpace c = false := by
  cases k with
  | zero => exact ⟨'n', _, rfl, by decide, by decide⟩
  | succ k => exact ⟨'[', _, rfl, by decide, by decide⟩

theorem skipSpace_nestedText (k : Nat) (rest : List Char) :
    skipSpace (nestedText k rest) = nestedText k rest := by
  obtain ⟨c, after, hhead, -, hc⟩ := nestedText_head k rest
  rw [hhead, skipSpace_cons hc]

theorem length_nestedText (k : Nat) (rest : List Char) :
    (nestedText k rest).length = 2 * k + 4 + rest.length := by
  induction k generalizing rest with
  | zero =>
      simp only [nestedText, List.length_cons]
      omega
  | succ k ih =>
      simp only [nestedText, List.length_cons, ih]
      omega

theorem readValue_nestedText {k fuel : Nat} (hfuel : 2 * k < fuel) (rest : List Char) :
    readValue fuel (nestedText k rest) = some (nested .null k, rest) := by
  induction k generalizing fuel rest with
  | zero =>
      obtain ⟨fuel, rfl⟩ : ∃ n, fuel = n + 1 := ⟨fuel - 1, by omega⟩
      simp only [nestedText, nested, readValue]
  | succ k ih =>
      obtain ⟨fuel, rfl⟩ : ∃ n, fuel = n + 2 := ⟨fuel - 2, by omega⟩
      obtain ⟨c, after, hhead, hc, -⟩ := nestedText_head k (']' :: rest)
      have hitems : readItems (fuel + 1) (nestedText k (']' :: rest)) =
          some ([nested .null k], rest) :=
        readItems_last (ih (by omega) _) (skipSpace_cons (by decide))
      rw [hhead] at hitems
      rw [nestedText, readValue_array ((skipSpace_nestedText k _).trans hhead) hc hitems]
      rfl

end CacheUpkeep.Json.Tree
