import CacheUpkeep.Json.Syntax
import CacheUpkeep.Json.Writer

/-!
# Strings of JSON round trip

Reading a string as it is written gives the text, whatever characters are in it,
and reading an object of strings gives its members in their order.
-/

namespace CacheUpkeep.Json

open CacheUpkeep.Text

namespace Tree

theorem hexValue?_hexDigit : ∀ n < 16, hexValue? (hexDigit n) = some n := by
  decide

theorem hexUnit?_control {n : Nat} (hn : n < 32) :
    hexUnit? '0' '0' (hexDigit (n / 16)) (hexDigit (n % 16)) = some n := by
  have hzero : hexValue? '0' = some 0 := by decide
  have hsum : 0 * 4096 + 0 * 256 + n / 16 * 16 + n % 16 = n := by omega
  simp only [hexUnit?, hzero, hexValue?_hexDigit _ (show n / 16 < 16 by omega),
    hexValue?_hexDigit _ (show n % 16 < 16 by omega), Option.bind_eq_bind, Option.bind_some, hsum]
  rfl

theorem joinParts_unit {n : Nat} (hn : n < 32) (parts : List StringPart) :
    joinParts (.unit n :: parts) = (joinParts parts).map (Char.ofNat n :: ·) := by
  have hlow : ¬ 0xD800 ≤ n := by omega
  cases parts with
  | nil => simp [joinParts, hlow]
  | cons part rest =>
      cases part with
      | char c => simp [joinParts, hlow]
      | unit low => simp [joinParts, hlow]

theorem readParts_escapedChar (c : Char) (rest : List Char) :
    ∃ part, readParts (escapedChar c ++ rest) =
        (readParts rest).map (fun read => (part :: read.1, read.2)) ∧
      ∀ parts, joinParts (part :: parts) = (joinParts parts).map (c :: ·) := by
  by_cases hshort : c = '"' ∨ c = '\\' ∨ c = '\x08' ∨ c = '\x0c' ∨ c = '\n' ∨ c = '\r' ∨ c = '\t'
  · refine ⟨.char c, ?_, fun parts => rfl⟩
    rcases hshort with rfl | rfl | rfl | rfl | rfl | rfl | rfl <;>
      cases hrest : readParts rest <;> simp [escapedChar, readParts, escapeChar?, hrest]
  · simp only [not_or] at hshort
    obtain ⟨h₁, h₂, h₃, h₄, h₅, h₆, h₇⟩ := hshort
    by_cases hcontrol : c.toNat < 32
    · refine ⟨.unit c.toNat, ?_, fun parts => ?_⟩
      · cases hrest : readParts rest <;>
          simp [escapedChar, h₁, h₂, h₃, h₄, h₅, h₆, h₇, hcontrol, readParts,
            hexUnit?_control hcontrol, hrest]
      · rw [joinParts_unit hcontrol, Char.ofNat_toNat]
    · refine ⟨.char c, ?_, fun parts => rfl⟩
      have hwritten : escapedChar c = [c] := by
        simp [escapedChar, h₁, h₂, h₃, h₄, h₅, h₆, h₇, hcontrol]
      rw [hwritten, List.singleton_append, readParts.eq_def]
      split
      · next heq => cases heq
      · next heq => exact absurd (List.cons.inj heq).1 h₁
      · next heq => exact absurd (List.cons.inj heq).1 h₂
      · next heq => exact absurd (List.cons.inj heq).1 h₂
      · next heq =>
          obtain ⟨rfl, rfl⟩ := List.cons.inj heq
          rw [if_neg (by simp only [Bool.or_eq_true, decide_eq_true_eq, not_or]
                         exact ⟨hcontrol, h₂⟩)]

theorem readParts_escaped (text rest : List Char) :
    ∃ parts, readParts (text.flatMap escapedChar ++ '"' :: rest) = some (parts, rest) ∧
      joinParts parts = some text := by
  induction text with
  | nil => exact ⟨[], rfl, rfl⟩
  | cons c text ih =>
      obtain ⟨parts, hread, hjoin⟩ := ih
      obtain ⟨part, hpart, hparts⟩ :=
        readParts_escapedChar c (text.flatMap escapedChar ++ '"' :: rest)
      refine ⟨part :: parts, ?_, ?_⟩
      · rw [List.flatMap_cons, List.append_assoc, hpart, hread]
        rfl
      · rw [hparts, hjoin]
        rfl

theorem readString_quotedString (text : String) (rest : List Char) :
    readString (text.toList.flatMap escapedChar ++ '"' :: rest) = some (some text, rest) := by
  obtain ⟨parts, hread, hjoin⟩ := readParts_escaped text.toList rest
  simp [readString, hread, hjoin]

/-! ## Objects of strings -/

theorem readValue_quotedString (fuel : Nat) (text : String) (rest : List Char) :
    readValue (fuel + 1) (quotedString text ++ rest) = some (.string (some text), rest) := by
  have hread := readString_quotedString text rest
  simp only [quotedString, List.cons_append, List.append_assoc, List.nil_append, readValue, hread,
    Option.map_some]

theorem skipSpace_cons {c : Char} {rest : List Char} (hc : isSpace c = false) :
    skipSpace (c :: rest) = c :: rest :=
  List.dropWhile_cons_of_neg (by simp [hc])

theorem skipSpace_newLine {level : Nat} {c : Char} {rest : List Char} (hc : isSpace c = false) :
    skipSpace (newLine level ++ c :: rest) = c :: rest := by
  have hall : ∀ d ∈ newLine level, isSpace d = true := by
    intro d hd
    rcases List.mem_cons.mp hd with rfl | hd
    · decide
    · rw [List.eq_of_mem_replicate hd]
      decide
  rw [skipSpace, List.dropWhile_append_of_pos hall, List.dropWhile_cons_of_neg (by simp [hc])]

def stringMember (member : String × String) : String × Json :=
  (member.1, .string member.2)

def stringTree (member : String × String) : Option String × Tree :=
  (some member.1, .string (some member.2))

theorem quotedString_append (text : String) (rest : List Char) :
    quotedString text ++ rest = '"' :: (text.toList.flatMap escapedChar ++ '"' :: rest) := by
  simp [quotedString]

theorem skipSpace_quote (text : String) (rest : List Char) :
    skipSpace (quotedString text ++ rest) = quotedString text ++ rest := by
  rw [quotedString_append]
  exact skipSpace_cons (by decide)

theorem skipSpace_quotedString (text : String) (rest : List Char) :
    skipSpace (' ' :: (quotedString text ++ rest)) = quotedString text ++ rest := by
  rw [skipSpace, List.dropWhile_cons_of_pos (by decide)]
  exact skipSpace_quote text rest

theorem readValue_afterColon (fuel : Nat) (text : String) (rest : List Char) :
    readValue (fuel + 1) (skipSpace (' ' :: (quotedString text ++ rest))) =
      some (.string (some text), rest) := by
  rw [skipSpace_quotedString, readValue_quotedString]

section Member

variable {fuel : Nat} {text tail more rest : List Char} {tree : Tree}
  {trees : List (Option String × Tree)}

theorem readMembers_last (key : String)
    (hvalue : readValue fuel (skipSpace text) = some (tree, tail))
    (htail : skipSpace tail = '\x7d' :: rest) :
    readMembers (fuel + 1) (quotedString key ++ ':' :: text) = some ([(some key, tree)], rest) := by
  have hcolon : isSpace ':' = false := by decide
  rw [quotedString_append, readMembers]
  simp only [readString_quotedString, skipSpace_cons hcolon, hvalue, htail, Option.bind_eq_bind,
    Option.bind_some]
  rfl

theorem readMembers_next (key : String)
    (hvalue : readValue fuel (skipSpace text) = some (tree, tail))
    (htail : skipSpace tail = ',' :: more)
    (hmore : readMembers fuel (skipSpace more) = some (trees, rest)) :
    readMembers (fuel + 1) (quotedString key ++ ':' :: text) =
      some ((some key, tree) :: trees, rest) := by
  have hcolon : isSpace ':' = false := by decide
  rw [quotedString_append, readMembers]
  simp only [readString_quotedString, skipSpace_cons hcolon, hvalue, htail, hmore,
    Option.bind_eq_bind, Option.bind_some]
  rfl

end Member

def stringLines (level : Nat) (members : List (String × String)) : List Char :=
  joinWith (',' :: newLine level) (prettyMembers level (members.map stringMember))

theorem stringLines_single (level : Nat) (key value : String) :
    stringLines level [(key, value)] = quotedString key ++ ':' :: ' ' :: quotedString value := by
  simp [stringLines, prettyMembers, prettyChars, joinWith, stringMember]

theorem stringLines_cons (level : Nat) (key value : String) (other : String × String)
    (others : List (String × String)) :
    stringLines level ((key, value) :: other :: others) =
      quotedString key ++ ':' :: ' ' :: (quotedString value ++ ',' ::
        (newLine level ++ stringLines level (other :: others))) := by
  simp [stringLines, prettyMembers, prettyChars, joinWith, stringMember]

theorem stringLines_eq_quote (level : Nat) (member : String × String)
    (members : List (String × String)) :
    ∃ text, stringLines level (member :: members) = '"' :: text := by
  obtain ⟨key, value⟩ := member
  cases members with
  | nil => exact ⟨_, by rw [stringLines_single, quotedString_append]⟩
  | cons other others => exact ⟨_, by rw [stringLines_cons, quotedString_append]⟩

theorem readMembers_stringLines {members : List (String × String)} (hne : members ≠ [])
    {fuel : Nat} (hfuel : members.length < fuel) (level : Nat) (rest : List Char) :
    readMembers fuel (stringLines level members ++ (newLine 0 ++ '\x7d' :: rest)) =
      some (members.map stringTree, rest) := by
  induction members generalizing fuel with
  | nil => contradiction
  | cons member members ih =>
      obtain ⟨key, value⟩ := member
      rw [List.length_cons] at hfuel
      obtain ⟨fuel, rfl⟩ : ∃ k, fuel = k + 2 := ⟨fuel - 2, by omega⟩
      cases members with
      | nil =>
          have htail : skipSpace (newLine 0 ++ '\x7d' :: rest) = '\x7d' :: rest :=
            skipSpace_newLine (by decide)
          rw [stringLines_single, List.append_assoc, List.cons_append, List.cons_append]
          exact readMembers_last key (readValue_afterColon fuel value _) htail
      | cons other others =>
          have hcomma : isSpace ',' = false := by decide
          have hquote : isSpace '"' = false := by decide
          obtain ⟨text, htext⟩ := stringLines_eq_quote level other others
          have hrest : readMembers (fuel + 1)
              (skipSpace (newLine level ++ (stringLines level (other :: others) ++
                (newLine 0 ++ '\x7d' :: rest)))) =
              some ((other :: others).map stringTree, rest) := by
            have hskip :
                skipSpace (newLine level ++ '"' :: (text ++ (newLine 0 ++ '\x7d' :: rest))) =
                  '"' :: (text ++ (newLine 0 ++ '\x7d' :: rest)) := skipSpace_newLine hquote
            rw [← List.cons_append, ← htext] at hskip
            rw [hskip]
            exact ih (by simp) (by omega)
          rw [stringLines_cons, List.append_assoc, List.cons_append, List.cons_append,
            List.append_assoc, List.cons_append, List.append_assoc]
          exact readMembers_next key (readValue_afterColon fuel value _)
            (skipSpace_cons hcomma) hrest

theorem length_le_stringLines (level : Nat) (members : List (String × String)) :
    members.length ≤ (stringLines level members).length := by
  induction members with
  | nil => simp
  | cons member members ih =>
      obtain ⟨key, value⟩ := member
      cases members with
      | nil =>
          rw [stringLines_single]
          simp [quotedString]
      | cons other others =>
          rw [stringLines_cons]
          simp only [List.length_append, List.length_cons] at ih ⊢
          omega

theorem readValue_object {fuel : Nat} {text after rest : List Char}
    {trees : List (Option String × Tree)} (hskip : skipSpace text = '"' :: after)
    (hread : readMembers fuel ('"' :: after) = some (trees, rest)) :
    readValue (fuel + 1) ('\x7b' :: text) = some (.object trees, rest) := by
  simp only [readValue, hskip]
  split
  · next heq => exact absurd (List.cons.inj heq).1 (by decide)
  · rw [hread]
    rfl

theorem readValue_quotedMember {fuel : Nat} {text rest : List Char} {key : String}
    {trees : List (Option String × Tree)}
    (hread : readMembers fuel (quotedString key ++ text) = some (trees, rest)) :
    readValue (fuel + 1) ('\x7b' :: (quotedString key ++ text)) = some (.object trees, rest) := by
  rw [quotedString_append] at hread ⊢
  exact readValue_object (skipSpace_cons (by decide)) hread

theorem pretty_object (members : List (String × String)) (hne : members ≠ []) :
    (Json.object (members.map stringMember)).pretty =
      String.ofList
        ('\x7b' :: (newLine 1 ++ (stringLines 1 members ++ (newLine 0 ++ ['\x7d'])))) := by
  cases members with
  | nil => contradiction
  | cons member members =>
      simp [pretty, prettyChars, block, stringLines, prettyMembers]

theorem read_pretty_object {members : List (String × String)} (hne : members ≠ []) :
    read (Json.object (members.map stringMember)).pretty =
      some (.object (members.map stringTree)) := by
  obtain ⟨member, others, rfl⟩ := List.exists_cons_of_ne_nil hne
  obtain ⟨text, htext⟩ := stringLines_eq_quote 1 member others
  have hquote : isSpace '"' = false := by decide
  have hopen : isSpace '\x7b' = false := by decide
  have hlength := length_le_stringLines 1 (member :: others)
  have hskip : skipSpace (newLine 1 ++ '"' :: (text ++ (newLine 0 ++ ['\x7d']))) =
      '"' :: (text ++ (newLine 0 ++ ['\x7d'])) := skipSpace_newLine hquote
  have hmembers : ∀ fuel, (member :: others).length < fuel →
      readMembers fuel ('"' :: (text ++ (newLine 0 ++ ['\x7d']))) =
        some ((member :: others).map stringTree, []) := by
    intro fuel hfuel
    rw [← List.cons_append, ← htext]
    exact readMembers_stringLines hne hfuel 1 []
  rw [pretty_object _ hne, read, String.toList_ofList, readList, skipSpace_cons hopen, htext]
  rw [htext] at hlength
  rw [List.cons_append, readValue_object hskip (hmembers _ ?_)]
  · rfl
  · simp only [List.length_append, List.length_cons] at hlength ⊢
    omega

end Tree

end CacheUpkeep.Json
