import CacheUpkeep.ConanConf.Update
import CacheUpkeep.Proofs.ConanConf.RoundTrip
import CacheUpkeep.Proofs.FileSystem.Writing
import CacheUpkeep.Proofs.Outcome

/-!
# Updating again

An update that is made twice leaves what one leaves, unless the text before the first one
has a comment after blanks: the first update takes it for a setting, whose key starts with
`#`, and the second one drops that as a comment.
-/

namespace CacheUpkeep.ConanConf

open CacheUpkeep.FileSystem

variable {path : Path} {fs once : FileSystem} {conf : ConanConf} {text : String}
  {values : List (String × String)} {id : Nat}

/-- A key and a value that are read back from their line. -/
structure IsSetting (e : String × String) : Prop extends IsLine e where
  not_isComment : ¬ IsComment e.1

/-! ## Settings -/

theorem setAll_read_isWellFormed (hvalues : ∀ e ∈ values, IsSetting e) (text : String) :
    ((read text).setAll values).WellFormed :=
  (wellFormed_read text).setAll fun e he => (hvalues e he).toIsLine

theorem setAll_read_write (hvalues : ∀ e ∈ values, IsSetting e) (text : String) :
    (read ((read text).setAll values).write).setAll values =
      ((read text).setAll values).withoutComments := by
  have hwithout := withoutComments_setAll (fun e he => (hvalues e he).not_isComment) (read text)
  rw [(setAll_read_isWellFormed hvalues text).read_write, hwithout,
    setAll_setAll (wellFormed_read text).withoutComments.nodup_keys]

theorem withoutComments_setAll_read_iff (hvalues : ∀ e ∈ values, IsSetting e) :
    ((read text).setAll values).withoutComments = (read text).setAll values ↔
      ¬ HasIndentedComment text := by
  rw [withoutComments_eq_self_iff, ← exists_comment_iff]
  constructor
  · rintro h ⟨key, hkey, hcomment⟩
    exact h key (mem_keys_setAll.mpr (.inr hkey)) hcomment
  · rintro h key hkey hcomment
    rcases mem_keys_setAll.mp hkey with hset | hread
    · obtain ⟨e, he, rfl⟩ := List.mem_map.mp hset
      exact (hvalues e he).not_isComment hcomment
    · exact h ⟨key, hread, hcomment⟩

theorem get?_withoutComments (conf : ConanConf) (key : String) :
    conf.withoutComments.get? key = if IsComment key then none else conf.get? key := by
  obtain ⟨entries⟩ := conf
  unfold get? withoutComments
  induction entries with
  | nil => simp
  | cons e rest ih =>
      obtain ⟨k, v⟩ := e
      rw [List.filter_cons]
      by_cases hkey : key = k
      · subst hkey
        by_cases hcomment : IsComment key
        · rw [if_neg (by simpa using hcomment), ih, if_pos hcomment, if_pos hcomment]
        · simp [hcomment]
      · rw [lookup_cons_of_ne hkey, ← ih]
        split
        · rw [lookup_cons_of_ne hkey]
        · rfl

theorem get?_setAll_read_write (h : conf.WellFormed) (hkey : key ∉ others.map Prod.fst) :
    ((read conf.write).setAll others).get? key =
      if IsComment key then none else conf.get? key := by
  have hnone : others.reverse.lookup key = none :=
    lookup_of_notMem (by simpa using hkey)
  rw [h.read_write, get?_setAll, hnone, Option.none_or, get?_withoutComments]

theorem not_hasIndentedComment_empty : ¬ HasIndentedComment "" := by
  rintro ⟨line, hline, -⟩
  cases hline

/-! ## Writing the file -/

/-- The text at a path, which is empty as long as there is no file. -/
def HasText (fs : FileSystem) (path : Path) (text : String) : Prop :=
  fs.readText path = .ok text ∨ fs.readText path = .error .notFound ∧ text = ""

theorem HasText.readFile (h : HasText fs path text) : readFile path fs = .ok (read text) := by
  rcases h with hread | ⟨hread, rfl⟩
  · rw [ConanConf.readFile, hread]
  · rw [ConanConf.readFile, hread]
    rfl

theorem HasText.update (h : HasText fs path text) (values : List (String × String)) :
    (update path values).outcome fs = (writeFile path ((read text).setAll values)).outcome fs := by
  unfold ConanConf.update
  exact Action.outcome_bind_ok (by rw [Action.outcome_reading, h.readFile])

theorem writeFile_of_opens (h : Opens fs path id) (conf : ConanConf) :
    ∃ big : FileSystem, fs.writeBytes path conf.write.toUTF8 = .ok big ∧
      (writeFile path conf).outcome fs = (.ok (), big) := by
  obtain ⟨location, hopen⟩ := h
  obtain ⟨node, hplace, hnumber, -⟩ := place_of_openFile hopen
  have hne : node ≠ .directory := by
    rintro rfl
    cases hnumber
  have hbytes := writeBytes_of_openFile hopen conf.write.toUTF8
  have hwrite : (writeText path conf.write).outcome fs =
      (.ok (), fs.setContent location conf.write.toUTF8) :=
    Action.outcome_changing_ok hbytes
  refine ⟨_, hbytes, Action.outcome_mapError_ok ?_⟩
  cases hparent : path.parent? with
  | none => exact hwrite
  | some parent =>
      exact (Action.outcome_bind_ok (makeDirectories_of_present hplace hne hparent)).trans hwrite

theorem writeFile_eq_ok (h : (writeFile path conf).outcome fs = (.ok (), once)) :
    ∃ above : FileSystem, above.writeBytes path conf.write.toUTF8 = .ok once := by
  have hmade := Action.outcome_mapError_eq_ok h
  cases hparent : path.parent? with
  | none =>
      rw [hparent] at hmade
      exact ⟨fs, Action.outcome_changing_eq_ok hmade⟩
  | some parent =>
      rw [hparent] at hmade
      obtain ⟨_, above, -, hwrite⟩ := Action.outcome_bind_eq_ok hmade
      exact ⟨above, Action.outcome_changing_eq_ok hwrite⟩

/-! ## Two updates -/

theorem update_of_readText (hread : fs.readText path = .ok text)
    (values : List (String × String)) :
    ∃ once, (update path values).outcome fs = (.ok (), once) := by
  obtain ⟨id, hopens⟩ := opens_of_readText hread
  obtain ⟨once, -, hwrite⟩ := writeFile_of_opens hopens ((read text).setAll values)
  exact ⟨once, (HasText.update (.inl hread) values).trans hwrite⟩

theorem written_of_update (htext : HasText fs path text)
    (hfirst : (update path values).outcome fs = (.ok (), once)) :
    ∃ above : FileSystem,
      above.writeBytes path ((read text).setAll values).write.toUTF8 = .ok once ∧
        (above.readText path = .ok "" → text = "") := by
  rw [htext.update] at hfirst
  rcases htext with hread | ⟨-, rfl⟩
  · obtain ⟨id, hopens⟩ := opens_of_readText hread
    obtain ⟨big, hbytes, hwrite⟩ := writeFile_of_opens hopens ((read text).setAll values)
    rw [hwrite] at hfirst
    cases hfirst
    refine ⟨fs, hbytes, fun hempty => ?_⟩
    rw [hread] at hempty
    cases hempty
    rfl
  · obtain ⟨above, habove⟩ := writeFile_eq_ok hfirst
    exact ⟨above, habove, fun _ => rfl⟩

theorem update_update (htext : HasText fs path text) (hvalues : ∀ e ∈ values, IsSetting e)
    (hfirst : (update path values).outcome fs = (.ok (), once)) :
    ∃ twice, (update path values).outcome once = (.ok (), twice) ∧
      (twice = once ↔ ¬ HasIndentedComment text) := by
  obtain ⟨above, habove, hempty⟩ := written_of_update htext hfirst
  obtain ⟨id, hopens⟩ := opens_of_writeBytes habove
  have hsecond : ∀ {text'}, once.readText path = .ok text' →
      ∃ twice, (update path values).outcome once = (.ok (), twice) ∧
        above.writeBytes path ((read text').setAll values).write.toUTF8 = .ok twice := by
    intro text' hread
    obtain ⟨twice, hbytes, hwrite⟩ := writeFile_of_opens hopens ((read text').setAll values)
    rw [writeBytes_writeBytes habove] at hbytes
    exact ⟨twice, (HasText.update (.inl hread) values).trans hwrite, hbytes⟩
  rcases readText_writeBytes habove with hread | ⟨hread, hsink⟩
  · obtain ⟨twice, hupdate, htwice⟩ := hsecond hread
    rw [setAll_read_write hvalues] at htwice
    refine ⟨twice, hupdate, ?_⟩
    rw [← withoutComments_setAll_read_iff hvalues]
    constructor
    · rintro rfl
      -- One file that both updates wrote has one text, so that the second one dropped no key.
      rcases readText_writeBytes htwice with hagain | ⟨-, hsink⟩
      · rw [hread] at hagain
        injection hagain with hwrite
        exact eq_withoutComments_of_write_eq (setAll_read_isWellFormed hvalues text) hwrite.symm
      · obtain rfl := hempty hsink
        exact (withoutComments_setAll_read_iff hvalues).mpr not_hasIndentedComment_empty
    · intro hsame
      rw [hsame, habove] at htwice
      injection htwice with htwice
      exact htwice.symm
  · obtain rfl := hempty hsink
    obtain ⟨twice, hupdate, htwice⟩ := hsecond hread
    rw [habove] at htwice
    injection htwice with htwice
    exact ⟨twice, hupdate, iff_of_true htwice.symm not_hasIndentedComment_empty⟩

/--
Two updates of a file leave what one leaves, and reading what was written gives what was
read, exactly if the text has no comment after blanks; of the settings that one update has
written, a later one of other keys loses those comments and changes nothing else.
-/
theorem update_twice_iff (hread : fs.readText path = .ok text)
    (hvalues : ∀ e ∈ values, IsSetting e) :
    (∃ once twice, (update path values).outcome fs = (.ok (), once) ∧
      (update path values).outcome once = (.ok (), twice) ∧
      (twice = once ↔ ¬ HasIndentedComment text)) ∧
    (read (read text).write = read text ↔ ¬ HasIndentedComment text) ∧
    ∀ others key, key ∉ others.map Prod.fst →
      ((read ((read text).setAll values).write).setAll others).get? key =
        if IsComment key then none else ((read text).setAll values).get? key := by
  refine ⟨?_, ?_, fun others key hkey =>
    get?_setAll_read_write (setAll_read_isWellFormed hvalues text) hkey⟩
  · obtain ⟨once, hfirst⟩ := update_of_readText hread values
    obtain ⟨twice, hsecond, hsame⟩ := update_update (.inl hread) hvalues hfirst
    exact ⟨once, twice, hfirst, hsecond, hsame⟩
  · rw [(wellFormed_read text).read_write]
    have hnone : ∀ e ∈ ([] : List (String × String)), IsSetting e := by simp
    exact withoutComments_setAll_read_iff hnone

namespace Sample

def files : FileSystem :=
  ⟨[(["global.conf"], .file 0 "core:threads=2\n  #core:retry=3\n".toUTF8 false)], 1, []⟩

theorem readText_files :
    files.readText ⟨["global.conf"]⟩ = .ok "core:threads=2\n  #core:retry=3\n" := by
  have hfind : files.find true ⟨["global.conf"]⟩ = .ok (["global.conf"],
      .file 0 "core:threads=2\n  #core:retry=3\n".toUTF8 false) := by
    rfl
  rw [readText_of_file hfind, fromUTF8?_toUTF8]

theorem isSetting_storage : IsSetting ("core.cache:storage_path", "cache/conan2/a") where
  mark_notMem := by decide
  newLine_notMem_key := by decide
  newLine_notMem_value := by decide
  key_start := by
    rintro c ⟨⟩
    decide
  value_end := by
    rintro c ⟨⟩
    decide
  not_isComment := by decide

theorem hasIndentedComment : HasIndentedComment "core:threads=2\n  #core:retry=3\n" :=
  ⟨"  #core:retry=3".toList, by decide, by decide, by decide, by decide⟩

end Sample

theorem update_twice_iff_sample :
    (Sample.files.readText ⟨["global.conf"]⟩ = .ok "core:threads=2\n  #core:retry=3\n" ∧
      IsSetting ("core.cache:storage_path", "cache/conan2/a")) ∧
    ∃ once twice,
      (update ⟨["global.conf"]⟩ [("core.cache:storage_path", "cache/conan2/a")]).outcome
        Sample.files = (.ok (), once) ∧
      (update ⟨["global.conf"]⟩ [("core.cache:storage_path", "cache/conan2/a")]).outcome once =
        (.ok (), twice) ∧ twice ≠ once := by
  have hvalues : ∀ e ∈ [("core.cache:storage_path", "cache/conan2/a")], IsSetting e := by
    intro e he
    rw [List.mem_singleton.mp he]
    exact Sample.isSetting_storage
  obtain ⟨⟨once, twice, hfirst, hsecond, hsame⟩, -, -⟩ :=
    update_twice_iff Sample.readText_files hvalues
  exact ⟨⟨Sample.readText_files, Sample.isSetting_storage⟩, once, twice, hfirst, hsecond,
    fun heq => hsame.mp heq Sample.hasIndentedComment⟩

end CacheUpkeep.ConanConf
