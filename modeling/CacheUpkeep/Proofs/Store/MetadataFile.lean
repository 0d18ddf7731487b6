import CacheUpkeep.Proofs.FileSystem.Writing
import CacheUpkeep.Proofs.Store.Metadata
import CacheUpkeep.Store.Prune

/-!
# Metadata files

What is written to the metadata file of an entry is read from it, whatever the key, the kind
and the time of the last use are, but for a leap second that does not end a minute.  A sink in
the place of the file forgets what is written, and is no metadata when it is read.
-/

namespace CacheUpkeep.Store

open CacheUpkeep.Calendar CacheUpkeep.FileSystem CacheUpkeep.Path CacheUpkeep.Prune

variable {fs big after : FileSystem} {root dir : Path} {key : String} {kind : EntryKind}
  {lastUsed : Instant} {m : EntryMeta}

/-! ## Reading the file -/

theorem read_reread (text : String) :
    ((EntryMeta.read text).bind fun m => EntryMeta.read m.write) = EntryMeta.read text := by
  cases h : EntryMeta.read text with
  | error e => rfl
  | ok m =>
      rw [Except.bind]
      exact EntryMeta.read_write_eq_ok_iff.mpr (EntryMeta.read_isRegular h)

theorem read_empty : EntryMeta.read "" = .error .malformed := by
  rfl

theorem readMeta_eq_some_iff :
    readMeta fs dir = .ok (some m) ↔
      ∃ text, fs.readText (dir.child metadataName) = .ok text ∧ EntryMeta.read text = .ok m := by
  simp only [readMeta]
  cases htext : fs.readText (dir.child metadataName) with
  | error e => cases e <;> simp
  | ok text => cases hm : EntryMeta.read text <;> simp [hm]

theorem readMeta_isRegular (h : readMeta fs dir = .ok (some m)) : m.lastUsed.IsRegular := by
  obtain ⟨text, -, hm⟩ := readMeta_eq_some_iff.mp h
  exact EntryMeta.read_isRegular hm

theorem readMeta_of_leadsToSink (h : LeadsToSink fs (dir.child metadataName)) :
    readMeta fs dir ≠ .ok (some m) := by
  intro hread
  obtain ⟨text, htext, hm⟩ := readMeta_eq_some_iff.mp hread
  rw [readText_of_leadsToSink h] at htext
  cases htext
  rw [read_empty] at hm
  cases hm

/-! ## Writing the file -/

theorem readMeta_writeBytes_iff
    (h : fs.writeBytes (dir.child metadataName) m.write.toUTF8 = .ok big) :
    readMeta big dir = .ok (some m.carried) ↔ ¬ LeadsToSink big (dir.child metadataName) := by
  constructor
  · intro hread hsink
    exact readMeta_of_leadsToSink hsink hread
  · intro hsink
    exact readMeta_eq_some_iff.mpr
      ⟨m.write, readText_of_not_leadsToSink h hsink, EntryMeta.read_write m⟩

theorem written_of_put (h : (LocalStore.put root key kind lastUsed).outcome fs = (.ok dir, after)) :
    dir = root.join (Path.ofString key) ∧
      ∃ made : FileSystem, made.writeBytes (dir.child metadataName)
        (EntryMeta.write ⟨key, kind, lastUsed⟩).toUTF8 = .ok after := by
  unfold LocalStore.put at h
  obtain ⟨_, made, -, h⟩ := Action.outcome_bind_eq_ok h
  obtain ⟨_, written, hwrite, h⟩ := Action.outcome_bind_eq_ok h
  cases h
  exact ⟨rfl, made, Action.outcome_changing_eq_ok (Action.outcome_mapError_eq_ok hwrite)⟩

theorem readMeta_put_iff
    (h : (LocalStore.put root key kind lastUsed).outcome fs = (.ok dir, after)) :
    readMeta after dir = .ok (some (EntryMeta.carried ⟨key, kind, lastUsed⟩)) ↔
      ¬ LeadsToSink after (dir.child metadataName) := by
  obtain ⟨-, made, hwrite⟩ := written_of_put h
  exact readMeta_writeBytes_iff hwrite

theorem readMeta_rewrite (h : readMeta fs dir = .ok (some m)) :
    ∃ after, (writeText (dir.child metadataName) m.write).outcome fs = (.ok (), after) ∧
      readMeta after dir = .ok (some m) := by
  obtain ⟨text, htext, -⟩ := readMeta_eq_some_iff.mp h
  obtain ⟨id, location, hopen⟩ := opens_of_readText htext
  have hwrite := writeBytes_of_openFile hopen m.write.toUTF8
  have hwritten := readMeta_writeBytes_iff hwrite
  rw [EntryMeta.carried_eq_self (readMeta_isRegular h)] at hwritten
  refine ⟨_, Action.outcome_changing_ok hwrite, hwritten.mpr ?_⟩
  intro hsink
  exact readMeta_of_leadsToSink (leadsToSink_of_writeBytes hwrite hsink) h

/--
The text that is written for metadata is read as that metadata, for every key, kind and time
but for a leap second that does not end a minute: this is carried to the next second.  What is
read from any text stays the same when it is written and read again.  So it is in files: a put
leaves the metadata that it was given, carried, unless the file is a sink, and metadata that
has been read from a file can be written back and is read once more.
-/
theorem metadata_survives :
    (∀ m : EntryMeta, EntryMeta.read m.write = .ok m ↔ m.lastUsed.IsRegular) ∧
    (∀ m : EntryMeta, EntryMeta.read m.write = .ok m.carried) ∧
    (∀ text, ((EntryMeta.read text).bind fun m => EntryMeta.read m.write) =
      EntryMeta.read text) ∧
    (∀ root key kind lastUsed fs dir after,
      (LocalStore.put root key kind lastUsed).outcome fs = (.ok dir, after) →
        (readMeta after dir = .ok (some (EntryMeta.carried ⟨key, kind, lastUsed⟩)) ↔
          ¬ LeadsToSink after (dir.child metadataName))) ∧
    ∀ fs dir m, readMeta fs dir = .ok (some m) →
      ∃ after, (writeText (dir.child metadataName) m.write).outcome fs = (.ok (), after) ∧
        readMeta after dir = .ok (some m) := by
  refine ⟨fun m => EntryMeta.read_write_eq_ok_iff, EntryMeta.read_write, read_reread, ?_, ?_⟩
  · intro root key kind lastUsed fs dir after hput
    exact readMeta_put_iff hput
  · intro fs dir m hread
    exact readMeta_rewrite hread

namespace Sample

def bareStore : FileSystem :=
  ⟨[(["store"], .directory)], 0, []⟩

def oddEntry : EntryMeta :=
  ⟨"a\"b\\c\n\u00e9", .artifact, ⟨⟨-44, 12, 31, by decide⟩, 86399, 1000000001, by decide⟩⟩

def oddStore : FileSystem :=
  ⟨[(["store"], .directory), (["store", oddEntry.key], .directory),
    (["store", oddEntry.key, ".entry.json"], .file 0 oddEntry.write.toUTF8 false)], 1, []⟩

theorem put_oddEntry :
    (LocalStore.put ⟨["store"]⟩ oddEntry.key oddEntry.kind oddEntry.lastUsed).outcome bareStore =
      (.ok ⟨["store", oddEntry.key]⟩, oddStore) := by
  rfl

theorem not_leadsToSink_oddStore :
    ¬ LeadsToSink oddStore (Path.child ⟨["store", oddEntry.key]⟩ metadataName) := by
  rintro ⟨location, id, hstat⟩
  have hfile : oddStore.stat (Path.child ⟨["store", oddEntry.key]⟩ metadataName) =
      .ok (["store", oddEntry.key, ".entry.json"], .file 0 oddEntry.write.toUTF8 false) := by
    rfl
  rw [hfile] at hstat
  cases hstat

/-- In a leap second after the second of a minute that a clock inserts none after. -/
def strayLeap : Instant :=
  ⟨⟨2016, 7, 9, by decide⟩, 43204, 1333333333, by decide⟩

def nextSecond : Instant :=
  { strayLeap with second := 43205, nano := 333333333, isTime := by decide }

def sinkStore : FileSystem :=
  ⟨[(["dev"], .directory), (["dev", "null"], .sink 0), (["store"], .directory),
    (["store", "a"], .directory),
    (["store", "a", ".entry.json"], .link (.ofString "/dev/null"))], 1, []⟩

end Sample

theorem metadata_survives_sample :
    (LocalStore.put ⟨["store"]⟩ Sample.oddEntry.key Sample.oddEntry.kind
        Sample.oddEntry.lastUsed).outcome Sample.bareStore =
      (.ok ⟨["store", Sample.oddEntry.key]⟩, Sample.oddStore) ∧
    readMeta Sample.oddStore ⟨["store", Sample.oddEntry.key]⟩ = .ok (some Sample.oddEntry) ∧
    ∃ after, (writeText (Path.child ⟨["store", Sample.oddEntry.key]⟩ metadataName)
        Sample.oddEntry.write).outcome Sample.oddStore = (.ok (), after) ∧
      readMeta after ⟨["store", Sample.oddEntry.key]⟩ = .ok (some Sample.oddEntry) := by
  obtain ⟨-, -, -, hput, hrewrite⟩ := metadata_survives
  have hread : readMeta Sample.oddStore ⟨["store", Sample.oddEntry.key]⟩ =
      .ok (some Sample.oddEntry) :=
    (hput _ _ _ _ _ _ _ Sample.put_oddEntry).mpr Sample.not_leadsToSink_oddStore
  exact ⟨Sample.put_oddEntry, hread, hrewrite _ _ _ hread⟩

/-- Neither is the time of such a leap second read back, nor is anything from a sink. -/
theorem metadata_not_survives :
    EntryMeta.read (EntryMeta.write ⟨"a", .artifact, Sample.strayLeap⟩) =
        .ok ⟨"a", .artifact, Sample.nextSecond⟩ ∧
      EntryMeta.read (EntryMeta.write ⟨"a", .artifact, Sample.strayLeap⟩) ≠
        .ok ⟨"a", .artifact, Sample.strayLeap⟩ ∧
      (LocalStore.put ⟨["store"]⟩ "a" .artifact Sample.nextSecond).outcome Sample.sinkStore =
        (.ok ⟨["store", "a"]⟩, Sample.sinkStore) ∧
      readMeta Sample.sinkStore ⟨["store", "a"]⟩ =
        .error (.metadata ⟨["store", "a", ".entry.json"]⟩ (.misfit .malformed)) := by
  have hread := EntryMeta.read_write ⟨"a", .artifact, Sample.strayLeap⟩
  refine ⟨hread, ?_, rfl, rfl⟩
  rw [hread]
  decide

end CacheUpkeep.Store
