import CacheUpkeep.Config.Settings
import CacheUpkeep.Proofs.Json.Members
import CacheUpkeep.Proofs.Outcome

/-!
# Reading settings

A member of a configuration sets the field of its key and no other one, so the
settings of an object have at a field what is read at its key.
-/

namespace CacheUpkeep.Config.Settings

open CacheUpkeep.Json

variable {α : Type} {key : String} {value : Json} {members : Members} {d d' : Draft}
  {read : Json → Except Misfit α} {field : Draft → Option α} {s : Settings}

inductive Takes (d : Draft) : String × Json → Draft → Prop where
  | retention {value : Json} {window : RetentionWindow}
      (h : RetentionWindow.ofJson value = .ok window) :
      Takes d ("retention", value) { d with retention := some window }
  | lockTimeout {value : Json} {seconds : Nat} (h : naturalOf value = .ok seconds) :
      Takes d ("lock_timeout_seconds", value) { d with lockTimeout := some seconds }
  | cacheBase {value : Json} {path : Option Path} (h : pathOf value = .ok path) :
      Takes d ("cache_base", value) { d with cacheBase := path }
  | ctcacheDir {value : Json} {path : Option Path} (h : pathOf value = .ok path) :
      Takes d ("ctcache_dir", value) { d with ctcacheDir := path }
  | conanHome {value : Json} {path : Option Path} (h : pathOf value = .ok path) :
      Takes d ("conan_home", value) { d with conanHome := path }
  | tools {value : Json} {tools : ToolSettings} (h : toolsOf value = .ok tools) :
      Takes d ("tools", value) { d with tools := some tools }
  | doctor {value : Json} {doctor : DoctorSettings} (h : doctorOf value = .ok doctor) :
      Takes d ("doctor", value) { d with doctor := some doctor }
  | unknown {key : String} {value : Json}
      (h : key ∉ ["retention", "lock_timeout_seconds", "cache_base", "ctcache_dir", "conan_home",
        "tools", "doctor"]) :
      Takes d (key, value) d

theorem takes_of_member {m : String × Json} (h : member d m = .ok d') : Takes d m d' := by
  unfold member at h
  split at h
  · obtain ⟨window, hread, rfl⟩ := map_eq_ok h
    exact .retention hread
  · obtain ⟨seconds, hread, rfl⟩ := map_eq_ok h
    exact .lockTimeout hread
  · obtain ⟨path, hread, rfl⟩ := map_eq_ok h
    exact .cacheBase hread
  · obtain ⟨path, hread, rfl⟩ := map_eq_ok h
    exact .ctcacheDir hread
  · obtain ⟨path, hread, rfl⟩ := map_eq_ok h
    exact .conanHome hread
  · obtain ⟨tools, hread, rfl⟩ := map_eq_ok h
    exact .tools hread
  · obtain ⟨doctor, hread, rfl⟩ := map_eq_ok h
    exact .doctor hread
  · cases h
    obtain ⟨key, value⟩ := m
    refine .unknown fun hknown => ?_
    simp only [List.mem_cons, List.not_mem_nil, or_false] at hknown
    rcases hknown with rfl | rfl | rfl | rfl | rfl | rfl | rfl <;> simp_all

/-- A field of the draft that one key sets and no other key changes. -/
structure IsField (key : String) (read : Json → Except Misfit α) (field : Draft → Option α) :
    Prop where
  sets : ∀ {d m d'}, Takes d m d' → m.1 = key → ∃ a, read m.2 = .ok a ∧ field d' = some a
  keeps : ∀ {d m d'}, Takes d m d' → m.1 ≠ key → field d' = field d

theorem isField_retention : IsField "retention" RetentionWindow.ofJson Draft.retention where
  sets h hkey := by
    cases h with
    | retention hread => exact ⟨_, hread, rfl⟩
    | unknown hunknown =>
        subst hkey
        simp at hunknown
    | _ => simp at hkey
  keeps h hkey := by
    cases h with
    | retention hread => exact absurd rfl hkey
    | _ => rfl

theorem isField_lockTimeout : IsField "lock_timeout_seconds" naturalOf Draft.lockTimeout where
  sets h hkey := by
    cases h with
    | lockTimeout hread => exact ⟨_, hread, rfl⟩
    | unknown hunknown =>
        subst hkey
        simp at hunknown
    | _ => simp at hkey
  keeps h hkey := by
    cases h with
    | lockTimeout hread => exact absurd rfl hkey
    | _ => rfl

theorem bind_eq_ok {ε β : Type} {x : Except ε α} {f : α → Except ε β} {b : β}
    (h : (x >>= f) = .ok b) : ∃ a, x = .ok a ∧ f a = .ok b := by
  cases x with
  | error e => cases h
  | ok a => exact ⟨a, rfl, h⟩

theorem IsField.keeps_all (hfield : IsField key read field) (hkey : key ∉ members.map Prod.fst)
    (h : members.foldlM member d = .ok d') : field d' = field d := by
  induction members generalizing d with
  | nil =>
      cases h
      rfl
  | cons m rest ih =>
      rw [List.map_cons, List.mem_cons, not_or] at hkey
      rw [List.foldlM_cons] at h
      obtain ⟨mid, hfirst, hrest⟩ := bind_eq_ok h
      rw [ih hkey.2 hrest, hfield.keeps (takes_of_member hfirst) (Ne.symm hkey.1)]

theorem IsField.sets_of_member? (hfield : IsField key read field)
    (hnodup : (members.map Prod.fst).Nodup) (hvalue : member? key members = some value)
    (h : members.foldlM member d = .ok d') : ∃ a, read value = .ok a ∧ field d' = some a := by
  induction members generalizing d with
  | nil => cases hvalue
  | cons m rest ih =>
      obtain ⟨other, first⟩ := m
      obtain ⟨hfirst, hrest⟩ := List.nodup_cons.mp hnodup
      rw [member?_cons] at hvalue
      rw [List.foldlM_cons] at h
      obtain ⟨mid, hmember, hmembers⟩ := bind_eq_ok h
      split at hvalue
      · next heq =>
          cases hvalue
          subst heq
          obtain ⟨a, hread, hmid⟩ := hfield.sets (takes_of_member hmember) rfl
          exact ⟨a, hread, by rw [hfield.keeps_all hfirst hmembers, hmid]⟩
      · exact ih hrest hvalue hmembers

theorem required_eq_ok {name : String} {a : α} {found : Option α}
    (h : required name found = .ok a) : found = some a := by
  cases found with
  | none => cases h
  | some b =>
      cases h
      rfl

theorem finish_eq_ok (h : finish d = .ok s) :
    d.retention = some s.retention ∧ d.lockTimeout = some s.lockTimeout := by
  obtain ⟨retention, hretention, h⟩ := bind_eq_ok h
  obtain ⟨lockTimeout, hlockTimeout, h⟩ := bind_eq_ok h
  obtain ⟨tools, -, h⟩ := bind_eq_ok h
  obtain ⟨doctor, -, h⟩ := bind_eq_ok h
  cases h
  exact ⟨required_eq_ok hretention, required_eq_ok hlockTimeout⟩

@[simp] theorem naturalOf_natural (n : Nat) : naturalOf (.natural n) = .ok n := by
  simp [naturalOf, natural]

theorem ofJson_object_eq_ok {window timeout : Json} (hnodup : (members.map Prod.fst).Nodup)
    (hwindow : member? "retention" members = some window)
    (htimeout : member? "lock_timeout_seconds" members = some timeout)
    (h : ofJson (.object members) = .ok s) :
    RetentionWindow.ofJson window = .ok s.retention ∧ naturalOf timeout = .ok s.lockTimeout := by
  obtain ⟨d, hfold, hfinish⟩ := bind_eq_ok h
  obtain ⟨w, hw, hdw⟩ := isField_retention.sets_of_member? hnodup hwindow hfold
  obtain ⟨n, hn, hdn⟩ := isField_lockTimeout.sets_of_member? hnodup htimeout hfold
  obtain ⟨hretention, hlockTimeout⟩ := finish_eq_ok hfinish
  rw [hdw] at hretention
  rw [hdn] at hlockTimeout
  cases hretention
  cases hlockTimeout
  exact ⟨hw, hn⟩

end CacheUpkeep.Config.Settings
