import CacheUpkeep.ConanConf.Basic
import Mathlib.Data.List.Basic
import Mathlib.Data.List.Nodup

/-!
# Entries of conf files

Setting keys is known by the keys that there are then, in order, and by the value of
each.  A conf whose keys are distinct is determined by these.
-/

namespace CacheUpkeep.ConanConf

variable {conf other : ConanConf} {key value k : String} {entries rest : List (String × String)}
  {values : List (String × String)} {e : String × String}

def keys (conf : ConanConf) : List String :=
  conf.entries.map Prod.fst

/-! ## One key -/

theorem keys_setIn (key value : String) (entries : List (String × String)) :
    (setIn key value entries).map Prod.fst =
      if key ∈ entries.map Prod.fst then entries.map Prod.fst
      else entries.map Prod.fst ++ [key] := by
  induction entries with
  | nil => rfl
  | cons e rest ih =>
      obtain ⟨k, v⟩ := e
      by_cases hk : k = key
      · simp [setIn, hk]
      · rw [setIn, if_neg hk, List.map_cons, List.map_cons, ih]
        simp only [List.mem_cons, Ne.symm hk, false_or]
        split <;> rfl

theorem lookup_cons_of_ne {k key : String} (hk : k ≠ key) (value : String)
    (rest : List (String × String)) : ((key, value) :: rest).lookup k = rest.lookup k := by
  rw [List.lookup_cons, beq_false_of_ne hk]

theorem lookup_of_notMem (h : k ∉ entries.map Prod.fst) : entries.lookup k = none := by
  rw [List.lookup_eq_none_iff]
  intro e he
  simp only [bne_iff_ne]
  rintro rfl
  exact h (List.mem_map_of_mem he)

theorem lookup_setIn (key value : String) (entries : List (String × String)) (k : String) :
    (setIn key value entries).lookup k = if k = key then some value else entries.lookup k := by
  induction entries with
  | nil =>
      by_cases hk : k = key
      · simp [setIn, hk]
      · rw [setIn, lookup_cons_of_ne hk, if_neg hk]
  | cons e rest ih =>
      obtain ⟨k', v⟩ := e
      by_cases hset : k' = key
      · subst hset
        by_cases hk : k = k'
        · simp [setIn, hk]
        · rw [setIn, if_pos rfl, lookup_cons_of_ne hk, lookup_cons_of_ne hk, if_neg hk]
      · rw [setIn, if_neg hset]
        by_cases hk : k = k'
        · subst hk
          simp [hset]
        · rw [lookup_cons_of_ne hk, lookup_cons_of_ne hk, ih]

theorem setIn_of_notMem (h : key ∉ entries.map Prod.fst) :
    setIn key value entries = entries ++ [(key, value)] := by
  induction entries with
  | nil => rfl
  | cons e rest ih =>
      obtain ⟨hkey, hrest⟩ : key ≠ e.1 ∧ key ∉ rest.map Prod.fst := by simpa using h
      rw [setIn, if_neg (Ne.symm hkey), ih hrest, List.cons_append]

theorem mem_setIn (h : e ∈ setIn key value entries) : e = (key, value) ∨ e ∈ entries := by
  induction entries with
  | nil => exact .inl (List.mem_singleton.mp h)
  | cons first rest ih =>
      unfold setIn at h
      split at h
      · exact (List.mem_cons.mp h).imp_right (List.mem_cons_of_mem _)
      · rcases List.mem_cons.mp h with rfl | h
        · exact .inr List.mem_cons_self
        · exact (ih h).imp_right (List.mem_cons_of_mem _)

theorem filter_setIn (keep : String → Bool) (hkey : keep key = true) (value : String)
    (entries : List (String × String)) :
    (setIn key value entries).filter (fun e => keep e.1) =
      setIn key value (entries.filter fun e => keep e.1) := by
  induction entries with
  | nil => simp [setIn, hkey]
  | cons e rest ih =>
      obtain ⟨k, v⟩ := e
      by_cases hk : k = key
      · simp [setIn, hk, hkey]
      · cases hkeep : keep k with
        | true => simp [setIn, hk, hkeep, ih]
        | false => simp [setIn, hk, hkeep, ih]

theorem keys_set (conf : ConanConf) (key value : String) :
    (conf.set key value).keys = if key ∈ conf.keys then conf.keys else conf.keys ++ [key] :=
  keys_setIn key value conf.entries

theorem get?_set (conf : ConanConf) (key value k : String) :
    (conf.set key value).get? k = if k = key then some value else conf.get? k :=
  lookup_setIn key value conf.entries k

theorem mem_keys_set : k ∈ (conf.set key value).keys ↔ k = key ∨ k ∈ conf.keys := by
  rw [keys_set]
  split
  · next hmem =>
      refine ⟨.inr, ?_⟩
      rintro (rfl | h)
      · exact hmem
      · exact h
  · simp [or_comm]

theorem nodup_keys_set (h : conf.keys.Nodup) (key value : String) :
    (conf.set key value).keys.Nodup := by
  rw [keys_set]
  split
  · exact h
  · next hnew =>
      rw [← List.concat_eq_append, List.nodup_concat]
      exact ⟨hnew, h⟩

/-! ## Many keys -/

@[simp] theorem setAll_nil (conf : ConanConf) : conf.setAll [] = conf := rfl

@[simp] theorem setAll_cons (conf : ConanConf) (e : String × String)
    (rest : List (String × String)) :
    conf.setAll (e :: rest) = (conf.set e.1 e.2).setAll rest := rfl

theorem get?_setAll (conf : ConanConf) (values : List (String × String)) (k : String) :
    (conf.setAll values).get? k = (values.reverse.lookup k).or (conf.get? k) := by
  induction values generalizing conf with
  | nil => simp
  | cons e rest ih =>
      obtain ⟨key, value⟩ := e
      rw [setAll_cons, ih, get?_set, List.reverse_cons, List.lookup_append]
      by_cases hk : k = key
      · subst hk
        cases rest.reverse.lookup k <;> simp
      · rw [if_neg hk, lookup_cons_of_ne hk, List.lookup_nil, Option.or_none]

theorem mem_keys_setAll :
    k ∈ (conf.setAll values).keys ↔ k ∈ values.map Prod.fst ∨ k ∈ conf.keys := by
  induction values generalizing conf with
  | nil => simp
  | cons e rest ih =>
      rw [setAll_cons, ih, mem_keys_set, List.map_cons, List.mem_cons]
      tauto

theorem nodup_keys_setAll (h : conf.keys.Nodup) (values : List (String × String)) :
    (conf.setAll values).keys.Nodup := by
  induction values generalizing conf with
  | nil => exact h
  | cons e rest ih => exact ih (nodup_keys_set h e.1 e.2)

theorem keys_setAll_of_subset (h : ∀ e ∈ values, e.1 ∈ conf.keys) :
    (conf.setAll values).keys = conf.keys := by
  induction values generalizing conf with
  | nil => rfl
  | cons e rest ih =>
      have hset : (conf.set e.1 e.2).keys = conf.keys := by
        rw [keys_set, if_pos (h e List.mem_cons_self)]
      rw [setAll_cons, ih, hset]
      intro other hother
      rw [hset]
      exact h other (List.mem_cons_of_mem _ hother)

theorem setAll_of_nodup (h : (conf.entries ++ values).map Prod.fst |>.Nodup) :
    conf.setAll values = ⟨conf.entries ++ values⟩ := by
  induction values generalizing conf with
  | nil => simp
  | cons e rest ih =>
      have hnew : e.1 ∉ conf.entries.map Prod.fst := by
        rw [List.map_append, List.nodup_append] at h
        exact fun hmem => h.2.2 e.1 hmem e.1 (by simp) rfl
      have hset : conf.set e.1 e.2 = ⟨conf.entries ++ [e]⟩ := by rw [set, setIn_of_notMem hnew]
      rw [setAll_cons, hset, ih (by simpa using h)]
      simp

theorem filter_setAll (keep : String → Bool) (h : ∀ e ∈ values, keep e.1 = true)
    (conf : ConanConf) :
    (⟨(conf.setAll values).entries.filter fun e => keep e.1⟩ : ConanConf) =
      (⟨conf.entries.filter fun e => keep e.1⟩ : ConanConf).setAll values := by
  induction values generalizing conf with
  | nil => rfl
  | cons e rest ih =>
      rw [setAll_cons, setAll_cons, ih fun other hother => h other (List.mem_cons_of_mem _ hother),
        set, filter_setIn keep (h e List.mem_cons_self)]
      rfl

/-! ## Equality -/

private theorem eq_of_lookup {entries others : List (String × String)}
    (hnodup : (entries.map Prod.fst).Nodup) (hkeys : entries.map Prod.fst = others.map Prod.fst)
    (hvalues : ∀ k, entries.lookup k = others.lookup k) : entries = others := by
  induction entries generalizing others with
  | nil =>
      cases others with
      | nil => rfl
      | cons e rest => cases hkeys
  | cons e rest ih =>
      cases others with
      | nil => cases hkeys
      | cons e' rest' =>
          obtain ⟨key, value⟩ := e
          obtain ⟨key', value'⟩ := e'
          obtain ⟨rfl, hrest⟩ : key = key' ∧ rest.map Prod.fst = rest'.map Prod.fst := by
            simpa using hkeys
          obtain ⟨hnew, hnodup⟩ : key ∉ rest.map Prod.fst ∧ (rest.map Prod.fst).Nodup := by
            simpa using hnodup
          have hvalue : value = value' := by simpa using hvalues key
          rw [hvalue, ih hnodup hrest]
          intro k
          by_cases hk : k = key
          · subst hk
            rw [lookup_of_notMem hnew, lookup_of_notMem (hrest ▸ hnew)]
          · have hvalue := hvalues k
            rwa [lookup_cons_of_ne hk, lookup_cons_of_ne hk] at hvalue

theorem ext_of_get? (hnodup : conf.keys.Nodup) (hkeys : conf.keys = other.keys)
    (hvalues : ∀ k, conf.get? k = other.get? k) : conf = other := by
  obtain ⟨entries⟩ := conf
  obtain ⟨others⟩ := other
  exact congrArg ConanConf.mk (eq_of_lookup hnodup hkeys hvalues)

theorem setAll_setAll (h : conf.keys.Nodup) (values : List (String × String)) :
    (conf.setAll values).setAll values = conf.setAll values := by
  have hthere : ∀ e ∈ values, e.1 ∈ (conf.setAll values).keys := fun e he =>
    mem_keys_setAll.mpr (.inl (List.mem_map_of_mem he))
  refine (ext_of_get? (nodup_keys_setAll h values) ?_ fun k => ?_).symm
  · exact (keys_setAll_of_subset hthere).symm
  · rw [get?_setAll (conf.setAll values), get?_setAll]
    cases values.reverse.lookup k <;> rfl

end CacheUpkeep.ConanConf
