import CacheUpkeep.Config.Layer
import CacheUpkeep.Proofs.Json.Members

/-!
# Precedence of layers

What stands at a path of keys in merged layers: the value of the last layer that has
one there, unless a still later layer has something at the path, or something other
than an object on the way to it.
-/

namespace CacheUpkeep.Config

open CacheUpkeep.Json

variable {base overlay layer value : Json} {layers : List Json} {path : List String} {key : String}
  {members : Members}

/--
A layer decides what stands at a path: it has a value there, or it ends on the way
with a value that is no object.
-/
def Decides (layer : Json) (path : List String) : Prop :=
  (∃ value, layer.at? path = some value) ∨
    ∃ above value, above <+: path ∧ above ≠ path ∧ layer.at? above = some value ∧
      value.isObject = false

theorem decides_nil (layer : Json) : Decides layer [] :=
  .inl ⟨layer, rfl⟩

theorem decides_of_not_isObject (h : layer.isObject = false) (path : List String) :
    Decides layer path := by
  by_cases hpath : path = []
  · exact hpath ▸ decides_nil layer
  · exact .inr ⟨[], layer, List.nil_prefix, Ne.symm hpath, rfl, h⟩

theorem decides_cons_iff : Decides (.object members) (key :: path) ↔
    ∃ value, member? key members = some value ∧ Decides value path := by
  constructor
  · rintro (⟨value, hvalue⟩ | ⟨above, value, hpre, hne, hvalue, hobject⟩)
    · obtain ⟨below, hbelow, hat⟩ := Option.bind_eq_some_iff.mp hvalue
      exact ⟨below, hbelow, .inl ⟨value, hat⟩⟩
    · cases above with
      | nil =>
          cases hvalue
          cases hobject
      | cons first above =>
          obtain ⟨rfl, hrest⟩ := List.cons_prefix_cons.mp hpre
          obtain ⟨below, hbelow, hat⟩ := Option.bind_eq_some_iff.mp hvalue
          refine ⟨below, hbelow, .inr ⟨above, value, hrest, ?_, hat, hobject⟩⟩
          rintro rfl
          exact hne rfl
  · rintro ⟨below, hbelow, ⟨value, hvalue⟩ | ⟨above, value, hpre, hne, hvalue, hobject⟩⟩
    · exact .inl ⟨value, Option.bind_eq_some_iff.mpr ⟨below, hbelow, hvalue⟩⟩
    · exact .inr ⟨key :: above, value, List.cons_prefix_cons.mpr ⟨rfl, hpre⟩, by simpa using hne,
        Option.bind_eq_some_iff.mpr ⟨below, hbelow, hvalue⟩, hobject⟩

/-! ## Two layers -/

@[simp] theorem merge_object (members overlay : Members) :
    merge (.object members) (.object overlay) = .object (mergeMembers members overlay) := by
  simp only [merge]

theorem merge_of_not_isObject_right (base : Json) (h : overlay.isObject = false) :
    merge base overlay = overlay := by
  cases overlay <;> first | rfl | cases h

theorem merge_of_not_isObject_left (overlay : Json) (h : base.isObject = false) :
    merge base overlay = overlay := by
  cases overlay with
  | object members => cases base <;> first | rfl | cases h
  | _ => rfl

theorem member?_mergeMembers {overlay : Members} (hnodup : (overlay.map Prod.fst).Nodup)
    (key : String) (members : Members) :
    member? key (mergeMembers members overlay) =
      match member? key overlay with
      | some value =>
          match member? key members with
          | some below => some (merge below value)
          | none => some value
      | none => member? key members := by
  induction overlay generalizing members with
  | nil => simp [mergeMembers]
  | cons member rest ih =>
      obtain ⟨first, value⟩ := member
      obtain ⟨hfirst, hrest⟩ := List.nodup_cons.mp hnodup
      rw [mergeMembers, ih hrest, member?_insert, member?_cons]
      by_cases hkey : key = first
      · subst hkey
        rw [member?_eq_none_iff.mpr hfirst, if_pos rfl, if_pos rfl]
        cases member? key members <;> rfl
      · rw [if_neg hkey, if_neg hkey]

theorem isObject_merge (base : Json) (h : overlay.isObject = true) :
    (merge base overlay).isObject = true := by
  obtain ⟨members, rfl⟩ := isObject_iff.mp h
  cases base <;> rfl

/-- A value at a path comes from the overlay, or from below where the overlay decides nothing. -/
theorem at?_merge_iff (hoverlay : overlay.HasDistinctKeys) (hvalue : value.isObject = false) :
    (merge base overlay).at? path = some value ↔
      overlay.at? path = some value ∨ base.at? path = some value ∧ ¬ Decides overlay path := by
  induction path generalizing base overlay with
  | nil =>
      have hdecides := decides_nil overlay
      simp only [at?_nil, Option.some.injEq, hdecides, not_true, and_false, or_false]
      cases hobject : overlay.isObject with
      | false => rw [merge_of_not_isObject_right base hobject]
      | true =>
          have hmerged := isObject_merge base hobject
          constructor
          · rintro rfl
            rw [hvalue] at hmerged
            cases hmerged
          · rintro rfl
            rw [hvalue] at hobject
            cases hobject
  | cons key rest ih =>
      cases hobject : overlay.isObject with
      | false =>
          have hdecides := decides_of_not_isObject hobject (key :: rest)
          rw [merge_of_not_isObject_right base hobject, or_iff_left (fun h => h.2 hdecides)]
      | true =>
          obtain ⟨members, rfl⟩ := isObject_iff.mp hobject
          cases hbase : base.isObject with
          | false =>
              rw [merge_of_not_isObject_left _ hbase, at?_cons_of_not_isObject hbase]
              simp
          | true =>
              obtain ⟨under, rfl⟩ := isObject_iff.mp hbase
              rw [merge_object, at?_object, member?_mergeMembers hoverlay.nodup, decides_cons_iff,
                at?_object, at?_object]
              cases hmember : member? key members with
              | none => simp
              | some above =>
                  cases member? key under with
                  | none => simp
                  | some below =>
                      have hmerged : (merge below above).at? rest = some value ↔ _ :=
                        ih (hoverlay.member? hmember)
                      simpa using hmerged

/-! ## All layers -/

theorem at?_foldl_merge_iff (hlayers : ∀ layer ∈ layers, layer.HasDistinctKeys)
    (hvalue : value.isObject = false) :
    (layers.foldl merge base).at? path = some value ↔
      (∃ before layer after, layers = before ++ layer :: after ∧ layer.at? path = some value ∧
        ∀ later ∈ after, ¬ Decides later path) ∨
      base.at? path = some value ∧ ∀ later ∈ layers, ¬ Decides later path := by
  induction layers generalizing base with
  | nil => simp
  | cons layer rest ih =>
      rw [List.foldl_cons, ih fun later hlater => hlayers later (List.mem_cons_of_mem _ hlater),
        at?_merge_iff (hlayers layer List.mem_cons_self) hvalue]
      constructor
      · rintro (⟨before, last, after, rfl, hlast, hafter⟩ | ⟨hlayer | ⟨hbase, hfirst⟩, hrest⟩)
        · exact .inl ⟨layer :: before, last, after, rfl, hlast, hafter⟩
        · exact .inl ⟨[], layer, rest, rfl, hlayer, hrest⟩
        · exact .inr ⟨hbase, List.forall_mem_cons.mpr ⟨hfirst, hrest⟩⟩
      · rintro (⟨before, last, after, heq, hlast, hafter⟩ | ⟨hbase, hall⟩)
        · cases before with
          | nil =>
              cases heq
              exact .inr ⟨.inl hlast, hafter⟩
          | cons first before =>
              cases heq
              exact .inl ⟨before, last, after, rfl, hlast, hafter⟩
        · obtain ⟨hfirst, hrest⟩ := List.forall_mem_cons.mp hall
          exact .inr ⟨.inr ⟨hbase, hfirst⟩, hrest⟩

theorem decides_of_at? (h : layer.at? path = some value) : Decides layer path :=
  .inl ⟨value, h⟩

theorem mergeLayers_append_of_decides {before after : List Json}
    (hafter : ∀ layer ∈ after, layer.HasDistinctKeys) (hvalue : value.isObject = false)
    (hdecides : ∃ later ∈ after, Decides later path) :
    (mergeLayers (before ++ after)).at? path = some value ↔
      (mergeLayers after).at? path = some value := by
  obtain ⟨later, hlater, hpath⟩ := hdecides
  rw [mergeLayers, List.foldl_append, mergeLayers, at?_foldl_merge_iff hafter hvalue,
    at?_foldl_merge_iff hafter hvalue, or_iff_left (fun h => h.2 later hlater hpath),
    or_iff_left (fun h => h.2 later hlater hpath)]

theorem mergeLayers_append_of_not_decides {before after : List Json}
    (hafter : ∀ layer ∈ after, layer.HasDistinctKeys) (hvalue : value.isObject = false)
    (hdecides : ∀ later ∈ after, ¬ Decides later path) :
    (mergeLayers (before ++ after)).at? path = some value ↔
      (mergeLayers before).at? path = some value := by
  rw [mergeLayers, List.foldl_append, at?_foldl_merge_iff hafter hvalue, mergeLayers,
    or_iff_right, and_iff_left hdecides]
  rintro ⟨first, layer, rest, rfl, hlayer, -⟩
  exact hdecides layer (by simp) (decides_of_at? hlayer)

theorem at?_mergeLayers_iff (hne : layers ≠ []) (hlayers : ∀ layer ∈ layers, layer.HasDistinctKeys)
    (path : List String) (hvalue : value.isObject = false) :
    (mergeLayers layers).at? path = some value ↔
      ∃ before layer after, layers = before ++ layer :: after ∧ layer.at? path = some value ∧
        ∀ later ∈ after, ¬ Decides later path := by
  rw [mergeLayers, at?_foldl_merge_iff hlayers hvalue, or_iff_left]
  -- The merge starts from null, which has something at the empty path only.
  rintro ⟨hnull, hall⟩
  cases path with
  | nil =>
      obtain ⟨layer, rest, rfl⟩ := List.exists_cons_of_ne_nil hne
      exact hall layer List.mem_cons_self (decides_nil layer)
  | cons key rest => cases hnull

/--
Merged layers have a value that is no object at a path exactly if one of the layers
has it there and no later layer decides about the path.  So layers that decide about a
path discard what is below them, and layers that do not keep it.
-/
theorem mergeLayers_at?_iff (hne : layers ≠ []) (hlayers : ∀ layer ∈ layers, layer.HasDistinctKeys)
    (path : List String) (hvalue : value.isObject = false) :
    ((mergeLayers layers).at? path = some value ↔
      ∃ before layer after, layers = before ++ layer :: after ∧ layer.at? path = some value ∧
        ∀ later ∈ after, ¬ Decides later path) ∧
    ∀ before after, layers = before ++ after →
      ((∃ later ∈ after, Decides later path) →
        ((mergeLayers layers).at? path = some value ↔
          (mergeLayers after).at? path = some value)) ∧
      ((∀ later ∈ after, ¬ Decides later path) →
        ((mergeLayers layers).at? path = some value ↔
          (mergeLayers before).at? path = some value)) := by
  refine ⟨at?_mergeLayers_iff hne hlayers path hvalue, ?_⟩
  rintro before after rfl
  have hafter : ∀ layer ∈ after, layer.HasDistinctKeys := fun layer hlayer =>
    hlayers layer (List.mem_append_right before hlayer)
  exact ⟨mergeLayers_append_of_decides hafter hvalue,
    mergeLayers_append_of_not_decides hafter hvalue⟩

def Sample.stack : List Json :=
  [.object [("a", .object [("b", .natural 1), ("c", .natural 2)])],
    .object [("a", .null)],
    .object [("a", .object [("c", .natural 3)])],
    .object [("d", .bool true)]]

theorem Sample.hasDistinctKeys : ∀ layer ∈ Sample.stack, layer.HasDistinctKeys := by
  have hnatural : ∀ n, HasDistinctKeys (.natural n) := fun n => .number _
  simp only [Sample.stack, List.forall_mem_cons, List.not_mem_nil, false_implies, implies_true,
    and_true]
  refine ⟨.object (by simp) ?_, .object (by simp) ?_, .object (by simp) ?_, .object (by simp) ?_⟩
  · have hfirst : HasDistinctKeys (.object [("b", .natural 1), ("c", .natural 2)]) :=
      .object (by decide) (by simp [hnatural])
    simpa using hfirst
  · simpa using HasDistinctKeys.null
  · have hthird : HasDistinctKeys (.object [("c", .natural 3)]) :=
      .object (by simp) (by simp [hnatural])
    simpa using hthird
  · simpa using HasDistinctKeys.bool true

/-- What the third layer has is kept by the last one, and what the first one had is gone. -/
theorem mergeLayers_at?_iff_sample :
    (Sample.stack ≠ [] ∧ (∀ layer ∈ Sample.stack, layer.HasDistinctKeys) ∧
      (Json.natural 3).isObject = false) ∧
    (∃ before layer after, Sample.stack = before ++ layer :: after ∧
      layer.at? ["a", "c"] = some (.natural 3) ∧ ∀ later ∈ after, ¬ Decides later ["a", "c"]) ∧
    ¬ ∃ before layer after, Sample.stack = before ++ layer :: after ∧
      layer.at? ["a", "b"] = some (.natural 1) ∧ ∀ later ∈ after, ¬ Decides later ["a", "b"] := by
  have hne : Sample.stack ≠ [] := by simp [Sample.stack]
  refine ⟨⟨hne, Sample.hasDistinctKeys, rfl⟩, ?_, ?_⟩
  · exact (mergeLayers_at?_iff hne Sample.hasDistinctKeys ["a", "c"] rfl).1.mp rfl
  · rw [← (mergeLayers_at?_iff hne Sample.hasDistinctKeys ["a", "b"] rfl).1]
    intro h
    cases h

end CacheUpkeep.Config
