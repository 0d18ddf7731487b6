import CacheUpkeep.CommandLine.Run
import CacheUpkeep.Proofs.Config.Precedence
import CacheUpkeep.Proofs.Config.Settings
import CacheUpkeep.Proofs.Retention
import Mathlib.Data.List.Forall2

/-!
# Flags over configuration files

The flags for the retention window and for the lock timeout are the top layer, so
what the files below say about the two never shows, be it valid or not.  The settings
are read from the merged layers, and those are the same whatever it was.
-/

namespace CacheUpkeep.Config

open CacheUpkeep.Calendar CacheUpkeep.CommandLine CacheUpkeep.Json

def flagKeys : List String :=
  ["lock_timeout_seconds", "retention"]

def flagMembers (window : RetentionWindow) (seconds : Nat) : Members :=
  [("lock_timeout_seconds", .natural seconds), ("retention", .string window.text)]

/-- Two objects that differ at the keys of the flags only. -/
inductive AgreeBesideFlags : Json → Json → Prop where
  | intro {members members' : Members} (nodup : (members.map Prod.fst).Nodup)
      (nodup' : (members'.map Prod.fst).Nodup)
      (same : ∀ key ∉ flagKeys, member? key members = member? key members') :
      AgreeBesideFlags (.object members) (.object members')

variable {members members' overlay overlay' : Members} {layers layers' : List Json}
  {o : Options} {window : RetentionWindow} {seconds : Nat} {now : Instant}
  {fs : FileSystem} {host project : Option Path} {cli : Option Json}
  {hosts hosts' projects projects' : List (Json × Source)}

/-! ## The merged layers -/

theorem areSorted_mergeMembers (h : AreSorted members) (overlay : Members) :
    AreSorted (mergeMembers members overlay) := by
  induction overlay generalizing members with
  | nil => exact h
  | cons member rest ih =>
      obtain ⟨key, value⟩ := member
      rw [mergeMembers]
      exact ih (h.insert key _)

theorem member?_mergeMembers_congr {key : String} (hnodup : (overlay.map Prod.fst).Nodup)
    (hnodup' : (overlay'.map Prod.fst).Nodup)
    (hbelow : member? key members = member? key members')
    (hoverlay : member? key overlay = member? key overlay') :
    member? key (mergeMembers members overlay) = member? key (mergeMembers members' overlay') := by
  rw [member?_mergeMembers hnodup, member?_mergeMembers hnodup', hbelow, hoverlay]

theorem foldl_merge_agree (hlayers : List.Forall₂ AgreeBesideFlags layers layers')
    (hsorted : AreSorted members) (hsorted' : AreSorted members')
    (hsame : ∀ key ∉ flagKeys, member? key members = member? key members') :
    ∃ merged merged', layers.foldl merge (.object members) = .object merged ∧
      layers'.foldl merge (.object members') = .object merged' ∧ AreSorted merged ∧
      AreSorted merged' ∧ ∀ key ∉ flagKeys, member? key merged = member? key merged' := by
  induction hlayers generalizing members members' with
  | nil => exact ⟨members, members', rfl, rfl, hsorted, hsorted', hsame⟩
  | cons hlayer hrest ih =>
      cases hlayer with
      | intro nodup nodup' same =>
          rw [List.foldl_cons, List.foldl_cons, merge_object, merge_object]
          exact ih (areSorted_mergeMembers hsorted _) (areSorted_mergeMembers hsorted' _)
            fun key hkey => member?_mergeMembers_congr nodup nodup' (hsame key hkey) (same key hkey)

theorem nodup_flagMembers (window : RetentionWindow) (seconds : Nat) :
    ((flagMembers window seconds).map Prod.fst).Nodup := by
  simp [flagMembers]

theorem member?_merge_flagMembers {key : String} (hkey : key ∈ flagKeys) (members : Members) :
    member? key (mergeMembers members (flagMembers window seconds)) =
      member? key (flagMembers window seconds) := by
  rw [member?_mergeMembers (nodup_flagMembers window seconds)]
  have hflags : key = "lock_timeout_seconds" ∨ key = "retention" := by simpa [flagKeys] using hkey
  rcases hflags with rfl | rfl <;> cases member? _ members <;>
    simp [flagMembers, member?_cons, natural, merge]

theorem areSorted_builtinLayer : ∃ members, Settings.builtinLayer = .object members ∧
    AreSorted members :=
  ⟨_, rfl, by decide⟩

theorem mergeLayers_flags (window : RetentionWindow) (seconds : Nat)
    (hlayers : List.Forall₂ AgreeBesideFlags layers layers') :
    ∃ merged, AreSorted merged ∧
      member? "retention" merged = some (.string window.text) ∧
      member? "lock_timeout_seconds" merged = some (.natural seconds) ∧
      mergeLayers (Settings.builtinLayer :: (layers ++ [.object (flagMembers window seconds)])) =
        .object merged ∧
      mergeLayers (Settings.builtinLayer :: (layers' ++ [.object (flagMembers window seconds)])) =
        .object merged := by
  obtain ⟨builtin, hbuiltin, hsorted⟩ := areSorted_builtinLayer
  obtain ⟨below, below', hbelow, hbelow', hsorted, hsorted', hsame⟩ :=
    foldl_merge_agree hlayers hsorted hsorted fun _ _ => rfl
  have hmerged : mergeMembers below' (flagMembers window seconds) =
      mergeMembers below (flagMembers window seconds) := by
    refine (areSorted_mergeMembers hsorted' _).ext (areSorted_mergeMembers hsorted _) fun key => ?_
    by_cases hkey : key ∈ flagKeys
    · rw [member?_merge_flagMembers hkey, member?_merge_flagMembers hkey]
    · exact member?_mergeMembers_congr (nodup_flagMembers window seconds)
        (nodup_flagMembers window seconds) (hsame key hkey).symm rfl
  refine ⟨mergeMembers below (flagMembers window seconds), areSorted_mergeMembers hsorted _,
    ?_, ?_, ?_, ?_⟩
  · rw [member?_merge_flagMembers (by simp [flagKeys])]
    rfl
  · rw [member?_merge_flagMembers (by simp [flagKeys])]
    rfl
  · rw [mergeLayers, List.foldl_cons, merge_of_not_isObject_left _ rfl, List.foldl_append, hbuiltin,
      hbelow, List.foldl_cons, List.foldl_nil, merge_object]
  · rw [mergeLayers, List.foldl_cons, merge_of_not_isObject_left _ rfl, List.foldl_append, hbuiltin,
      hbelow', List.foldl_cons, List.foldl_nil, merge_object, hmerged]

/-! ## The build -/

theorem optionLayer_flags (hwindow : o.retention = some window)
    (hseconds : o.lockTimeout = some seconds) :
    optionLayer o = some (.object (flagMembers window seconds)) := by
  simp [optionLayer, hwindow, hseconds, flagMembers]

def stacked (hosts projects : List (Json × Source)) (cli : Option Json) : List (Json × Source) :=
  (Settings.builtinLayer, ⟨.builtin, none⟩) :: (hosts ++ projects ++
    (cli.map fun value => (value, ⟨.cli, none⟩)).toList)

theorem build_eq (hhost : EffectiveConfig.fileLayer fs .host host = .ok hosts)
    (hproject : EffectiveConfig.fileLayer fs .project project = .ok projects) (cli : Option Json)
    (now : Instant) :
    EffectiveConfig.build fs host project cli now =
      EffectiveConfig.ofLayers (stacked hosts projects cli) now := by
  unfold EffectiveConfig.build stacked
  rw [hhost, hproject]
  cases cli <;> simp [bind, Except.bind]

theorem stacked_flags (hosts projects : List (Json × Source)) (window : RetentionWindow)
    (seconds : Nat) :
    (stacked hosts projects (some (.object (flagMembers window seconds)))).map Prod.fst =
      Settings.builtinLayer :: ((hosts ++ projects).map Prod.fst ++
        [.object (flagMembers window seconds)]) := by
  simp [stacked]

theorem ofLayers_eq (layers : List (Json × Source)) (now : Instant) :
    EffectiveConfig.ofLayers layers now =
      match Settings.ofJson (mergeLayers (layers.map Prod.fst)) with
      | .ok _ => .ok ⟨now, mergeLayers (layers.map Prod.fst), layers.map Prod.snd⟩
      | .error m => .error (.invalid m) := by
  unfold EffectiveConfig.ofLayers EffectiveConfig.settings
  dsimp only
  cases Settings.ofJson (mergeLayers (layers.map Prod.fst)) <;> rfl

theorem settings_of_ofLayers {layers : List (Json × Source)} {c : EffectiveConfig}
    (h : EffectiveConfig.ofLayers layers now = .ok c) :
    ∃ s, Settings.ofJson (mergeLayers (layers.map Prod.fst)) = .ok s ∧ c.settings = .ok s := by
  rw [ofLayers_eq] at h
  cases hread : Settings.ofJson (mergeLayers (layers.map Prod.fst)) with
  | error m =>
      rw [hread] at h
      cases h
  | ok s =>
      rw [hread] at h
      cases h
      exact ⟨s, rfl, by rw [EffectiveConfig.settings, hread]⟩

/--
With both flags given a configuration has the window and the timeout of the flags, and
what the files say about the two changes neither its failure nor its values.
-/
theorem flags_shield (hosts hosts' projects projects' : List (Json × Source))
    (hwindow : o.retention = some window) (hpos : 1 ≤ window.amount)
    (hseconds : o.lockTimeout = some seconds)
    (hhosts : List.Forall₂ AgreeBesideFlags (hosts.map Prod.fst) (hosts'.map Prod.fst))
    (hprojects : List.Forall₂ AgreeBesideFlags (projects.map Prod.fst) (projects'.map Prod.fst))
    (now : Instant) :
    (∀ c, EffectiveConfig.ofLayers (stacked hosts projects (optionLayer o)) now = .ok c →
      ∃ s, c.settings = .ok s ∧ s.retention = window ∧ s.lockWait = .ofSeconds seconds) ∧
    (EffectiveConfig.ofLayers (stacked hosts projects (optionLayer o)) now).map
        (fun c => (c.config, c.settings)) =
      (EffectiveConfig.ofLayers (stacked hosts' projects' (optionLayer o)) now).map
        (fun c => (c.config, c.settings)) ∧
    ∀ fs host project hosts projects, EffectiveConfig.fileLayer fs .host host = .ok hosts →
      EffectiveConfig.fileLayer fs .project project = .ok projects →
      EffectiveConfig.build fs host project (optionLayer o) now =
        EffectiveConfig.ofLayers (stacked hosts projects (optionLayer o)) now := by
  have hlayers : List.Forall₂ AgreeBesideFlags ((hosts ++ projects).map Prod.fst)
      ((hosts' ++ projects').map Prod.fst) := by
    simpa using List.rel_append hhosts hprojects
  obtain ⟨merged, hsorted, hat, hat', hmerge, hmerge'⟩ :=
    mergeLayers_flags window seconds hlayers
  rw [← stacked_flags] at hmerge hmerge'
  rw [optionLayer_flags hwindow hseconds]
  refine ⟨fun c hc => ?_, ?_, fun fs host project _ _ hhost hproject =>
    build_eq hhost hproject _ now⟩
  · obtain ⟨s, hread, hsettings⟩ := settings_of_ofLayers hc
    rw [hmerge] at hread
    obtain ⟨hretention, htimeout⟩ := Settings.ofJson_object_eq_ok hsorted.nodup hat hat' hread
    rw [RetentionWindow.ofJson_text hpos] at hretention
    rw [Settings.naturalOf_natural] at htimeout
    exact ⟨s, hsettings, (Except.ok.inj hretention).symm, by
      rw [Settings.lockWait, ← Except.ok.inj htimeout]⟩
  · rw [ofLayers_eq, ofLayers_eq, hmerge, hmerge']
    cases Settings.ofJson (.object merged) <;> rfl

namespace Sample

def clock : Instant :=
  ⟨⟨2025, 3, 1, by decide⟩, 3600, 0, by decide⟩

def threeDays : RetentionWindow :=
  ⟨3, .days, by decide⟩

def flags : Options where
  config := none
  retention := some threeDays
  lockTimeout := some 30
  logLevel := none

def hostLayer : Json × Source :=
  (.object [("cache_base", .string "/mnt"), ("retention", .object [])], ⟨.host, none⟩)

def otherHostLayer : Json × Source :=
  (.object [("cache_base", .string "/mnt"), ("lock_timeout_seconds", .string "soon")],
    ⟨.host, none⟩)

theorem agreeBesideFlags : AgreeBesideFlags hostLayer.1 otherHostLayer.1 := by
  refine .intro (by decide) (by decide) fun key hkey => ?_
  simp only [flagKeys, List.mem_cons, List.not_mem_nil, or_false, not_or] at hkey
  simp [member?_cons, hkey.1, hkey.2]

theorem ofJson_merged : (Settings.ofJson (mergeLayers ((stacked [hostLayer] []
    (optionLayer flags)).map Prod.fst))).toOption.isSome = true := by
  decide +kernel

theorem exists_ofLayers :
    ∃ c, EffectiveConfig.ofLayers (stacked [hostLayer] [] (optionLayer flags)) clock = .ok c := by
  have hread := ofJson_merged
  rw [ofLayers_eq]
  cases hsettings : Settings.ofJson (mergeLayers ((stacked [hostLayer] []
      (optionLayer flags)).map Prod.fst)) with
  | error m =>
      rw [hsettings] at hread
      cases hread
  | ok s => exact ⟨_, rfl⟩

end Sample

/-- A window of three days over host files that could not be read on their own. -/
theorem flags_shield_sample :
    (Sample.flags.retention = some Sample.threeDays ∧ 1 ≤ Sample.threeDays.amount ∧
      Sample.flags.lockTimeout = some 30 ∧
      List.Forall₂ AgreeBesideFlags [Sample.hostLayer.1] [Sample.otherHostLayer.1]) ∧
    (∃ c s, EffectiveConfig.ofLayers
        (stacked [Sample.hostLayer] [] (optionLayer Sample.flags)) Sample.clock = .ok c ∧
      c.settings = .ok s ∧ s.retention = Sample.threeDays ∧ s.lockWait = .ofSeconds 30) ∧
    (EffectiveConfig.ofLayers (stacked [Sample.hostLayer] [] (optionLayer Sample.flags))
        Sample.clock).map (fun c => (c.config, c.settings)) =
      (EffectiveConfig.ofLayers (stacked [Sample.otherHostLayer] [] (optionLayer Sample.flags))
        Sample.clock).map (fun c => (c.config, c.settings)) := by
  have hhosts : List.Forall₂ AgreeBesideFlags [Sample.hostLayer.1] [Sample.otherHostLayer.1] :=
    .cons Sample.agreeBesideFlags .nil
  have hwindow : Sample.flags.retention = some Sample.threeDays := rfl
  have hseconds : Sample.flags.lockTimeout = some 30 := rfl
  obtain ⟨hsettings, hsame, -⟩ := flags_shield [Sample.hostLayer] [Sample.otherHostLayer] [] []
    hwindow (by decide) hseconds hhosts .nil Sample.clock
  obtain ⟨c, hc⟩ := Sample.exists_ofLayers
  obtain ⟨s, hs, hretention, hwait⟩ := hsettings c hc
  exact ⟨⟨rfl, by decide, rfl, hhosts⟩, ⟨c, s, hc, hs, hretention, hwait⟩, hsame⟩

end CacheUpkeep.Config
