import CacheUpkeep.Proofs.Command.Calls
import CacheUpkeep.Prune.Conan

/-!
# Commands of a Conan prune

A prune of a storage directory cleans it, which has no dry run, then removes binaries
and then recipes that were not used within the window.
-/

namespace CacheUpkeep.Prune

def conanCommand (program : String) (dir : Path) (args : List String) : Command where
  program := program
  args := args ++ ["--core-conf=core.cache:storage_path=" ++ dir.text]
  env := []

def conanClean (program : String) (dir : Path) : Command :=
  conanCommand program dir ["cache", "clean", "*"]

def conanRemove (program : String) (dir : Path) (policy : Policy) (pattern : String) : Command :=
  conanCommand program dir
    (["remove", pattern, "-c", "--lru=" ++ policy.window.text] ++
      if policy.dryRun then ["--dry-run"] else [])

def conanCommands (program : String) (dir : Path) (policy : Policy) : List Command :=
  (if policy.dryRun then [] else [conanClean program dir]) ++
    [conanRemove program dir policy "*:*", conanRemove program dir policy "*"]

/-- What a prune of a storage directory reports; a dry run names the cleaning as well. -/
def conanReport (program : String) (dir : Path) (policy : Policy) : Report where
  backend := "conan"
  policy := policy
  transient := .ofCommand (conanClean program dir).line
  artifacts := .ofCommand (conanRemove program dir policy "*:*").line
  records := .ofCommand (conanRemove program dir policy "*").line

variable {ρ : Type} {runner : CommandRunner (Machine ρ)} {program : String} {dir : Path}

theorem storageOption_text (dir : Path) :
    storageOption dir.text.toUTF8 = "--core-conf=core.cache:storage_path=" ++ dir.text :=
  congrArg (_ ++ ·) (Text.lossyText_toUTF8 dir.text)

theorem cleanCommand_eq (program : String) (dir : Path) :
    (⟨program, some dir⟩ : ConanCache).cleanCommand = conanClean program dir := by
  simp only [ConanCache.cleanCommand, ConanCache.command, conanClean, conanCommand,
    storageOption_text, Bool.false_eq_true, if_false, List.append_nil]

theorem removeCommand_eq (program : String) (dir : Path) (policy : Policy) (pattern : String) :
    (⟨program, some dir⟩ : ConanCache).removeCommand pattern policy.window policy.dryRun =
      conanRemove program dir policy pattern := by
  simp only [ConanCache.removeCommand, ConanCache.command, conanRemove, conanCommand,
    storageOption_text]

theorem follows_conanRun (hkeeps : runner.KeepsLocks) (c : Command) :
    Follows PruneError.command (ConanCache.run runner c) (ConanCache.run runner.recorded c) [c]
      (Outcome.ofCommand c.line) :=
  follows_runChecked hkeeps PruneError.command c (Outcome.ofCommand c.line)

theorem follows_prune (b : Backend (Machine ρ)) (b' : Backend (Machine (ρ × List Call)))
    (policy : Policy) {plan₁ plan₂ plan₃ : List Command} {o₁ o₂ o₃ : Outcome}
    (hname : b'.name = b.name)
    (htransient : Follows PruneError.command (b.cleanTransient policy.dryRun)
      (b'.cleanTransient policy.dryRun) plan₁ o₁)
    (hartifacts : Follows PruneError.command (b.removeStaleArtifacts policy.window policy.dryRun)
      (b'.removeStaleArtifacts policy.window policy.dryRun) plan₂ o₂)
    (hrecords : Follows PruneError.command (b.removeOrphanedRecords policy.window policy.dryRun)
      (b'.removeOrphanedRecords policy.window policy.dryRun) plan₃ o₃) :
    Follows PruneError.command (prune b policy) (prune b' policy) (plan₁ ++ (plan₂ ++ plan₃))
      ⟨b.name, policy, o₁, o₂, o₃⟩ := by
  rw [← List.append_nil plan₃]
  refine htransient.bind (hartifacts.bind (hrecords.bind ?_))
  rw [hname]
  exact .pure _ _

theorem follows_conanPrune (hkeeps : runner.KeepsLocks) (program : String) (dir : Path)
    (policy : Policy) :
    Follows PruneError.command
      (prune ((⟨program, some dir⟩ : ConanCache).backend runner) policy)
      (prune ((⟨program, some dir⟩ : ConanCache).backend runner.recorded) policy)
      (conanCommands program dir policy) (conanReport program dir policy) := by
  have hremove : ∀ pattern, Follows PruneError.command
      (ConanCache.run runner
        ((⟨program, some dir⟩ : ConanCache).removeCommand pattern policy.window policy.dryRun))
      (ConanCache.run runner.recorded
        ((⟨program, some dir⟩ : ConanCache).removeCommand pattern policy.window policy.dryRun))
      [conanRemove program dir policy pattern]
      (.ofCommand (conanRemove program dir policy pattern).line) := by
    intro pattern
    rw [removeCommand_eq]
    exact follows_conanRun hkeeps _
  have hclean : Follows PruneError.command
      (((⟨program, some dir⟩ : ConanCache).backend runner).cleanTransient policy.dryRun)
      (((⟨program, some dir⟩ : ConanCache).backend runner.recorded).cleanTransient policy.dryRun)
      (if policy.dryRun then [] else [conanClean program dir])
      (.ofCommand (conanClean program dir).line) := by
    simp only [ConanCache.backend, cleanCommand_eq]
    cases policy.dryRun with
    | true => exact .pure _ _
    | false => exact follows_conanRun hkeeps (conanClean program dir)
  exact follows_prune (ConanCache.backend ⟨program, some dir⟩ runner)
    (ConanCache.backend ⟨program, some dir⟩ runner.recorded) policy rfl hclean (hremove "*:*")
    (hremove "*")

theorem preserves_conanPrune {K : Machine ρ → Prop}
    (h : ∀ c, Action.Preserves K (runner.run c)) (cache : ConanCache) (policy : Policy) :
    Action.Preserves K (prune (cache.backend runner) policy) := by
  have hrun : ∀ c, Action.Preserves K (ConanCache.run runner c) := fun c =>
    (((h c).bind fun _ => .reading _).mapError PruneError.command).bind fun _ => .pure _
  have hclean : Action.Preserves K ((cache.backend runner).cleanTransient policy.dryRun) := by
    unfold ConanCache.backend
    dsimp only
    split
    · exact .pure _
    · exact hrun _
  exact hclean.bind fun _ => (hrun _).bind fun _ => (hrun _).bind fun _ => .pure _

end CacheUpkeep.Prune
