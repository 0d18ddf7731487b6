import CacheUpkeep.Command.Scripted
import CacheUpkeep.Proofs.Outcome

/-!
# Answers of a scripted runner

Outputs and missing programs are registered with a scripted runner in any order, with runs
in between.  What a run is answered depends on what was registered before it: of all
beginnings of its command line the longest decides, and of equal ones the latest.
-/

namespace CacheUpkeep.CommandScript

abbrev Response : Type :=
  String × CommandOutput

inductive Event where
  | respond (start : String) (o : CommandOutput)
  | missing (program : String)
  | run (c : Command)
deriving DecidableEq, Repr

namespace Event

def response? : Event → Option Response
  | .respond start o => some (start, o)
  | .missing _ | .run _ => none

def program? : Event → Option String
  | .missing program => some program
  | .respond _ _ | .run _ => none

def line? : Event → Option String
  | .run c => some c.line
  | .respond _ _ | .missing _ => none

end Event

def registered (history : List Event) : List Response :=
  history.filterMap Event.response?

def step (script : CommandScript) : Event → CommandScript
  | .respond start o => script.respond start o
  | .missing program => script.markMissing program
  | .run c => ((runner.run c).outcome script).2

def after (history : List Event) : CommandScript :=
  history.foldl step empty

/-- What a command is answered that is run after these events. -/
def answer (history : List Event) (c : Command) : Except CommandError CommandOutput :=
  ((runner.run c).outcome (after history)).1

variable {line start : String} {o : CommandOutput} {c : Command} {history : List Event}
  {r s : Response} {rs later : List Response}

/-! ## What a script keeps -/

theorem run_outcome (script : CommandScript) (c : Command) :
    (runner.run c).outcome script =
      (if c.program ∈ script.missing then .error (.notFound c.program)
        else .ok (script.outputFor c.line), { script with calls := script.calls ++ [c.line] }) := by
  by_cases hmissing : c.program ∈ script.missing
  · simp [runner, run, hmissing]
  · simp [runner, run, hmissing, outputFor]

theorem step_eq (script : CommandScript) (event : Event) :
    step script event = ⟨script.responses ++ event.response?.toList,
      script.missing ++ event.program?.toList, script.calls ++ event.line?.toList⟩ := by
  cases event with
  | respond start o => simp [step, respond, Event.response?, Event.program?, Event.line?]
  | missing program => simp [step, markMissing, Event.response?, Event.program?, Event.line?]
  | run c => simp [step, run_outcome, Event.response?, Event.program?, Event.line?]

theorem foldl_step (history : List Event) (script : CommandScript) :
    history.foldl step script = ⟨script.responses ++ history.filterMap Event.response?,
      script.missing ++ history.filterMap Event.program?,
      script.calls ++ history.filterMap Event.line?⟩ := by
  induction history generalizing script with
  | nil => simp
  | cons event history ih =>
      rw [List.foldl_cons, ih, step_eq]
      simp only [List.filterMap_cons]
      cases event <;> simp [Event.response?, Event.program?, Event.line?]

theorem after_eq (history : List Event) :
    after history = ⟨registered history, history.filterMap Event.program?,
      history.filterMap Event.line?⟩ := by
  simp [after, foldl_step, empty, registered]

theorem mem_registered_iff : (start, o) ∈ registered history ↔ .respond start o ∈ history := by
  have hresponse (event : Event) :
      event.response? = some (start, o) ↔ event = .respond start o := by
    cases event <;> simp [Event.response?]
  simp [registered, List.mem_filterMap, hresponse]

theorem mem_missing_iff {program : String} :
    program ∈ history.filterMap Event.program? ↔ .missing program ∈ history := by
  have hprogram (event : Event) : event.program? = some program ↔ event = .missing program := by
    cases event <;> simp [Event.program?]
  simp [List.mem_filterMap, hprogram]

/-! ## Beginnings of a line -/

def Begins (start line : String) : Prop :=
  start.toList <+: line.toList

instance (start line : String) : Decidable (Begins start line) :=
  inferInstanceAs (Decidable (start.toList <+: line.toList))

theorem startsWith_iff : startsWith line start = true ↔ Begins start line :=
  List.isPrefixOf_iff_prefix

theorem length_le_iff_utf8ByteSize_le {p q : String} (hp : Begins p line) (hq : Begins q line) :
    p.length ≤ q.length ↔ p.utf8ByteSize ≤ q.utf8ByteSize := by
  have hextend {p q : String} (h : Begins p q) : ∃ t : String, p ++ t = q := by
    obtain ⟨t, ht⟩ := h
    exact ⟨String.ofList t, by rw [← String.toList_inj]; simp [ht]⟩
  rcases List.prefix_or_prefix_of_prefix hp hq with h | h
  · obtain ⟨t, rfl⟩ := hextend h
    simp [String.length_append, String.utf8ByteSize_append]
  · obtain ⟨t, rfl⟩ := hextend h
    have hempty : t.length = 0 ↔ t.utf8ByteSize = 0 :=
      String.length_eq_zero_iff.trans String.utf8ByteSize_eq_zero_iff.symm
    rw [String.length_append, String.utf8ByteSize_append]
    omega

/-! ## The preferred response -/

/-- Of two responses the longer one, and of two that are equally long the later one. -/
def prefer : Option Response → Option Response → Option Response
  | none, later => later
  | some earlier, none => some earlier
  | some earlier, some later =>
      if later.1.length < earlier.1.length then some earlier else some later

@[simp] theorem prefer_none (a : Option Response) : prefer a none = a := by
  cases a <;> rfl

theorem prefer_of_lt (h : s.1.length < r.1.length) : prefer (some r) (some s) = some r :=
  if_pos h

theorem prefer_of_le (h : r.1.length ≤ s.1.length) : prefer (some r) (some s) = some s :=
  if_neg (Nat.not_lt.mpr h)

theorem prefer_assoc (a b c : Option Response) :
    prefer (prefer a b) c = prefer a (prefer b c) := by
  cases a with
  | none => rfl
  | some r =>
      cases b with
      | none => rfl
      | some s =>
          cases c with
          | none => simp
          | some t =>
              rcases Nat.lt_or_ge s.1.length r.1.length with hsr | hrs
              · rw [prefer_of_lt hsr]
                rcases Nat.lt_or_ge t.1.length s.1.length with hts | hst
                · rw [prefer_of_lt hts, prefer_of_lt hsr, prefer_of_lt (by omega)]
                · rw [prefer_of_le hst]
              · rw [prefer_of_le hrs]
                rcases Nat.lt_or_ge t.1.length s.1.length with hts | hst
                · rw [prefer_of_lt hts, prefer_of_le hrs]
                · rw [prefer_of_le hst, prefer_of_le (by omega)]

theorem better_eq_prefer (line : String) (a : Option Response) (r : Response) :
    better line a r = prefer a (if Begins r.1 line then some r else none) := by
  simp only [better, startsWith_iff]
  split
  · cases a <;> rfl
  · simp

def best (line : String) (responses : List Response) : Option Response :=
  responses.foldl (better line) none

theorem foldl_better (line : String) (a : Option Response) (rs : List Response) :
    rs.foldl (better line) a = prefer a (best line rs) := by
  induction rs generalizing a with
  | nil => simp [best]
  | cons r rs ih =>
      rw [best, List.foldl_cons, List.foldl_cons, ih, ih, better_eq_prefer, better_eq_prefer,
        prefer_assoc]
      rfl

theorem best_append (line : String) (rs later : List Response) :
    best line (rs ++ later) = prefer (best line rs) (best line later) := by
  rw [best, List.foldl_append, foldl_better]
  rfl

theorem best_cons_of_begins (hr : Begins r.1 line) :
    best line (r :: rs) = prefer (some r) (best line rs) := by
  rw [best, List.foldl_cons, foldl_better, better_eq_prefer, if_pos hr]
  rfl

theorem best_cons_of_not_begins (hr : ¬ Begins r.1 line) : best line (r :: rs) = best line rs := by
  rw [best, List.foldl_cons, foldl_better, better_eq_prefer, if_neg hr]
  rfl

/-! ## The best response -/

/-- The response fits the line; no other one that fits is longer, and no later one as long. -/
def IsBest (line : String) (rs : List Response) (r : Response) : Prop :=
  Begins r.1 line ∧ ∃ earlier later, rs = earlier ++ r :: later ∧
    (∀ s ∈ earlier, Begins s.1 line → s.1.length ≤ r.1.length) ∧
    ∀ s ∈ later, Begins s.1 line → s.1.length < r.1.length

theorem IsBest.le (h : IsBest line rs r) (hs : s ∈ rs) (hline : Begins s.1 line) :
    s.1.length ≤ r.1.length := by
  obtain ⟨-, earlier, later, rfl, hearlier, hlater⟩ := h
  simp only [List.mem_append, List.mem_cons] at hs
  rcases hs with hs | rfl | hs
  · exact hearlier s hs hline
  · exact Nat.le_refl _
  · exact Nat.le_of_lt (hlater s hs hline)

theorem IsBest.first (hline : Begins r.1 line)
    (h : ∀ s ∈ rs, Begins s.1 line → s.1.length < r.1.length) :
    IsBest line (r :: rs) r :=
  ⟨hline, [], rs, rfl, by simp, h⟩

theorem IsBest.cons (h : IsBest line rs r)
    (hs : Begins s.1 line → s.1.length ≤ r.1.length) : IsBest line (s :: rs) r := by
  obtain ⟨hline, earlier, later, rfl, hearlier, hlater⟩ := h
  refine ⟨hline, s :: earlier, later, rfl, ?_, hlater⟩
  simp only [List.forall_mem_cons]
  exact ⟨hs, hearlier⟩

theorem best_spec (line : String) (rs : List Response) :
    (∀ r, best line rs = some r → IsBest line rs r) ∧
      (best line rs = none → ∀ r ∈ rs, ¬ Begins r.1 line) := by
  induction rs with
  | nil => simp [best]
  | cons s rs ih =>
      obtain ⟨hfound, hnone⟩ := ih
      by_cases hs : Begins s.1 line
      · rw [best_cons_of_begins hs]
        cases hbest : best line rs with
        | none =>
            refine ⟨?_, nofun⟩
            rintro r ⟨rfl⟩
            apply IsBest.first hs
            intro t ht hline
            exact absurd hline (hnone hbest t ht)
        | some b =>
            have hb := hfound b hbest
            rcases Nat.lt_or_ge b.1.length s.1.length with hlt | hle
            · rw [prefer_of_lt hlt]
              refine ⟨?_, nofun⟩
              rintro r ⟨rfl⟩
              apply IsBest.first hs
              intro t ht hline
              have := hb.le ht hline
              omega
            · rw [prefer_of_le hle]
              refine ⟨?_, nofun⟩
              rintro r ⟨rfl⟩
              exact hb.cons fun _ => hle
      · rw [best_cons_of_not_begins hs]
        constructor
        · intro r hr
          exact (hfound r hr).cons fun hline => absurd hline hs
        · intro hrest
          simp only [List.forall_mem_cons]
          exact ⟨hs, hnone hrest⟩

theorem best_of_isBest (h : IsBest line rs r) : best line rs = some r := by
  obtain ⟨hline, earlier, later, rfl, hearlier, hlater⟩ := h
  have hkept : prefer (some r) (best line later) = some r := by
    cases hbest : best line later with
    | none => rfl
    | some s =>
        obtain ⟨hs, front, rest, hsplit, -⟩ := (best_spec line later).1 s hbest
        exact prefer_of_lt (hlater s (by simp [hsplit]) hs)
  rw [best_append, best_cons_of_begins hline, hkept]
  cases hbest : best line earlier with
  | none => rfl
  | some s =>
      obtain ⟨hs, front, rest, hsplit, -⟩ := (best_spec line earlier).1 s hbest
      exact prefer_of_le (hearlier s (by simp [hsplit]) hs)

theorem best_eq_some_iff : best line rs = some r ↔ IsBest line rs r :=
  ⟨(best_spec line rs).1 r, best_of_isBest⟩

theorem exists_best (hr : r ∈ rs) (hline : Begins r.1 line) :
    ∃ b, best line rs = some b ∧ r.1.length ≤ b.1.length := by
  cases hbest : best line rs with
  | none => simp [(best_spec line rs).2 hbest r hr] at hline
  | some b => exact ⟨b, rfl, (best_eq_some_iff.mp hbest).le hr hline⟩

theorem best_eq_none_iff : best line rs = none ↔ ∀ r ∈ rs, ¬ Begins r.1 line := by
  refine ⟨(best_spec line rs).2, fun h => ?_⟩
  rw [Option.eq_none_iff_forall_ne_some]
  intro r hr
  obtain ⟨hline, earlier, later, rfl, -⟩ := best_eq_some_iff.mp hr
  simp [h r (by simp)] at hline

/-- A response to the line does not count if one before it is longer, or one after it is not
shorter. -/
def IsOutdone (line : String) (earlier later : List Response) (start : String) : Prop :=
  (∃ r ∈ earlier, Begins r.1 line ∧ start.length < r.1.length) ∨
    ∃ r ∈ later, Begins r.1 line ∧ start.length ≤ r.1.length

theorem best_of_isOutdone (h : Begins s.1 line → IsOutdone line rs later s.1) :
    best line (rs ++ s :: later) = best line (rs ++ later) := by
  by_cases hs : Begins s.1 line
  · rw [best_append, best_cons_of_begins hs, best_append]
    rcases h hs with ⟨r, hr, hline, hlt⟩ | ⟨r, hr, hline, hle⟩
    · obtain ⟨b, hbest, hb⟩ := exists_best hr hline
      rw [hbest, ← prefer_assoc, prefer_of_lt (by omega)]
    · obtain ⟨b, hbest, hb⟩ := exists_best hr hline
      rw [hbest, prefer_of_le (by omega)]
  · rw [best_append, best_cons_of_not_begins hs, best_append]

/-! ## Answers -/

theorem outputFor_eq (script : CommandScript) (line : String) :
    script.outputFor line = ((best line script.responses).map Prod.snd).getD (.success "") := by
  unfold outputFor best
  cases script.responses.foldl (better line) none <;> rfl

/-- The output of the best response to the line, or an empty success if no response fits. -/
inductive IsOutput (line : String) (rs : List Response) : CommandOutput → Prop where
  | registered {start : String} {o : CommandOutput} (hbest : IsBest line rs (start, o)) :
      IsOutput line rs o
  | unmatched (hnone : ∀ r ∈ rs, ¬ Begins r.1 line) :
      IsOutput line rs (.success "")

theorem outputFor_eq_iff {script : CommandScript} :
    script.outputFor line = o ↔ IsOutput line script.responses o := by
  rw [outputFor_eq]
  constructor
  · rintro rfl
    cases hbest : best line script.responses with
    | none => exact .unmatched (best_eq_none_iff.mp hbest)
    | some r => exact .registered (best_eq_some_iff.mp hbest)
  · intro h
    cases h with
    | registered hbest => rw [best_eq_some_iff.mpr hbest]; rfl
    | unmatched hnone => rw [best_eq_none_iff.mpr hnone]; rfl

theorem answer_eq (history : List Event) (c : Command) :
    answer history c =
      if .missing c.program ∈ history then .error (.notFound c.program)
      else .ok ((after history).outputFor c.line) := by
  rw [answer, run_outcome]
  simp only [after_eq, mem_missing_iff]

theorem answer_eq_ok_iff :
    answer history c = .ok o ↔
      .missing c.program ∉ history ∧ IsOutput c.line (registered history) o := by
  rw [answer_eq]
  by_cases hmissing : .missing c.program ∈ history
  · simp [hmissing]
  · rw [if_neg hmissing, Except.ok.injEq, outputFor_eq_iff, after_eq]
    simp [hmissing, registered]

theorem answer_eq_error_iff {e : CommandError} :
    answer history c = .error e ↔ .missing c.program ∈ history ∧ e = .notFound c.program := by
  rw [answer_eq]
  by_cases hmissing : .missing c.program ∈ history
  · simp [hmissing, eq_comm]
  · simp [hmissing]

theorem answer_of_isOutdone {front rest : List Event}
    (h : Begins start c.line →
      IsOutdone c.line (registered front) (registered rest) start) :
    answer (front ++ .respond start o :: rest) c = answer (front ++ rest) c := by
  have hleft : registered (front ++ rest) = registered front ++ registered rest := by
    simp [registered]
  have hfull : registered (front ++ .respond start o :: rest) =
      registered front ++ (start, o) :: registered rest := by
    simp [registered, Event.response?]
  rw [answer_eq, answer_eq, outputFor_eq, outputFor_eq, after_eq, after_eq, hfull, hleft,
    best_of_isOutdone h]
  simp

/--
A run is answered with the output that was registered last for the longest beginning of its
command line, if its program was not registered as missing before.  A registered output
changes no answer if it is for another line, if it is registered anew for the same beginning,
or if there is one for a longer beginning.  All runs are recorded, also those that fail.
-/
theorem answer_isLatestLongest (history : List Event) (c : Command) :
    (∀ e, answer history c = .error e ↔
      .missing c.program ∈ history ∧ e = .notFound c.program) ∧
    (∀ o, answer history c = .ok o ↔
      .missing c.program ∉ history ∧ IsOutput c.line (registered history) o) ∧
    (∀ p q, Begins p c.line → Begins q c.line →
      (p.length ≤ q.length ↔ p.utf8ByteSize ≤ q.utf8ByteSize)) ∧
    (∀ front start o rest, history = front ++ .respond start o :: rest →
      (¬ Begins start c.line ∨ (∃ o', .respond start o' ∈ rest) ∨
        ∃ longer o', .respond longer o' ∈ history ∧ Begins longer c.line ∧
          start.length < longer.length) →
      answer history c = answer (front ++ rest) c) ∧
    (after history).calls = history.filterMap Event.line? := by
  refine ⟨fun e => answer_eq_error_iff, fun o => answer_eq_ok_iff,
    fun p q => length_le_iff_utf8ByteSize_le, ?_, by rw [after_eq]⟩
  rintro front start o rest rfl houtdone
  apply answer_of_isOutdone
  intro hline
  rcases houtdone with hother | ⟨o', hagain⟩ | ⟨longer, o', hmem, hlonger, hlt⟩
  · simp [hline] at hother
  · exact .inr ⟨_, mem_registered_iff.mpr hagain, hline, Nat.le_refl _⟩
  · simp only [List.mem_append, List.mem_cons, Event.respond.injEq] at hmem
    rcases hmem with hmem | ⟨rfl, -⟩ | hmem
    · exact .inl ⟨_, mem_registered_iff.mpr hmem, hlonger, hlt⟩
    · omega
    · exact .inr ⟨_, mem_registered_iff.mpr hmem, hlonger, Nat.le_of_lt hlt⟩

namespace Sample

def largeFiles : Command :=
  ⟨"git-lfs", ["env"], []⟩

def status : Command :=
  ⟨"git", ["status"], []⟩

def session : List Event :=
  [.respond "git" (.success "first"), .run largeFiles, .respond "git --version" (.success "2.40"),
    .missing "git-lfs", .respond "git" (.success "second"), .run largeFiles]

end Sample

theorem answer_isLatestLongest_sample :
    answer Sample.session Sample.status = .ok (.success "second") ∧
    answer Sample.session Sample.status = answer (Sample.session.drop 1) Sample.status ∧
    answer Sample.session Sample.largeFiles = .error (.notFound "git-lfs") ∧
    (after Sample.session).calls = ["git-lfs env", "git-lfs env"] := by
  obtain ⟨-, hok, -, houtdone, -⟩ := answer_isLatestLongest Sample.session Sample.status
  obtain ⟨herror, -, -, -, hcalls⟩ := answer_isLatestLongest Sample.session Sample.largeFiles
  have hbest : IsBest Sample.status.line (registered Sample.session) ("git", .success "second") :=
    ⟨by decide, [("git", .success "first"), ("git --version", .success "2.40")], [], rfl,
      by decide, by simp⟩
  refine ⟨(hok _).mpr ⟨by decide, .registered hbest⟩, ?_, (herror _).mpr ⟨by decide, rfl⟩, hcalls⟩
  exact houtdone [] "git" (.success "first") _ rfl (.inr (.inl ⟨.success "second", by decide⟩))

end CacheUpkeep.CommandScript
