import CacheUpkeep.Proofs.Doctor.Accounts
import CacheUpkeep.Command.Scripted
import CacheUpkeep.Proofs.Json.Containers
import CacheUpkeep.Proofs.Outcome

/-!
# Logins to remotes

The check for a login asks Conan for its remotes and for its users.  What it finds depends
on what the second output tells about the remote, and not on the output's form.
-/

namespace CacheUpkeep.Doctor

open Json (Tree quotedString)
open Json.Tree

section

variable {σ τ : Type} {runner : CommandRunner σ} {runner' : CommandRunner τ} {c : Command}
  {program remote remotes users text : String} {accounts : Accounts} {s t : σ} {s' : τ}

def Prints (runner : CommandRunner σ) (c : Command) (output : String) (s t : σ) : Prop :=
  ∃ o, (runner.run c).outcome s = (.ok o, t) ∧ o.isSuccess = true ∧ o.stdout = output

/-- The program is there and answers the two queries of the check. -/
structure Answers (runner : CommandRunner σ) (program remotes users : String) (s : σ) : Prop where
  located : (runner.locate program s).isSome = true
  prints : ∃ t u, Prints runner (remoteCommand program "list") remotes s t ∧
    Prints runner (remoteCommand program "list-users") users t u

def loginIssues (runner : CommandRunner σ) (program remote : String) (s : σ) : List Issue :=
  ((conanLogin runner program remote).run s).1

def usersIssues (program remote users : String) : List Issue :=
  match Json.read users with
  | none => [.unexpectedOutput (remoteCommand program "list-users").line]
  | some value => if (userName? value remote).isSome then [] else [.notLoggedIn remote]

theorem query_of_prints (h : Prints runner c text s t) :
    (query runner c).outcome s =
      ((Json.read text).elim (.error (.unexpectedOutput c.line)) .ok, t) := by
  obtain ⟨o, hrun, hok, rfl⟩ := h
  have hchecked : (runner.runChecked c).outcome s = (.ok o, t) := by
    rw [CommandRunner.runChecked, Action.outcome_bind_ok hrun, CommandRunner.check, if_pos hok]
    rfl
  rw [query, Action.outcome_bind_ok (Action.outcome_mapError_ok hchecked)]
  cases Json.read o.stdout <;> rfl

theorem loginIssues_eq (runner : CommandRunner σ) (program remote : String) (s : σ) :
    loginIssues runner program remote s =
      match ((login runner program remote).outcome s).1 with
      | .ok _ => []
      | .error issue => [issue] := by
  simp only [loginIssues, conanLogin, StateT.run_bind, Action.outcome]
  cases hlogin : (login runner program remote).run.run s with
  | mk r t => cases r <;> rfl

theorem loginIssues_of_answers {known : Json} (h : Answers runner program remotes users s)
    (hknown : Json.read remotes = some known) (hlists : lists known remote = true) :
    loginIssues runner program remote s = usersIssues program remote users := by
  obtain ⟨hlocated, t, u, hremotes, husers⟩ := h
  have hlist := query_of_prints hremotes
  rw [hknown, Option.elim_some] at hlist
  have hquery := query_of_prints husers
  have hreading : (Action.reading fun s => .ok (runner.locate program s).isSome :
      Action σ Issue Bool).outcome s = (.ok true, s) := by
    rw [Action.outcome_reading, hlocated]
  rw [loginIssues_eq, login, Action.outcome_bind_ok hreading]
  simp only [Bool.not_true, Bool.false_eq_true, if_false]
  rw [Action.outcome_bind_ok hlist]
  simp only [hlists, Bool.not_true, Bool.false_eq_true, if_false]
  unfold usersIssues
  cases hread : Json.read users with
  | none =>
      rw [hread] at hquery
      rw [Action.outcome_bind_error hquery]
  | some value =>
      rw [hread] at hquery
      rw [Action.outcome_bind_ok hquery]
      cases huser : userName? value remote with
      | none => simp [huser]
      | some name => simp [huser]

theorem usersIssues_of_read {value : Json} (hread : Json.read users = some value) :
    usersIssues program remote users =
      if (userName? value remote).isSome then [] else [.notLoggedIn remote] := by
  rw [usersIssues, hread]

theorem usersIssues_eq_nil_iff (h : Tells users accounts) (hreadable : accounts.Readable) :
    usersIssues program remote users = [] ↔ accounts.LoggedIn remote := by
  obtain ⟨value, hvalue⟩ := Option.isSome_iff_exists.mp (h.readable.mpr hreadable)
  rw [usersIssues_of_read hvalue, ← h.users value hvalue remote]
  split <;> simp_all

theorem usersIssues_of_not_readable (h : Tells users accounts) (hreadable : ¬ accounts.Readable) :
    usersIssues program remote users =
      [.unexpectedOutput (remoteCommand program "list-users").line] := by
  have hnone : Json.read users = none := by
    rw [← Option.not_isSome_iff_eq_none]
    exact mt h.readable.mp hreadable
  rw [usersIssues, hnone]

theorem usersIssues_eq_of_tells {users' : String} (h : Tells users accounts)
    (h' : Tells users' accounts) (hreadable : accounts.Readable) :
    usersIssues program remote users = usersIssues program remote users' := by
  obtain ⟨value, hvalue⟩ := Option.isSome_iff_exists.mp (h.readable.mpr hreadable)
  obtain ⟨value', hvalue'⟩ := Option.isSome_iff_exists.mp (h'.readable.mpr hreadable)
  have hiff := (h.users value hvalue remote).trans (h'.users value' hvalue' remote).symm
  rw [usersIssues_of_read hvalue, usersIssues_of_read hvalue', Bool.eq_iff_iff.mpr hiff]

/-- The check finds the same in both forms of a table that can be read, and nothing just when
a user is logged in to the remote.  An output that can be read is never unexpected, whatever
kind of value it is or holds; one that cannot is, in both forms. -/
theorem conanLogin_forgets_form {listed keyed : String} {known : Json}
    (hknown : Json.read remotes = some known) (hlists : lists known remote = true)
    (hlisted : accounts.IsListed listed) (hkeyed : accounts.IsKeyed keyed)
    (h : Answers runner program remotes listed s)
    (h' : Answers runner' program remotes keyed s') :
    (accounts.Readable →
      loginIssues runner program remote s = loginIssues runner' program remote s' ∧
      (loginIssues runner program remote s = [] ↔ accounts.LoggedIn remote)) ∧
    (¬ accounts.Readable →
      loginIssues runner program remote s =
        [.unexpectedOutput (remoteCommand program "list-users").line] ∧
      loginIssues runner' program remote s' =
        [.unexpectedOutput (remoteCommand program "list-users").line]) ∧
    ∀ (other : CommandRunner σ) (start : σ) (users : String),
      Answers other program remotes users start → (Json.read users).isSome = true →
      loginIssues other program remote start = [] ∨
        loginIssues other program remote start = [.notLoggedIn remote] := by
  have htells := hlisted.tells
  have htells' := hkeyed.tells
  rw [loginIssues_of_answers h hknown hlists, loginIssues_of_answers h' hknown hlists]
  refine ⟨fun hreadable => ⟨?_, ?_⟩, fun hreadable => ⟨?_, ?_⟩, ?_⟩
  · exact usersIssues_eq_of_tells htells htells' hreadable
  · exact usersIssues_eq_nil_iff htells hreadable
  · exact usersIssues_of_not_readable htells hreadable
  · exact usersIssues_of_not_readable htells' hreadable
  · intro other start users hother hread
    obtain ⟨value, hvalue⟩ := Option.isSome_iff_exists.mp hread
    rw [loginIssues_of_answers hother hknown hlists, usersIssues_of_read hvalue]
    split
    · exact .inl rfl
    · exact .inr rfl

end

/-! ## User names within arrays -/

namespace Sample

def first : Account :=
  ⟨"a", [("user_name", .string (some "ci"))], List.nodup_singleton _, by simp⟩

def second (k : Nat) : Account :=
  ⟨"b", [("user_name", nested .null k)], List.nodup_singleton _, by simp⟩

def accounts (k : Nat) : Accounts where
  rows := [first, second k]
  remotesOnce := by simp [first, second]

def entry (account : Account) : Tree :=
  .object (account.details.map fun detail => (some detail.1, detail.2))

def listedText (k : Nat) : List Char :=
  '[' :: '\x7b' :: field "remote" (quotedString "b" ++ ',' :: field "user_name" (nestedText k
    ('\x7d' :: ',' :: nestedText 0 (',' :: '\x7b' :: field "name" (quotedString "a" ++
      ',' :: field "user_name" (quotedString "ci" ++ ['\x7d', ']']))))))

def keyedText (k : Nat) : List Char :=
  '\x7b' :: field "a" ('\x7b' :: field "user_name" (quotedString "ci" ++ '\x7d' :: ',' ::
    field "b" ('\x7b' :: field "user_name" (nestedText k ['\x7d', '\x7d']))))

def remotesText : List Char :=
  '[' :: '\x7b' :: field "name" (quotedString "a" ++ ['\x7d', ']'])

def listLine : String :=
  (remoteCommand "conan" "list").line

def usersLine : String :=
  (remoteCommand "conan" "list-users").line

def conan (users : List Char) : CommandScript :=
  (CommandScript.empty.respond listLine (.success (String.ofList remotesText))).respond usersLine
    (.success (String.ofList users))

theorem skipSpace_open (text : List Char) : skipSpace ('\x7b' :: text) = '\x7b' :: text :=
  skipSpace_cons (by decide)

theorem readValue_user {fuel : Nat} {name rest : List Char} {tree : Tree}
    (hskip : skipSpace name = name) (hname : readValue fuel name = some (tree, '\x7d' :: rest)) :
    readValue (fuel + 2) ('\x7b' :: field "user_name" name) =
      some (.object [(some "user_name", tree)], rest) :=
  readValue_fields (readMembers_field "user_name" hskip hname)

theorem readValue_namedUser {fuel : Nat} {name rest : List Char} {tree : Tree}
    (key remote : String) (hskip : skipSpace name = name)
    (hname : readValue fuel name = some (tree, '\x7d' :: rest)) :
    readValue (fuel + 3)
        ('\x7b' :: field key (quotedString remote ++ ',' :: field "user_name" name)) =
      some (.object [(some key, .string (some remote)), (some "user_name", tree)], rest) :=
  readValue_fields (readMembers_fields key (skipSpace_quote remote _)
    (readValue_quotedString fuel remote _) (skipSpace_field _ _)
    (readMembers_field "user_name" hskip hname))

theorem read_keyedText (k : Nat) :
    Tree.read (String.ofList (keyedText k)) =
      some (.object [(some "a", entry first), (some "b", entry (second k))]) := by
  refine read_of_readValue (2 * k + 6) (skipSpace_open _) ?_ fun fuel hfuel => ?_
  · simp only [keyedText, field, List.length_cons, List.length_append, length_nestedText]
    omega
  · obtain ⟨fuel, rfl⟩ : ∃ n, fuel = n + 5 := ⟨fuel - 5, by omega⟩
    have hsecond := readValue_user (skipSpace_nestedText k ['\x7d', '\x7d'])
      (readValue_nestedText (show 2 * k < fuel by omega) ['\x7d', '\x7d'])
    exact readValue_fields (readMembers_fields "a" (skipSpace_open _)
      (readValue_user (skipSpace_quote "ci" _) (readValue_quotedString (fuel + 1) "ci" _))
      (skipSpace_field _ _) (readMembers_field "b" (skipSpace_open _) hsecond))

theorem isKeyed (k : Nat) : (accounts k).IsKeyed (String.ofList (keyedText k)) :=
  ⟨entry, _, fun _ _ => ⟨_, rfl, .refl _⟩, ⟨_, rfl, .refl _⟩, read_keyedText k⟩

def items (k : Nat) : List Tree :=
  [.object [(some "remote", .string (some "b")), (some "user_name", nested .null k)], .null,
    .object [(some "name", .string (some "a")), (some "user_name", .string (some "ci"))]]

theorem read_listedText (k : Nat) :
    Tree.read (String.ofList (listedText k)) = some (.array (items k)) := by
  refine read_of_readValue (2 * k + 8) (skipSpace_cons (by decide)) ?_ fun fuel hfuel => ?_
  · simp only [listedText, field, List.length_cons, List.length_append, length_nestedText]
    omega
  · obtain ⟨fuel, rfl⟩ : ∃ n, fuel = n + 8 := ⟨fuel - 8, by omega⟩
    have hcomma (rest : List Char) : skipSpace (',' :: rest) = ',' :: rest :=
      skipSpace_cons (by decide)
    refine readValue_array (skipSpace_open _) (by decide) (readItems_next
      (readValue_namedUser "remote" "b" (skipSpace_nestedText k _)
        (readValue_nestedText (by omega) _)) (hcomma _) ?_)
    rw [skipSpace_nestedText]
    refine readItems_next (readValue_nestedText (by omega) _) (hcomma _) ?_
    rw [skipSpace_open]
    exact readItems_last (readValue_namedUser "name" "a" (skipSpace_quote "ci" _)
      (readValue_quotedString fuel "ci" _)) (skipSpace_cons (by decide))

theorem isStray_null : IsStray .null :=
  ⟨.null, rfl, fun _ => ⟨nofun, nofun⟩⟩

theorem isListed (k : Nat) : (accounts k).IsListed (String.ofList (listedText k)) :=
  ⟨[second k, first], items k, .swap _ _ _, .entry ⟨"remote", .inr rfl, _, rfl, .refl _⟩
    (.stray isStray_null (.entry ⟨"name", .inl rfl, _, rfl, .refl _⟩ .none)), read_listedText k⟩

theorem read_remotesText :
    Json.read (String.ofList remotesText) = some (.array [.object [("name", .string "a")]]) := by
  have hread : Tree.read (String.ofList remotesText) =
      some (.array [.object [(some "name", .string (some "a"))]]) := by
    refine read_of_readValue 5 (skipSpace_cons (by decide)) ?_ fun fuel hfuel => ?_
    · simp only [remotesText, field, List.length_cons, List.length_append]
      omega
    · obtain ⟨fuel, rfl⟩ : ∃ n, fuel = n + 5 := ⟨fuel - 5, by omega⟩
      exact readValue_array (skipSpace_open _) (by decide) (readItems_last
        (readValue_fields (readMembers_field "name" (skipSpace_quote "a" _)
          (readValue_quotedString fuel "a" _))) (skipSpace_cons (by decide)))
  rw [read_eq_of_tree hread]
  rfl

theorem answers (users : List Char) :
    Answers CommandScript.runner "conan" (String.ofList remotesText) (String.ofList users)
      (conan users) := by
  have hstarts : CommandScript.startsWith listLine listLine = true ∧
      CommandScript.startsWith listLine usersLine = false ∧
      CommandScript.startsWith usersLine listLine = false ∧
      CommandScript.startsWith usersLine usersLine = true := by decide
  have hlist : (conan users).outputFor listLine = .success (String.ofList remotesText) := by
    simp [CommandScript.outputFor, conan, CommandScript.respond, CommandScript.empty,
      CommandScript.better, hstarts]
  have husers : (conan users).outputFor usersLine = .success (String.ofList users) := by
    simp [CommandScript.outputFor, conan, CommandScript.respond, CommandScript.empty,
      CommandScript.better, hstarts]
  exact ⟨rfl, _, _, ⟨_, congrArg (fun o => (Except.ok o, _)) hlist, rfl, rfl⟩,
    ⟨_, congrArg (fun o => (Except.ok o, _)) husers, rfl, rfl⟩⟩

theorem lists_remotes : lists (.array [.object [("name", .string "a")]]) "a" = true := by
  decide

theorem loggedIn (k : Nat) : (accounts k).LoggedIn "a" :=
  ⟨first, List.mem_cons_self, rfl, "ci", by decide, List.mem_cons_self⟩

theorem readable_iff (k : Nat) : (accounts k).Readable ↔ k < 126 := by
  have hfirst : first.Readable := List.forall_mem_singleton.mpr rfl
  have hsecond : (second k).Readable ↔ k < 126 := by
    refine List.forall_mem_singleton.trans (readableWithin_nested_null_iff.trans ?_)
    rw [depthLimit]
    omega
  rw [← hsecond]
  refine List.forall_mem_cons.trans ((and_iff_right hfirst).trans ?_)
  exact List.forall_mem_singleton

end Sample

theorem conanLogin_forgets_form_sample :
    loginIssues CommandScript.runner "conan" "a" (Sample.conan (Sample.listedText 0)) = [] ∧
    loginIssues CommandScript.runner "conan" "a" (Sample.conan (Sample.keyedText 0)) = [] := by
  obtain ⟨hforms, -, -⟩ := conanLogin_forgets_form Sample.read_remotesText Sample.lists_remotes
    (Sample.isListed 0) (Sample.isKeyed 0) (Sample.answers (Sample.listedText 0))
    (Sample.answers (Sample.keyedText 0))
  obtain ⟨heq, hiff⟩ := hforms ((Sample.readable_iff 0).mpr (by decide))
  have hlisted := hiff.mpr (Sample.loggedIn 0)
  exact ⟨hlisted, heq.symm.trans hlisted⟩

/-- A user is logged in to the remote, but neither form can be read: the other user name is
within one array too many. -/
theorem conanLogin_rejects_nested_name :
    (Sample.accounts 126).IsListed (String.ofList (Sample.listedText 126)) ∧
    (Sample.accounts 126).IsKeyed (String.ofList (Sample.keyedText 126)) ∧
    (Sample.accounts 126).LoggedIn "a" ∧
    loginIssues CommandScript.runner "conan" "a" (Sample.conan (Sample.listedText 126)) =
      [.unexpectedOutput "conan remote list-users --format=json"] ∧
    loginIssues CommandScript.runner "conan" "a" (Sample.conan (Sample.keyedText 126)) =
      [.unexpectedOutput "conan remote list-users --format=json"] := by
  have hline : (remoteCommand "conan" "list-users").line =
      "conan remote list-users --format=json" := by decide
  have hreadable : ¬ (Sample.accounts 126).Readable := mt (Sample.readable_iff 126).mp (by decide)
  refine ⟨Sample.isListed 126, Sample.isKeyed 126, Sample.loggedIn 126, ?_, ?_⟩
  · rw [loginIssues_of_answers (Sample.answers _) Sample.read_remotesText Sample.lists_remotes,
      usersIssues_of_not_readable (Sample.isListed 126).tells hreadable, hline]
  · rw [loginIssues_of_answers (Sample.answers _) Sample.read_remotesText Sample.lists_remotes,
      usersIssues_of_not_readable (Sample.isKeyed 126).tells hreadable, hline]

end CacheUpkeep.Doctor
