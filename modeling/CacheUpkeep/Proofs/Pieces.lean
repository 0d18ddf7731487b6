import CacheUpkeep.Proofs.Outcome

/-!
# Actions in pieces

An action in pieces can be interrupted between any two of them.  Its pieces run one
after the other come to what the action does in one go, and what each piece keeps,
whatever others do in between, is kept by all of them.
-/

namespace CacheUpkeep

/-- What is left to do: nothing, or a piece, and then what the state calls for that it has found. -/
inductive Pieces (σ β : Type) where
  | done (result : β)
  | piece (change : σ → σ) (next : σ → Pieces σ β)

namespace Pieces

variable {σ ε α β : Type}

def run : Pieces σ β → σ → β × σ
  | done result, s => (result, s)
  | piece change next, s => (next s).run (change s)

def single (x : Action σ ε α) : Pieces σ (Except ε α) :=
  piece (fun s => (x.outcome s).2) fun s => done (x.outcome s).1

def andThen : Pieces σ (Except ε α) → (α → Pieces σ (Except ε β)) → Pieces σ (Except ε β)
  | done (.ok a), f => f a
  | done (.error e), _ => done (.error e)
  | piece change next, f => piece change fun s => (next s).andThen f

/-- No more pieces than the limit allows, without a result if that is where it breaks off. -/
def cut : Option Nat → Pieces σ β → Pieces σ (Option β)
  | some 0, _ => done none
  | _, done result => done (some result)
  | limit, piece change next => piece change fun s => (next s).cut (limit.map Nat.pred)

theorem run_cut_none (p : Pieces σ β) (s : σ) :
    (p.cut none).run s = (some (p.run s).1, (p.run s).2) := by
  induction p generalizing s with
  | done result => rfl
  | piece change next ih => exact ih s (change s)

theorem run_andThen (p : Pieces σ (Except ε α)) (f : α → Pieces σ (Except ε β)) (s : σ) :
    (p.andThen f).run s =
      match p.run s with
      | (.ok a, t) => (f a).run t
      | (.error e, t) => (.error e, t) := by
  induction p generalizing s with
  | done result => cases result <;> rfl
  | piece change next ih => exact ih s (change s)

/-! ## In one go -/

def Performs (p : Pieces σ (Except ε α)) (x : Action σ ε α) : Prop :=
  ∀ s, p.run s = x.outcome s

namespace Performs

variable {p : Pieces σ (Except ε α)} {x : Action σ ε α} {f : α → Pieces σ (Except ε β)}
  {g : α → Action σ ε β}

theorem single (x : Action σ ε α) : Performs (single x) x :=
  fun _ => rfl

theorem pure (a : α) : Performs (done (.ok a) : Pieces σ (Except ε α)) (Pure.pure a) :=
  fun _ => rfl

theorem bind (h : Performs p x) (hf : ∀ a, Performs (f a) (g a)) :
    Performs (p.andThen f) (x >>= g) := by
  intro s
  rw [run_andThen, h s]
  cases hx : x.outcome s with
  | mk result t =>
      cases result with
      | ok a =>
          rw [Action.outcome_bind_ok hx]
          exact hf a t
      | error e => rw [Action.outcome_bind_error hx]

end Performs

/-! ## Piece by piece -/

/-- Every piece keeps `K`, also if others that keep it have been at work before the piece. -/
def Keeps (K : σ → Prop) : Pieces σ β → Prop
  | done _ => True
  | piece change next => ∀ s, K s → K (change s) ∧ (next s).Keeps K

variable {K : σ → Prop}

theorem Keeps.run {p : Pieces σ β} (h : p.Keeps K) {s : σ} (hs : K s) : K (p.run s).2 := by
  induction p generalizing s with
  | done result => exact hs
  | piece change next ih =>
      obtain ⟨hchange, hnext⟩ := h s hs
      exact ih s hnext hchange

theorem Keeps.cut {p : Pieces σ β} (h : p.Keeps K) (limit : Option Nat) :
    (p.cut limit).Keeps K := by
  induction p generalizing limit with
  | done result => rcases limit with _ | _ | limit <;> trivial
  | piece change next ih =>
      have hpiece (limit : Option Nat) :
          (piece change fun s => (next s).cut limit).Keeps K := by
        intro s hs
        obtain ⟨hchange, hnext⟩ := h s hs
        exact ⟨hchange, ih s hnext limit⟩
      rcases limit with _ | _ | limit
      · exact hpiece none
      · trivial
      · exact hpiece (some limit)

theorem Keeps.and_left {p : Pieces σ β} {P : Prop} (h : P → p.Keeps K) :
    p.Keeps fun s => P ∧ K s := by
  induction p with
  | done result => trivial
  | piece change next ih =>
      rintro s ⟨hP, hs⟩
      obtain ⟨hchange, hnext⟩ := h hP s hs
      exact ⟨⟨hP, hchange⟩, ih s fun _ => hnext⟩

theorem Keeps.andThen {p : Pieces σ (Except ε α)} {f : α → Pieces σ (Except ε β)} (h : p.Keeps K)
    (hf : ∀ a, (f a).Keeps K) : (p.andThen f).Keeps K := by
  induction p with
  | done result =>
      cases result with
      | ok a => exact hf a
      | error e => trivial
  | piece change next ih =>
      intro s hs
      obtain ⟨hchange, hnext⟩ := h s hs
      exact ⟨hchange, ih s hnext⟩

theorem keeps_reading {read : σ → Except ε α} {f : α → Pieces σ (Except ε β)}
    (hf : ∀ s a, K s → read s = .ok a → (f a).Keeps K) :
    ((single (Action.reading read)).andThen f).Keeps K := by
  intro s hs
  have hnext : ((done (read s)).andThen f).Keeps K := by
    cases hread : read s with
    | ok a => exact hf s a hs hread
    | error e => trivial
  exact ⟨hs, hnext⟩

theorem keeps_single {x : Action σ ε α} (h : ∀ s, K s → K (x.outcome s).2) : (single x).Keeps K :=
  fun s hs => ⟨h s hs, trivial⟩

end Pieces

end CacheUpkeep
