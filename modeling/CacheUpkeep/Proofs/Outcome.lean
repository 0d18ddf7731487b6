import CacheUpkeep.Action
import Mathlib.Data.List.Forall2

/-!
# Outcomes of actions

What an action leaves behind, one equation for each way of building it, and the
same for a function that is mapped over a list until it fails.
-/

namespace CacheUpkeep.Action

variable {σ ε δ α β : Type}

@[simp] theorem outcome_pure (a : α) (s : σ) :
    (pure a : Action σ ε α).outcome s = (.ok a, s) := rfl

@[simp] theorem outcome_throw (e : ε) (s : σ) :
    (throw e : Action σ ε α).outcome s = (.error e, s) := rfl

@[simp] theorem outcome_ofOutcome (f : σ → Except ε α × σ) (s : σ) :
    (ofOutcome f).outcome s = f s := rfl

@[simp] theorem outcome_reading (f : σ → Except ε α) (s : σ) :
    (reading f).outcome s = (f s, s) := rfl

theorem outcome_bind_ok {x : Action σ ε α} {f : α → Action σ ε β} {s t : σ} {a : α}
    (h : x.outcome s = (.ok a, t)) : (x >>= f).outcome s = (f a).outcome t := by
  simp only [outcome, ExceptT.run_bind, StateT.run_bind] at h ⊢
  rw [h]
  rfl

theorem outcome_bind_error {x : Action σ ε α} {f : α → Action σ ε β} {s t : σ} {e : ε}
    (h : x.outcome s = (.error e, t)) : (x >>= f).outcome s = (.error e, t) := by
  simp only [outcome, ExceptT.run_bind, StateT.run_bind] at h ⊢
  rw [h]
  rfl

theorem outcome_bind_pure_snd (x : Action σ ε α) (f : α → β) (s : σ) :
    ((x >>= fun a => pure (f a)).outcome s).2 = (x.outcome s).2 := by
  cases hx : x.outcome s with
  | mk r t =>
      cases r with
      | ok a =>
          rw [outcome_bind_ok hx]
          rfl
      | error e => rw [outcome_bind_error hx]

theorem outcome_bind_pure_fst (x : Action σ ε α) (f : α → β) (s : σ) :
    ((x >>= fun a => pure (f a)).outcome s).1 = (x.outcome s).1.map f := by
  cases hx : x.outcome s with
  | mk r t =>
      cases r with
      | ok a =>
          rw [outcome_bind_ok hx]
          rfl
      | error e =>
          rw [outcome_bind_error hx]
          rfl

theorem outcome_bind_eq_ok {x : Action σ ε α} {f : α → Action σ ε β} {s t : σ} {b : β}
    (h : (x >>= f).outcome s = (.ok b, t)) :
    ∃ a u, x.outcome s = (.ok a, u) ∧ (f a).outcome u = (.ok b, t) := by
  cases hx : x.outcome s with
  | mk r u =>
      cases r with
      | ok a => exact ⟨a, u, rfl, by rw [← outcome_bind_ok hx, h]⟩
      | error e =>
          rw [outcome_bind_error hx] at h
          cases h

theorem outcome_changing_ok {f : σ → Except ε σ} {s t : σ} (h : f s = .ok t) :
    (changing f).outcome s = (.ok (), t) := by
  simp [changing, h]

theorem outcome_changing_error {f : σ → Except ε σ} {s : σ} {e : ε} (h : f s = .error e) :
    (changing f).outcome s = (.error e, s) := by
  simp [changing, h]

theorem outcome_changing_eq_ok {f : σ → Except ε σ} {s t : σ}
    (h : (changing f).outcome s = (.ok (), t)) : f s = .ok t := by
  cases hf : f s with
  | ok u =>
      rw [outcome_changing_ok hf] at h
      cases h
      rfl
  | error e =>
      rw [outcome_changing_error hf] at h
      cases h

theorem outcome_changing_eq_error {f : σ → Except ε σ} {s t : σ} {e : ε}
    (h : (changing f).outcome s = (.error e, t)) : t = s := by
  cases hf : f s with
  | ok u =>
      rw [outcome_changing_ok hf] at h
      cases h
  | error e =>
      rw [outcome_changing_error hf] at h
      cases h
      rfl

theorem outcome_mapError_ok {f : ε → δ} {x : Action σ ε α} {s t : σ} {a : α}
    (h : x.outcome s = (.ok a, t)) : (mapError f x).outcome s = (.ok a, t) := by
  simp [mapError, h]

theorem outcome_mapError_error {f : ε → δ} {x : Action σ ε α} {s t : σ} {e : ε}
    (h : x.outcome s = (.error e, t)) :
    (mapError f x).outcome s = (.error (f e), t) := by
  simp [mapError, h]

@[simp] theorem outcome_mapError_snd (f : ε → δ) (x : Action σ ε α) (s : σ) :
    ((mapError f x).outcome s).2 = (x.outcome s).2 := by
  cases hx : x.outcome s with
  | mk r t => cases r <;> simp [mapError, hx]

theorem outcome_mapError_eq_ok {f : ε → δ} {x : Action σ ε α} {s t : σ} {a : α}
    (h : (mapError f x).outcome s = (.ok a, t)) : x.outcome s = (.ok a, t) := by
  cases hx : x.outcome s with
  | mk r u =>
      cases r with
      | ok b =>
          rw [outcome_mapError_ok hx] at h
          cases h
          rfl
      | error e =>
          rw [outcome_mapError_error hx] at h
          cases h

/-! ## What actions preserve -/

/-- However the action ends, it leaves a state of which `K` holds such a state. -/
def Preserves (K : σ → Prop) (x : Action σ ε α) : Prop :=
  ∀ s, K s → K (x.outcome s).2

namespace Preserves

variable {K : σ → Prop} {x : Action σ ε α} {f : α → Action σ ε β}

theorem pure (a : α) : Preserves K (Pure.pure a : Action σ ε α) :=
  fun _ hs => hs

theorem reading (read : σ → Except ε α) : Preserves K (Action.reading read) :=
  fun _ hs => hs

theorem bind (h : Preserves K x) (hf : ∀ a, Preserves K (f a)) : Preserves K (x >>= f) := by
  intro s hs
  have hx := h s hs
  cases houtcome : x.outcome s with
  | mk r t =>
      rw [houtcome] at hx
      cases r with
      | ok a =>
          rw [outcome_bind_ok houtcome]
          exact hf a t hx
      | error e =>
          rw [outcome_bind_error houtcome]
          exact hx

theorem mapError (h : Preserves K x) (wrap : ε → δ) : Preserves K (Action.mapError wrap x) := by
  intro s hs
  rw [outcome_mapError_snd]
  exact h s hs

theorem thenAlways (h : Preserves K x) {last : σ → σ} (hlast : ∀ s, K s → K (last s)) :
    Preserves K (Action.thenAlways x last) :=
  fun s hs => hlast _ (h s hs)

end Preserves

/-! ## Actions that do alike -/

/-- From related states the two actions have one result and leave related states. -/
def Alike {τ : Type} (R : σ → τ → Prop) (x : Action σ ε α) (y : Action τ ε α) : Prop :=
  ∀ s t, R s t → (x.outcome s).1 = (y.outcome t).1 ∧ R (x.outcome s).2 (y.outcome t).2

namespace Alike

variable {τ : Type} {R : σ → τ → Prop} {x : Action σ ε α} {y : Action τ ε α}
  {f : α → Action σ ε β} {g : α → Action τ ε β}

theorem pure (a : α) : Alike R (Pure.pure a : Action σ ε α) (Pure.pure a) :=
  fun _ _ h => ⟨rfl, h⟩

theorem reading {read : σ → Except ε α} {read' : τ → Except ε α}
    (h : ∀ s t, R s t → read s = read' t) : Alike R (Action.reading read) (Action.reading read') :=
  fun s t hst => ⟨h s t hst, hst⟩

theorem bind (h : Alike R x y) (hfg : ∀ a, Alike R (f a) (g a)) :
    Alike R (x >>= f) (y >>= g) := by
  intro s t hst
  obtain ⟨hresult, hleft⟩ := h s t hst
  cases hx : x.outcome s with
  | mk r s' =>
      cases hy : y.outcome t with
      | mk r' t' =>
          rw [hx, hy] at hresult hleft
          obtain rfl : r = r' := hresult
          cases r with
          | ok a =>
              rw [outcome_bind_ok hx, outcome_bind_ok hy]
              exact hfg a s' t' hleft
          | error e =>
              rw [outcome_bind_error hx, outcome_bind_error hy]
              exact ⟨rfl, hleft⟩

theorem mapError (h : Alike R x y) (wrap : ε → δ) :
    Alike R (Action.mapError wrap x) (Action.mapError wrap y) := by
  intro s t hst
  obtain ⟨hresult, hleft⟩ := h s t hst
  cases hx : x.outcome s with
  | mk r s' =>
      cases hy : y.outcome t with
      | mk r' t' =>
          rw [hx, hy] at hresult hleft
          obtain rfl : r = r' := hresult
          cases r with
          | ok a =>
              rw [outcome_mapError_ok hx, outcome_mapError_ok hy]
              exact ⟨rfl, hleft⟩
          | error e =>
              rw [outcome_mapError_error hx, outcome_mapError_error hy]
              exact ⟨rfl, hleft⟩

end Alike

end CacheUpkeep.Action

namespace CacheUpkeep

theorem eq_ok_of_toOption {ε α : Type} {x : Except ε α} {a : α} (h : x.toOption = some a) :
    x = .ok a := by
  cases x with
  | ok b =>
      cases h
      rfl
  | error e => cases h

theorem except_bind_eq_ok_iff {ε α β : Type} {x : Except ε α} {f : α → Except ε β} {b : β} :
    x.bind f = .ok b ↔ ∃ a, x = .ok a ∧ f a = .ok b := by
  cases x <;> simp [Except.bind]

theorem map_eq_ok {ε α β : Type} {x : Except ε α} {f : α → β} {b : β} (h : x.map f = .ok b) :
    ∃ a, x = .ok a ∧ f a = b := by
  cases x with
  | error e => cases h
  | ok a =>
      cases h
      exact ⟨a, rfl, rfl⟩

theorem map_eq_error {ε α β : Type} {x : Except ε α} {f : α → β} {e : ε}
    (h : x.map f = .error e) : x = .error e := by
  cases x with
  | error e' =>
      cases h
      rfl
  | ok a => cases h

theorem mapM_eq_ok_iff {ε α β : Type} {f : α → Except ε β} {as : List α} {bs : List β} :
    as.mapM f = .ok bs ↔ List.Forall₂ (fun a b => f a = .ok b) as bs := by
  induction as generalizing bs with
  | nil =>
      rw [List.mapM_nil, List.forall₂_nil_left_iff]
      constructor
      · intro h
        cases h
        rfl
      · rintro rfl
        rfl
  | cons a as ih =>
      rw [List.mapM_cons, List.forall₂_cons_left_iff]
      constructor
      · intro h
        cases ha : f a with
        | error e =>
            rw [ha] at h
            cases h
        | ok b =>
            cases has : as.mapM f with
            | error e =>
                rw [ha, has] at h
                cases h
            | ok cs =>
                rw [ha, has] at h
                cases h
                exact ⟨b, cs, rfl, ih.mp has, rfl⟩
      · rintro ⟨b, cs, hb, hcs, rfl⟩
        rw [hb, ih.mpr hcs]
        rfl

theorem mem_of_forall₂_ok {ε α β : Type} {f : α → Except ε β} {as : List α} {bs : List β}
    (h : List.Forall₂ (fun a b => f a = .ok b) as bs) {b : β} :
    b ∈ bs ↔ ∃ a ∈ as, f a = .ok b := by
  induction h with
  | nil => simp
  | cons hab _ ih => simp [hab, ih, eq_comm]

theorem map_of_forall₂_ok {ε α β : Type} {f : α → Except ε β} {g : β → α} {as : List α}
    {bs : List β} (h : List.Forall₂ (fun a b => f a = .ok b) as bs)
    (hg : ∀ a b, f a = .ok b → g b = a) : bs.map g = as := by
  induction h with
  | nil => rfl
  | cons hab _ ih => rw [List.map_cons, ih, hg _ _ hab]

theorem exists_forall₂_ok {ε α β : Type} {f : α → Except ε β} {as : List α}
    (h : ∀ a ∈ as, ∃ b, f a = .ok b) : ∃ bs, List.Forall₂ (fun a b => f a = .ok b) as bs := by
  induction as with
  | nil => exact ⟨[], .nil⟩
  | cons a as ih =>
      obtain ⟨b, hb⟩ := h a List.mem_cons_self
      obtain ⟨bs, hbs⟩ := ih fun a ha => h a (List.mem_cons_of_mem _ ha)
      exact ⟨b :: bs, .cons hb hbs⟩

theorem forall₂_filter_map {α β γ : Type} {R : α → β → Prop} {R' : α → γ → Prop}
    {keepA : α → Bool} {keepB : β → Bool} {f : β → γ} {as : List α} {bs : List β}
    (h : List.Forall₂ R as bs) (hkeep : ∀ a b, R a b → keepA a = keepB b)
    (hrel : ∀ a ∈ as, ∀ b, R a b → keepA a = true → R' a (f b)) :
    List.Forall₂ R' (as.filter keepA) ((bs.filter keepB).map f) := by
  induction h with
  | nil => exact .nil
  | @cons a b as bs hab _ ih =>
      have hrest := ih fun a ha => hrel a (List.mem_cons_of_mem _ ha)
      cases hk : keepA a with
      | true =>
          rw [List.filter_cons_of_pos hk, List.filter_cons_of_pos (hkeep a b hab ▸ hk),
            List.map_cons]
          exact .cons (hrel a List.mem_cons_self b hab hk) hrest
      | false =>
          rw [List.filter_cons_of_neg (by simp [hk]),
            List.filter_cons_of_neg (by simp [← hkeep a b hab, hk])]
          exact hrest

end CacheUpkeep
