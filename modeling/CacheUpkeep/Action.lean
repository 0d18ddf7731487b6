/-!
# Actions

An action reads and changes a state, and ends with a value or an error.  What
an action has changed before its error stays changed.
-/

namespace CacheUpkeep

abbrev Action (σ ε α : Type) : Type :=
  ExceptT ε (StateM σ) α

namespace Action

def outcome {σ ε α : Type} (x : Action σ ε α) (s : σ) : Except ε α × σ :=
  x.run.run s

def ofOutcome {σ ε α : Type} (f : σ → Except ε α × σ) : Action σ ε α :=
  fun s => f s

/-- An action that only reads. -/
def reading {σ ε α : Type} (f : σ → Except ε α) : Action σ ε α :=
  ofOutcome fun s => (f s, s)

def changing {σ ε : Type} (f : σ → Except ε σ) : Action σ ε Unit :=
  ofOutcome fun s =>
    match f s with
    | .ok t => (.ok (), t)
    | .error e => (.error e, s)

def mapError {σ ε δ α : Type} (f : ε → δ) (x : Action σ ε α) : Action σ δ α :=
  ofOutcome fun s =>
    match x.outcome s with
    | (.ok a, t) => (.ok a, t)
    | (.error e, t) => (.error (f e), t)

def within {σ τ ε α : Type} (part : σ → τ) (put : τ → σ → σ) (x : Action τ ε α) :
    Action σ ε α :=
  ofOutcome fun s =>
    let (r, t) := x.outcome (part s)
    (r, put t s)

/-- Runs `last` after `x`, whether `x` fails or not. -/
def thenAlways {σ ε α : Type} (x : Action σ ε α) (last : σ → σ) : Action σ ε α :=
  ofOutcome fun s =>
    let (r, t) := x.outcome s
    (r, last t)

end Action

end CacheUpkeep
