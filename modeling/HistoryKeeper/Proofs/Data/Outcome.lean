/-!
# What a computation leaves behind

A computation with a state may fail, and what it did before stays done. `Leads R x` relates the state
before any run of `x` to the one behind it, whether the run failed or not.
-/

namespace HistoryKeeper

variable {ε σ α β : Type} {R : σ → σ → Prop}

def endState (result : EStateM.Result ε σ α) : σ :=
  match result with
  | .ok _ s => s
  | .error _ s => s

@[simp] theorem endState_ok (a : α) (s : σ) :
    endState (.ok a s : EStateM.Result ε σ α) = s := rfl

@[simp] theorem endState_error (e : ε) (s : σ) :
    endState (.error e s : EStateM.Result ε σ α) = s := rfl

/-- The outcome seen from other states. -/
def mapState {τ : Type} (f : σ → τ) : EStateM.Result ε σ α → EStateM.Result ε τ α
  | .ok a s => .ok a (f s)
  | .error e s => .error e (f s)

def Leads (R : σ → σ → Prop) (x : EStateM ε σ α) : Prop :=
  ∀ s, R s (endState (x s))

theorem Leads.pure (hrefl : ∀ s, R s s) (a : α) : Leads R (Pure.pure a : EStateM ε σ α) :=
  hrefl

theorem Leads.bind {x : EStateM ε σ α} {f : α → EStateM ε σ β}
    (htrans : ∀ {s t u}, R s t → R t u → R s u) (hx : Leads R x) (hf : ∀ a, Leads R (f a)) :
    Leads R (x >>= f) := by
  intro s
  have hs := hx s
  show R s (endState (EStateM.bind x f s))
  unfold EStateM.bind
  cases hr : x s with
  | ok a t =>
    rw [hr] at hs
    exact htrans hs (hf a t)
  | error e t =>
    rw [hr] at hs
    exact hs

theorem bind_eq_ok_of {x : EStateM ε σ α} {f : α → EStateM ε σ β} {s t : σ} {b : β}
    (h : (x >>= f) s = .ok b t) : ∃ a u, x s = .ok a u ∧ f a u = .ok b t := by
  change EStateM.bind x f s = _ at h
  unfold EStateM.bind at h
  cases hx : x s with
  | ok a u => exact ⟨a, u, rfl, by rw [hx] at h; exact h⟩
  | error e u => rw [hx] at h; cases h

end HistoryKeeper
