import Mathlib.Tactic

set_option autoImplicit false

/-! # Runs of a system and what holds along them

A system is a step function `step : σ → α → Option σ`: the state after an action, or `none`
where the action is not possible. `exec` runs a list of actions.

* `exec_invariant` is the induction every safety statement rests on: what holds at the start
  and is preserved by a step holds after every run.
* `Always P` says that `P` holds in every state a run goes through, `AllSteps ok` that every
  step the run takes is allowed by `ok`, a condition on the action and the state before it.
* **`always_iff_allSteps`**: if, from a state where `P` holds, a step keeps `P` exactly when
  `ok` allows it, then `P` holds along the whole run exactly when `ok` allows every step.
-/

namespace Runs

variable {σ α : Type} {step : σ → α → Option σ}

/-- The state after a list of actions, if all of them are possible. -/
def exec (step : σ → α → Option σ) : σ → List α → Option σ
  | s, [] => some s
  | s, a :: as => (step s a).bind (fun t => exec step t as)

theorem exec_cons (s : σ) (a : α) (as : List α) :
    exec step s (a :: as) = (step s a).bind (fun t => exec step t as) := rfl

theorem exec_cons_eq_some {s u : σ} {a : α} {as : List α} :
    exec step s (a :: as) = some u ↔ ∃ t, step s a = some t ∧ exec step t as = some u := by
  rw [exec_cons, Option.bind_eq_some_iff]

/-- A run of two parts. -/
theorem exec_append_eq_some {s u : σ} {as bs : List α} :
    exec step s (as ++ bs) = some u ↔ ∃ t, exec step s as = some t ∧ exec step t bs = some u := by
  induction as generalizing s with
  | nil =>
      constructor
      · intro h
        exact ⟨s, rfl, h⟩
      · rintro ⟨t, hst, htu⟩
        cases hst
        exact htu
  | cons a as ih =>
      rw [List.cons_append, exec_cons_eq_some]
      constructor
      · rintro ⟨t, hst, htu⟩
        obtain ⟨v, htv, hvu⟩ := ih.mp htu
        exact ⟨v, exec_cons_eq_some.mpr ⟨t, hst, htv⟩, hvu⟩
      · rintro ⟨v, hsv, hvu⟩
        obtain ⟨t, hst, htv⟩ := exec_cons_eq_some.mp hsv
        exact ⟨t, hst, ih.mpr ⟨v, htv, hvu⟩⟩

/-- A step that is always possible runs any list. -/
theorem exec_some (f : σ → α → σ) (s : σ) (as : List α) :
    exec (fun s a => some (f s a)) s as = some (as.foldl f s) := by
  induction as generalizing s with
  | nil => rfl
  | cons a as ih => exact ih (f s a)

/-- **Invariants.** What one step preserves, a run preserves. -/
theorem exec_invariant {P : σ → Prop} (hstep : ∀ s a t, P s → step s a = some t → P t)
    {s u : σ} {as : List α} (hs : P s) (h : exec step s as = some u) : P u := by
  induction as generalizing s with
  | nil =>
      cases h
      exact hs
  | cons a as ih =>
      obtain ⟨t, hst, htu⟩ := exec_cons_eq_some.mp h
      exact ih (hstep s a t hs hst) htu

/-- `P` holds in every state the run from `s` goes through, `s` included. -/
def Always (step : σ → α → Option σ) (P : σ → Prop) : σ → List α → Prop
  | s, [] => P s
  | s, a :: as => P s ∧ ∀ t, step s a = some t → Always step P t as

/-- Every step the run from `s` takes is allowed by `ok`. -/
def AllSteps (step : σ → α → Option σ) (ok : σ → α → Prop) : σ → List α → Prop
  | _, [] => True
  | s, a :: as => ∀ t, step s a = some t → ok s a ∧ AllSteps step ok t as

instance decidableAllSteps {ok : σ → α → Prop} [∀ s a, Decidable (ok s a)] :
    ∀ (s : σ) (as : List α), Decidable (AllSteps step ok s as)
  | _, [] => isTrue trivial
  | s, a :: as =>
      match h : step s a with
      | none => isTrue (fun t ht => by rw [h] at ht; cases ht)
      | some u =>
          have : Decidable (AllSteps step ok u as) := decidableAllSteps u as
          decidable_of_iff (ok s a ∧ AllSteps step ok u as)
            ⟨fun hu t ht => by rw [h] at ht; cases ht; exact hu, fun hu => hu u h⟩

/-- What holds along a run holds after it. -/
theorem Always.last {P : σ → Prop} {s u : σ} {as : List α} (h : Always step P s as)
    (hu : exec step s as = some u) : P u := by
  induction as generalizing s with
  | nil =>
      cases hu
      exact h
  | cons a as ih =>
      obtain ⟨t, hst, htu⟩ := exec_cons_eq_some.mp hu
      exact ih (h.2 t hst) htu

theorem Always.imp {P Q : σ → Prop} (hPQ : ∀ s, P s → Q s) {s : σ} {as : List α}
    (h : Always step P s as) : Always step Q s as := by
  induction as generalizing s with
  | nil => exact hPQ s h
  | cons a as ih => exact ⟨hPQ s h.1, fun t ht => ih (h.2 t ht)⟩

/-- **Invariants, along the run.** What every step preserves holds in every state. -/
theorem always_of_step {P : σ → Prop} (hstep : ∀ s a t, P s → step s a = some t → P t) {s : σ}
    (hs : P s) (as : List α) : Always step P s as := by
  induction as generalizing s with
  | nil => exact hs
  | cons a as ih => exact ⟨hs, fun t ht => ih (hstep s a t hs ht)⟩

/-- What every allowed step preserves holds in every state of a run of such steps. -/
theorem always_of_allSteps {P : σ → Prop} {ok : σ → α → Prop}
    (hstep : ∀ s a t, P s → ok s a → step s a = some t → P t) {s : σ} (hs : P s) {as : List α}
    (hok : AllSteps step ok s as) : Always step P s as := by
  induction as generalizing s with
  | nil => exact hs
  | cons a as ih =>
      refine ⟨hs, fun t ht => ?_⟩
      obtain ⟨ha, hrest⟩ := hok t ht
      exact ih (hstep s a t hs ha ht) hrest

/-- What holds of every action of a run holds of every step it takes. -/
theorem allSteps_of_forall {p : α → Prop} {as : List α} (h : ∀ a ∈ as, p a) (s : σ) :
    AllSteps step (fun _ a => p a) s as := by
  induction as generalizing s with
  | nil => trivial
  | cons a as ih =>
      exact fun t _ => ⟨h a List.mem_cons_self, ih (fun b hb => h b (List.mem_cons_of_mem a hb)) t⟩

/-- Two conditions on the steps of a run. -/
theorem AllSteps.and {p q : σ → α → Prop} {s : σ} {as : List α} (hp : AllSteps step p s as)
    (hq : AllSteps step q s as) : AllSteps step (fun s a => p s a ∧ q s a) s as := by
  induction as generalizing s with
  | nil => trivial
  | cons a as ih =>
      intro t ht
      obtain ⟨hpa, hp⟩ := hp t ht
      obtain ⟨hqa, hq⟩ := hq t ht
      exact ⟨⟨hpa, hqa⟩, ih hp hq⟩

/-- **Exact conditions.** `I` is an invariant of the steps that meet the assumption `asm`. If,
under `I` and from a state where `P` holds, such a step keeps `P` exactly when `ok` allows it,
then `P` holds along a run of such steps exactly when every step of it is allowed. -/
theorem always_iff_allSteps {asm ok : σ → α → Prop} {I P : σ → Prop}
    (hI : ∀ s a t, I s → asm s a → step s a = some t → I t)
    (hstep : ∀ s a t, I s → P s → asm s a → step s a = some t → (P t ↔ ok s a))
    {s : σ} {as : List α} (hIs : I s) (hs : P s) (hasm : AllSteps step asm s as) :
    Always step P s as ↔ AllSteps step ok s as := by
  induction as generalizing s with
  | nil => exact ⟨fun _ => trivial, fun _ => hs⟩
  | cons a as ih =>
      constructor
      · rintro ⟨-, h⟩ t ht
        obtain ⟨ha, hrest⟩ := hasm t ht
        -- `t` is the first state of the rest of the run
        have hP : P t := by
          cases as with
          | nil => exact h t ht
          | cons b bs => exact (h t ht).1
        have hok : ok s a := (hstep s a t hIs hs ha ht).mp hP
        exact ⟨hok, (ih (hI s a t hIs ha ht) hP hrest).mp (h t ht)⟩
      · intro h
        refine ⟨hs, fun t ht => ?_⟩
        obtain ⟨ha, hrest⟩ := hasm t ht
        obtain ⟨hok, hall⟩ := h t ht
        exact (ih (hI s a t hIs ha ht) ((hstep s a t hIs hs ha ht).mpr hok) hrest).mpr hall

/-- **Exact conditions at the end of a run.** If a step that meets the assumption leads to `P`
exactly when `P` held before and `ok` allows the step, then `P` holds after a run of such steps
exactly when it held at the start and every step is allowed. -/
theorem exec_iff_allSteps_of {asm ok : σ → α → Prop} {I P : σ → Prop}
    (hI : ∀ s a t, I s → asm s a → step s a = some t → I t)
    (hstep : ∀ s a t, I s → asm s a → step s a = some t → (P t ↔ P s ∧ ok s a))
    {s u : σ} {as : List α} (hIs : I s) (hasm : AllSteps step asm s as)
    (h : exec step s as = some u) : P u ↔ P s ∧ AllSteps step ok s as := by
  induction as generalizing s with
  | nil =>
      cases h
      exact ⟨fun hP => ⟨hP, trivial⟩, fun hP => hP.1⟩
  | cons a as ih =>
      obtain ⟨t, hst, htu⟩ := exec_cons_eq_some.mp h
      obtain ⟨ha, hasm'⟩ := hasm t hst
      rw [ih (hI s a t hIs ha hst) hasm' htu, hstep s a t hIs ha hst]
      constructor
      · rintro ⟨⟨hP, hok⟩, hrest⟩
        refine ⟨hP, fun t' ht' => ?_⟩
        cases hst.symm.trans ht'
        exact ⟨hok, hrest⟩
      · rintro ⟨hP, hall⟩
        obtain ⟨hok, hrest⟩ := hall t hst
        exact ⟨⟨hP, hok⟩, hrest⟩

/-- The same when every step is covered. -/
theorem exec_iff_allSteps {ok : σ → α → Prop} {I P : σ → Prop}
    (hI : ∀ s a t, I s → step s a = some t → I t)
    (hstep : ∀ s a t, I s → step s a = some t → (P t ↔ P s ∧ ok s a))
    {s u : σ} {as : List α} (hIs : I s) (h : exec step s as = some u) :
    P u ↔ P s ∧ AllSteps step ok s as :=
  exec_iff_allSteps_of (fun s a t hIs _ => hI s a t hIs) (fun s a t hIs _ => hstep s a t hIs) hIs
    (allSteps_of_forall (p := fun _ => True) (fun _ _ => trivial) s) h

end Runs
