import Mathlib.Tactic

set_option autoImplicit false

/-! # Computations that may raise

`Except ε α` is a computation that returns or raises, `Succeeds` says that it returns. A map
returns when every element does (`mapM_eq_ok`). A fold whose rounds do not get in each other's
way, in that no round changes what a later one does, succeeds when each round does from the state
the fold starts from (`succeeds_foldlM`), and puts out what each round puts out from there
(`foldlM_out`). Two computations `Agree` when they raise the same or return related values.
-/

namespace Raising

variable {ε α β γ σ : Type}

/-- The computation returns. -/
def Succeeds (x : Except ε α) : Prop := ∃ a, x = .ok a

theorem succeeds_ok (a : α) : Succeeds (.ok a : Except ε α) := ⟨a, rfl⟩

theorem not_succeeds_error (e : ε) : ¬Succeeds (.error e : Except ε α) := by
  rintro ⟨a, h⟩
  cases h

theorem bind_eq_ok {x : Except ε α} {f : α → Except ε β} {b : β} :
    x >>= f = .ok b ↔ ∃ a, x = .ok a ∧ f a = .ok b := by
  cases x with
  | error e =>
      constructor
      · intro h
        cases h
      · rintro ⟨a, h, -⟩
        cases h
  | ok a =>
      constructor
      · intro h
        exact ⟨a, rfl, h⟩
      · rintro ⟨b, h, hb⟩
        cases h
        exact hb

theorem bind_eq_error {x : Except ε α} {f : α → Except ε β} {e : ε} :
    x >>= f = .error e ↔ x = .error e ∨ ∃ a, x = .ok a ∧ f a = .error e := by
  cases x with
  | error e' =>
      constructor
      · intro h
        cases h
        exact Or.inl rfl
      · rintro (h | ⟨a, h, -⟩)
        · cases h
          rfl
        · cases h
  | ok a =>
      constructor
      · intro h
        exact Or.inr ⟨a, rfl, h⟩
      · rintro (h | ⟨b, h, hb⟩)
        · cases h
        · cases h
          exact hb

/-- A result that is only wrapped raises nothing of its own. -/
theorem bind_pure_eq_error {x : Except ε α} {f : α → β} {e : ε} :
    (x >>= fun a => pure (f a)) = .error e ↔ x = .error e := by
  rw [bind_eq_error]
  constructor
  · rintro (h | ⟨a, -, h⟩)
    · exact h
    · cases h
  · exact Or.inl

theorem succeeds_bind {x : Except ε α} {f : α → Except ε β} :
    Succeeds (x >>= f) ↔ ∃ a, x = .ok a ∧ Succeeds (f a) := by
  constructor
  · rintro ⟨b, h⟩
    obtain ⟨a, ha, hb⟩ := bind_eq_ok.mp h
    exact ⟨a, ha, b, hb⟩
  · rintro ⟨a, ha, b, hb⟩
    exact ⟨b, bind_eq_ok.mpr ⟨a, ha, hb⟩⟩

/-! ## Maps -/

/-- What a computation returns, as a list: nothing if it raises. -/
def returned (x : Except ε α) : List α :=
  match x with
  | .ok a => [a]
  | .error _ => []

/-- **A map returns** when every element does, and then what each of them returns. -/
theorem mapM_eq_ok {f : α → Except ε β} {l : List α} {m : List β} :
    l.mapM f = .ok m ↔ (∀ a ∈ l, Succeeds (f a)) ∧ m = l.flatMap (fun a => returned (f a)) := by
  induction l generalizing m with
  | nil =>
      rw [List.mapM_nil]
      constructor
      · intro h
        exact ⟨fun a ha => absurd ha List.not_mem_nil, (Except.ok.inj h).symm⟩
      · rintro ⟨-, rfl⟩
        rfl
  | cons a t ih =>
      rw [List.mapM_cons, bind_eq_ok, List.forall_mem_cons, List.flatMap_cons]
      constructor
      · rintro ⟨b, hb, h⟩
        obtain ⟨m', hm, hret⟩ := bind_eq_ok.mp h
        obtain ⟨hall, rfl⟩ := ih.mp hm
        refine ⟨⟨⟨b, hb⟩, hall⟩, ?_⟩
        rw [hb]
        exact (Except.ok.inj hret).symm
      · rintro ⟨⟨⟨b, hb⟩, hall⟩, rfl⟩
        refine ⟨b, hb, bind_eq_ok.mpr ⟨_, ih.mpr ⟨hall, rfl⟩, ?_⟩⟩
        rw [hb]
        rfl

theorem length_of_mapM {f : α → Except ε β} {l : List α} {m : List β} (h : l.mapM f = .ok m) :
    m.length = l.length := by
  induction l generalizing m with
  | nil =>
      cases h
      rfl
  | cons a l ih =>
      rw [List.mapM_cons] at h
      obtain ⟨b, -, h⟩ := bind_eq_ok.mp h
      obtain ⟨m', hm, h⟩ := bind_eq_ok.mp h
      cases h
      rw [List.length_cons, List.length_cons, ih hm]

/-- What a map over images returns when every image has a known result. -/
theorem mapM_map_eq_ok {f : α → Except ε β} {a : γ → α} {g : γ → β} {l : List γ}
    (h : ∀ c ∈ l, f (a c) = .ok (g c)) : (l.map a).mapM f = .ok (l.map g) := by
  refine mapM_eq_ok.mpr ⟨fun q hq => ?_, ?_⟩
  · obtain ⟨c, hc, rfl⟩ := List.mem_map.mp hq
    exact ⟨g c, h c hc⟩
  · rw [List.flatMap_map, List.map_eq_flatMap]
    refine List.flatMap_congr (fun c hc => ?_)
    rw [h c hc]
    rfl

/-! ## Folds -/

section

variable {f : σ → α → Except ε σ} {l : List α} {s s' : σ}

/-- **A fold of independent rounds** succeeds when each round would from the start. -/
theorem succeeds_foldlM (ok : σ → α → Prop) (hround : ∀ s a, Succeeds (f s a) ↔ ok s a)
    (hindep : l.Pairwise (fun a b => ∀ s s', f s a = .ok s' → (ok s' b ↔ ok s b))) :
    Succeeds (l.foldlM f s) ↔ ∀ a ∈ l, ok s a := by
  induction l generalizing s with
  | nil =>
      rw [List.foldlM_nil]
      exact ⟨fun _ a ha => absurd ha List.not_mem_nil, fun _ => succeeds_ok s⟩
  | cons a t ih =>
      obtain ⟨ha, ht⟩ := List.pairwise_cons.mp hindep
      rw [List.foldlM_cons, succeeds_bind, List.forall_mem_cons]
      constructor
      · rintro ⟨s', hs', hrest⟩
        refine ⟨(hround s a).mp ⟨s', hs'⟩, fun b hb => ?_⟩
        exact (ha b hb s s' hs').mp ((ih ht).mp hrest b hb)
      · rintro ⟨hok, hrest⟩
        obtain ⟨s', hs'⟩ := (hround s a).mpr hok
        exact ⟨s', hs', (ih ht).mpr (fun b hb => (ha b hb s s' hs').mpr (hrest b hb))⟩

/-- What a fold of independent rounds puts out. -/
theorem foldlM_out (out : σ → List β) (put : σ → α → List β)
    (hround : ∀ s a s', f s a = .ok s' → out s' = out s ++ put s a)
    (hindep : l.Pairwise (fun a b => ∀ s s', f s a = .ok s' → put s' b = put s b))
    (h : l.foldlM f s = .ok s') : out s' = out s ++ l.flatMap (put s) := by
  induction l generalizing s with
  | nil =>
      cases h
      exact (List.append_nil _).symm
  | cons a t ih =>
      obtain ⟨ha, ht⟩ := List.pairwise_cons.mp hindep
      rw [List.foldlM_cons] at h
      obtain ⟨s₁, hs₁, hrest⟩ := bind_eq_ok.mp h
      have hput : t.flatMap (put s₁) = t.flatMap (put s) :=
        List.flatMap_congr (fun b hb => ha b hb s s₁ hs₁)
      rw [ih ht hrest, hround s a s₁ hs₁, hput, List.flatMap_cons, List.append_assoc]

end

/-- A fold whose rounds succeed from any state alike succeeds when each element does. -/
theorem succeeds_foldlM_of_forall {f : σ → α → Except ε σ} {ok : α → Prop} {l : List α} {s : σ}
    (hround : ∀ s a, Succeeds (f s a) ↔ ok a) : Succeeds (l.foldlM f s) ↔ ∀ a ∈ l, ok a :=
  succeeds_foldlM (fun _ => ok) hround
    (List.pairwise_of_forall (fun _ _ _ _ _ => Iff.rfl))

/-! ## Agreement -/

/-- Two computations raise the same exception or return related values. -/
inductive Agree (R : α → β → Prop) : Except ε α → Except ε β → Prop
  | ok {a : α} {b : β} (h : R a b) : Agree R (.ok a) (.ok b)
  | error (e : ε) : Agree R (.error e) (.error e)

namespace Agree

variable {R : α → β → Prop} {x : Except ε α} {y : Except ε β}

theorem bind {α' β' : Type} {S : α' → β' → Prop} {f : α → Except ε α'} {g : β → Except ε β'}
    (h : Agree R x y) (hrest : ∀ a b, R a b → Agree S (f a) (g b)) :
    Agree S (x >>= f) (y >>= g) := by
  cases h with
  | ok hab => exact hrest _ _ hab
  | error e => exact error e

/-- Folds agree when their rounds do. -/
theorem foldlM {σ τ : Type} {R : σ → τ → Prop} {f : σ → γ → Except ε σ} {g : τ → γ → Except ε τ}
    {l : List γ} (hround : ∀ s t, ∀ a ∈ l, R s t → Agree R (f s a) (g t a)) {s : σ} {t : τ}
    (h : R s t) : Agree R (l.foldlM f s) (l.foldlM g t) := by
  induction l generalizing s t with
  | nil => exact ok h
  | cons a l ih =>
      rw [List.foldlM_cons, List.foldlM_cons]
      refine (hround s t a List.mem_cons_self h).bind (fun s' t' hst => ?_)
      exact ih (fun s t b hb => hround s t b (List.mem_cons_of_mem a hb)) hst

end Agree

end Raising
