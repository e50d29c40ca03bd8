import Mathlib.Data.Rat.Lemmas
import Mathlib.Order.Bounds.Basic
import Mathlib.Algebra.Order.Ring.Rat
import Mathlib.Tactic

set_option autoImplicit false

/-! # Aggregates of a column and how they compose

The aggregates a keyed selection applies to the rows of one group: first, last, maximum,
minimum, sum, and the weighted average of a column that may hold nulls. A null is `none`; a
quotient by zero is null.

Groups are never empty. For each aggregate there is a **two-level law**: on a list of
non-empty groups, aggregating the groups' aggregates is aggregating the concatenation
(`firstOf_flatten`, `lastOf_flatten`, `maxOf_flatten`, `minOf_flatten`); for the
weighted average it holds up to the groups of total weight zero (`wavg_flatten_iff`).
-/

namespace Aggregates

/-! ## First and last -/

section

variable {α β : Type}

/-- The first element of a column; `d` stands for the null of an empty one. -/
def firstOf (d : β) (f : α → β) (l : List α) : β := (l.map f).headD d

/-- The last element of a column. -/
def lastOf (d : β) (f : α → β) (l : List α) : β := (l.map f).getLastD d

theorem firstOf_map {γ : Type} (d : β) (f : α → β) (g : γ → α) (l : List γ) :
    firstOf d f (l.map g) = firstOf d (fun c => f (g c)) l := by
  rw [firstOf, firstOf, List.map_map]
  rfl

theorem lastOf_map {γ : Type} (d : β) (f : α → β) (g : γ → α) (l : List γ) :
    lastOf d f (l.map g) = lastOf d (fun c => f (g c)) l := by
  rw [lastOf, lastOf, List.map_map]
  rfl

theorem firstOf_flatten (d : β) (f : α → β) {gs : List (List α)} (hgs : ∀ g ∈ gs, g ≠ []) :
    firstOf d (firstOf d f) gs = firstOf d f gs.flatten := by
  cases gs with
  | nil => rfl
  | cons g t =>
      cases g with
      | nil => exact absurd rfl (hgs [] (by simp))
      | cons a u => rfl

theorem lastOf_append (d : β) (f : α → β) (l : List α) {m : List α} (hm : m ≠ []) :
    lastOf d f (l ++ m) = lastOf d f m := by
  rw [lastOf, lastOf, List.map_append, List.getLastD_eq_getLast?, List.getLastD_eq_getLast?,
    List.getLast?_append_of_ne_nil _ (by simpa using hm)]

theorem lastOf_flatten (d : β) (f : α → β) {gs : List (List α)} (hgs : ∀ g ∈ gs, g ≠ []) :
    lastOf d (lastOf d f) gs = lastOf d f gs.flatten := by
  induction gs with
  | nil => rfl
  | cons g t ih =>
      have ih := ih (fun g' hg' => hgs g' (by simp [hg']))
      cases t with
      | nil => simp [lastOf]
      | cons g' u =>
          have hne : (g' :: u).flatten ≠ [] := by
            have := hgs g' (by simp)
            simp [this]
          rw [List.flatten_cons, lastOf_append d f g hne, ← ih]
          rfl

end

/-! ## Maximum and minimum -/

section

variable {α β : Type} [LinearOrder β]

/-- The maximum of a column. -/
def maxOf (d : β) (f : α → β) : List α → β
  | [] => d
  | a :: l => (l.map f).foldl max (f a)

/-- The minimum of a column. -/
def minOf (d : β) (f : α → β) : List α → β
  | [] => d
  | a :: l => (l.map f).foldl min (f a)

theorem maxOf_map {γ : Type} (d : β) (f : α → β) (g : γ → α) (l : List γ) :
    maxOf d f (l.map g) = maxOf d (fun c => f (g c)) l := by
  cases l with
  | nil => rfl
  | cons a l =>
      rw [List.map_cons, maxOf, maxOf, List.map_map]
      rfl

theorem minOf_map {γ : Type} (d : β) (f : α → β) (g : γ → α) (l : List γ) :
    minOf d f (l.map g) = minOf d (fun c => f (g c)) l := by
  cases l with
  | nil => rfl
  | cons a l =>
      rw [List.map_cons, minOf, minOf, List.map_map]
      rfl

private theorem foldl_max_isGreatest (x : β) (l : List β) :
    IsGreatest {y | y ∈ x :: l} (l.foldl max x) := by
  induction l generalizing x with
  | nil => exact ⟨by simp, by intro y hy; simpa using (List.mem_singleton.mp hy).le⟩
  | cons a l ih =>
      obtain ⟨hmem, hub⟩ := ih (max x a)
      have hx : max x a ≤ l.foldl max (max x a) := hub (by simp)
      constructor
      · show l.foldl max (max x a) ∈ x :: a :: l
        rcases List.mem_cons.mp hmem with h | h
        · rcases max_choice x a with hm | hm
          · rw [h, hm]; simp
          · rw [h, hm]; simp
        · exact List.mem_cons_of_mem _ (List.mem_cons_of_mem _ h)
      · intro y hy
        rcases List.mem_cons.mp hy with rfl | hy
        · exact le_trans (le_max_left _ _) hx
        · rcases List.mem_cons.mp hy with rfl | hy
          · exact le_trans (le_max_right _ _) hx
          · exact hub (List.mem_cons_of_mem _ hy)

theorem maxOf_isGreatest (d : β) (f : α → β) {l : List α} (hl : l ≠ []) :
    IsGreatest {y | ∃ a ∈ l, f a = y} (maxOf d f l) := by
  cases l with
  | nil => exact absurd rfl hl
  | cons a l =>
      have h := foldl_max_isGreatest (f a) (l.map f)
      have hset : {y | y ∈ f a :: l.map f} = {y | ∃ b ∈ a :: l, f b = y} := by
        ext y
        rw [Set.mem_ofPred_eq, Set.mem_ofPred_eq, ← List.map_cons, List.mem_map]
      rwa [hset] at h

theorem minOf_eq_maxOf (d : β) (f : α → β) (l : List α) :
    minOf d f l
      = OrderDual.ofDual (maxOf (OrderDual.toDual d) (fun a => OrderDual.toDual (f a)) l) := by
  cases l with
  | nil => rfl
  | cons a l =>
      show (l.map f).foldl min (f a) = _
      rw [List.foldl_map]
      show _ = OrderDual.ofDual ((l.map _).foldl max (OrderDual.toDual (f a)))
      rw [List.foldl_map]
      rfl

/-- The maximum does not depend on the order. -/
theorem maxOf_perm (d : β) (f : α → β) {l l' : List α} (h : l.Perm l') :
    maxOf d f l = maxOf d f l' := by
  by_cases hl : l = []
  · subst hl
    rw [List.nil_perm.mp h]
  · have hl' : l' ≠ [] := fun hnil => hl (List.perm_nil.mp (hnil ▸ h))
    have hset : {y | ∃ a ∈ l, f a = y} = {y | ∃ a ∈ l', f a = y} := by
      ext y
      simp only [Set.mem_ofPred_eq, h.mem_iff]
    have hgreatest := maxOf_isGreatest d f hl
    rw [hset] at hgreatest
    exact hgreatest.unique (maxOf_isGreatest d f hl')

theorem minOf_perm (d : β) (f : α → β) {l l' : List α} (h : l.Perm l') :
    minOf d f l = minOf d f l' := by
  rw [minOf_eq_maxOf, minOf_eq_maxOf, maxOf_perm _ _ h]

theorem maxOf_flatten (d : β) (f : α → β) {gs : List (List α)} (hne : gs ≠ [])
    (hgs : ∀ g ∈ gs, g ≠ []) : maxOf d (maxOf d f) gs = maxOf d f gs.flatten := by
  have hfl : gs.flatten ≠ [] := by
    obtain ⟨g, hg⟩ := List.exists_mem_of_ne_nil gs hne
    obtain ⟨a, ha⟩ := List.exists_mem_of_ne_nil g (hgs g hg)
    exact List.ne_nil_of_mem (List.mem_flatten.mpr ⟨g, hg, ha⟩)
  refine (maxOf_isGreatest d (maxOf d f) hne).unique ?_
  obtain ⟨⟨a, ha, hfa⟩, hub⟩ := maxOf_isGreatest d f hfl
  constructor
  · obtain ⟨g, hg, hag⟩ := List.mem_flatten.mp ha
    refine ⟨g, hg, le_antisymm ?_ ?_⟩
    · obtain ⟨⟨b, hb, hfb⟩, -⟩ := maxOf_isGreatest d f (hgs g hg)
      rw [← hfb]
      exact hub ⟨b, List.mem_flatten.mpr ⟨g, hg, hb⟩, rfl⟩
    · rw [← hfa]
      exact (maxOf_isGreatest d f (hgs g hg)).2 ⟨a, hag, rfl⟩
  · rintro y ⟨g, hg, rfl⟩
    obtain ⟨⟨b, hb, hfb⟩, -⟩ := maxOf_isGreatest d f (hgs g hg)
    rw [← hfb]
    exact hub ⟨b, List.mem_flatten.mpr ⟨g, hg, hb⟩, rfl⟩

theorem minOf_flatten (d : β) (f : α → β) {gs : List (List α)} (hne : gs ≠ [])
    (hgs : ∀ g ∈ gs, g ≠ []) : minOf d (minOf d f) gs = minOf d f gs.flatten := by
  have h := maxOf_flatten (OrderDual.toDual d) (fun a => OrderDual.toDual (f a)) hne hgs
  rw [minOf_eq_maxOf, minOf_eq_maxOf d f gs.flatten, ← h]
  congr 2

end

/-! ## Sums and the weighted average -/

section

variable {α : Type}

/-- A quotient; null when the divisor is zero. -/
def div (a b : ℚ) : Option ℚ := if b = 0 then none else some (a / b)

/-- The sum of a column. -/
def sumOf (f : α → ℚ) (l : List α) : ℚ := (l.map f).sum

theorem sumOf_map {γ : Type} (f : α → ℚ) (g : γ → α) (l : List γ) :
    sumOf f (l.map g) = sumOf (fun c => f (g c)) l := by
  rw [sumOf, sumOf, List.map_map]
  rfl

theorem sumOf_perm (f : α → ℚ) {l l' : List α} (h : l.Perm l') : sumOf f l = sumOf f l' :=
  (h.map f).sum_eq

theorem sumOf_flatten (f : α → ℚ) (gs : List (List α)) :
    sumOf (sumOf f) gs = sumOf f gs.flatten := by
  induction gs with
  | nil => rfl
  | cons g t ih =>
      have happ : sumOf f (g ++ t.flatten) = sumOf f g + sumOf f t.flatten := by
        rw [sumOf, List.map_append, List.sum_append]
        rfl
      rw [List.flatten_cons, happ, ← ih]
      rfl

/-- The average of the column `y` weighted by `w`, over the rows where `y` is not null. -/
def wavg (w : α → ℚ) (y : α → Option ℚ) (l : List α) : Option ℚ :=
  let m := l.filter (fun a => (y a).isSome)
  div (sumOf (fun a => w a * (y a).getD 0) m) (sumOf w m)

theorem wavg_map {γ : Type} (w : α → ℚ) (y : α → Option ℚ) (g : γ → α) (l : List γ) :
    wavg w y (l.map g) = wavg (fun c => w (g c)) (fun c => y (g c)) l := by
  rw [wavg, wavg, List.filter_map, sumOf_map, sumOf_map]
  rfl

theorem wavg_perm (w : α → ℚ) (y : α → Option ℚ) {l l' : List α} (h : l.Perm l') :
    wavg w y l = wavg w y l' := by
  rw [wavg, wavg, sumOf_perm _ (h.filter _), sumOf_perm _ (h.filter _)]

/-- Without nulls the weighted average is the quotient of the two sums. -/
theorem wavg_some (w y : α → ℚ) (l : List α) :
    wavg w (fun a => some (y a)) l = div (sumOf (fun a => w a * y a) l) (sumOf w l) := by
  simp [wavg]

theorem sumOf_nonneg {w : α → ℚ} {l : List α} (hw : ∀ a ∈ l, 0 ≤ w a) : 0 ≤ sumOf w l :=
  List.sum_nonneg (by simpa [List.mem_map] using hw)

/-- A column of non-negative numbers with sum zero is zero everywhere. -/
theorem eq_zero_of_sumOf_eq_zero {w : α → ℚ} {l : List α} (hw : ∀ a ∈ l, 0 ≤ w a)
    (h : sumOf w l = 0) : ∀ a ∈ l, w a = 0 := by
  induction l with
  | nil => intro a ha; simp at ha
  | cons b t ih =>
      have hb : 0 ≤ w b := hw b (by simp)
      have ht : 0 ≤ sumOf w t := sumOf_nonneg (fun a ha => hw a (by simp [ha]))
      have hsum : w b + sumOf w t = 0 := by simpa [sumOf] using h
      intro a ha
      rcases List.mem_cons.mp ha with rfl | ha
      · linarith
      · exact ih (fun a ha => hw a (by simp [ha])) (by linarith) a ha

theorem sumOf_eq_zero {f : α → ℚ} {l : List α} (h : ∀ a ∈ l, f a = 0) : sumOf f l = 0 := by
  apply List.sum_eq_zero
  intro x hx
  obtain ⟨a, ha, rfl⟩ := List.mem_map.mp hx
  exact h a ha

private theorem sumOf_filter_of_zero {f : α → ℚ} {p : α → Bool} {l : List α}
    (h : ∀ a ∈ l, p a = false → f a = 0) : sumOf f (l.filter p) = sumOf f l := by
  induction l with
  | nil => rfl
  | cons a t ih =>
      have ih := ih (fun b hb => h b (by simp [hb]))
      rw [List.filter_cons]
      cases hp : p a with
      | true =>
          simp only [if_true]
          show f a + sumOf f (t.filter p) = f a + sumOf f t
          rw [ih]
      | false =>
          show sumOf f (t.filter p) = f a + sumOf f t
          rw [ih, h a (by simp) hp, zero_add]

private theorem sumOf_filter_add (f : α → ℚ) (p : α → Bool) (l : List α) :
    sumOf f (l.filter p) + sumOf f (l.filter (fun a => !p a)) = sumOf f l := by
  induction l with
  | nil => exact add_zero _
  | cons a t ih =>
      have hcons : ∀ u : List α, sumOf f (a :: u) = f a + sumOf f u := fun _ => List.sum_cons
      cases hp : p a with
      | true =>
          simp only [List.filter_cons, hp, Bool.not_true, if_true, Bool.false_eq_true, if_false]
          rw [hcons, hcons, ← ih, add_assoc]
      | false =>
          simp only [List.filter_cons, hp, Bool.not_false, if_true, Bool.false_eq_true, if_false]
          rw [hcons, hcons, ← ih, add_left_comm]

/-- What the groups of total weight zero add to the weighted sum. -/
def weightless (w y : α → ℚ) (gs : List (List α)) : ℚ :=
  sumOf (sumOf (fun a => w a * y a)) (gs.filter (fun g => decide (sumOf w g = 0)))

/-- **Two-level weighted average.** Weighting each group's average by the group's total
weight is the average of the concatenation, unless that average exists and groups of total
weight zero, whose own average is null, contribute to it. -/
theorem wavg_flatten_iff {w y : α → ℚ} {gs : List (List α)} :
    wavg (sumOf w) (wavg w (fun a => some (y a))) gs = wavg w (fun a => some (y a)) gs.flatten
      ↔ sumOf w gs.flatten = 0 ∨ weightless w y gs = 0 := by
  have hp : (fun g : List α => (wavg w (fun a => some (y a)) g).isSome)
      = fun g => !decide (sumOf w g = 0) := by
    funext g
    rw [wavg_some, div]
    by_cases h : sumOf w g = 0
    · rw [if_pos h, decide_eq_true h]
      rfl
    · rw [if_neg h, decide_eq_false h]
      rfl
  have hw : sumOf (sumOf w) (gs.filter (fun g => !decide (sumOf w g = 0)))
      = sumOf w gs.flatten := by
    rw [← sumOf_flatten]
    exact sumOf_filter_of_zero (fun g _ hg => by simpa using hg)
  have hterm : ∀ g ∈ gs.filter (fun g => !decide (sumOf w g = 0)),
      sumOf w g * (wavg w (fun a => some (y a)) g).getD 0 = sumOf (fun a => w a * y a) g := by
    intro g hg
    have hne : sumOf w g ≠ 0 := by simpa using (List.mem_filter.mp hg).2
    rw [wavg_some, div, if_neg hne]
    exact mul_div_cancel₀ _ hne
  have hsum : sumOf (fun g => sumOf w g * (wavg w (fun a => some (y a)) g).getD 0)
      (gs.filter (fun g => !decide (sumOf w g = 0)))
      = sumOf (fun a => w a * y a) gs.flatten - weightless w y gs := by
    have hsplit := sumOf_filter_add (sumOf (fun a => w a * y a))
      (fun g => decide (sumOf w g = 0)) gs
    rw [← sumOf_flatten, ← hsplit, weightless, add_sub_cancel_left, sumOf, sumOf,
      List.map_congr_left hterm]
  rw [wavg_some, wavg, hp, hsum, hw, div, div]
  by_cases h0 : sumOf w gs.flatten = 0
  · simp [h0]
  · rw [if_neg h0, if_neg h0, Option.some_inj, div_left_inj' h0, sub_eq_self]
    simp [h0]

/-- Weights that are not negative leave no group of total weight zero that contributes. -/
theorem weightless_eq_zero {w y : α → ℚ} {gs : List (List α)}
    (hw : ∀ a ∈ gs.flatten, 0 ≤ w a) : weightless w y gs = 0 := by
  refine sumOf_eq_zero (fun g hg => sumOf_eq_zero (fun a ha => ?_))
  obtain ⟨hg, h0⟩ := List.mem_filter.mp hg
  have hgw : ∀ b ∈ g, 0 ≤ w b := fun b hb => hw b (List.mem_flatten.mpr ⟨g, hg, hb⟩)
  rw [eq_zero_of_sumOf_eq_zero hgw (of_decide_eq_true h0) a ha, zero_mul]

end

end Aggregates
