import NanoTick.Basic.Aggregates
import Mathlib.Tactic

set_option autoImplicit false

/-! # Averages and what bounds them

Where the weights are positive, a weighted average exists and lies between any bounds of the
averaged column (`wavg_between`). The mean is the average with weight one; a mean of numbers that
are at most one is one only when all of them are (`mean_eq_one_iff`).
-/

namespace Aggregates

variable {α : Type}

/-! ## Extremes and ends -/

section

variable {β : Type} [LinearOrder β]

theorem le_maxOf (d : β) (f : α → β) {l : List α} {a : α} (ha : a ∈ l) : f a ≤ maxOf d f l :=
  (maxOf_isGreatest d f (List.ne_nil_of_mem ha)).2 ⟨a, ha, rfl⟩

theorem minOf_le (d : β) (f : α → β) {l : List α} {a : α} (ha : a ∈ l) : minOf d f l ≤ f a := by
  rw [minOf_eq_maxOf]
  exact le_maxOf (OrderDual.toDual d) (fun a => OrderDual.toDual (f a)) ha

end

theorem exists_firstOf {β : Type} (d : β) (f : α → β) {l : List α} (hl : l ≠ []) :
    ∃ a ∈ l, firstOf d f l = f a := by
  cases l with
  | nil => exact absurd rfl hl
  | cons a l => exact ⟨a, List.mem_cons_self, rfl⟩

theorem exists_lastOf {β : Type} (d : β) (f : α → β) {l : List α} (hl : l ≠ []) :
    ∃ a ∈ l, lastOf d f l = f a := by
  refine ⟨l.getLast hl, List.getLast_mem hl, ?_⟩
  rw [lastOf, List.getLastD_eq_getLast?, List.getLast?_map, List.getLast?_eq_getLast_of_ne_nil hl]
  rfl

/-! ## Sums -/

@[simp] theorem sumOf_nil (f : α → ℚ) : sumOf f [] = 0 := rfl

@[simp] theorem sumOf_cons (f : α → ℚ) (a : α) (l : List α) :
    sumOf f (a :: l) = f a + sumOf f l := List.sum_cons

theorem sumOf_congr {f g : α → ℚ} {l : List α} (h : ∀ a ∈ l, f a = g a) :
    sumOf f l = sumOf g l := congrArg List.sum (List.map_congr_left h)

theorem sumOf_add (f g : α → ℚ) (l : List α) :
    sumOf (fun a => f a + g a) l = sumOf f l + sumOf g l := by
  induction l with
  | nil => simp
  | cons a l ih =>
      simp only [sumOf_cons, ih]
      ring

theorem sumOf_mul_right (f : α → ℚ) (c : ℚ) (l : List α) :
    sumOf (fun a => f a * c) l = sumOf f l * c := by
  induction l with
  | nil => simp
  | cons a l ih =>
      simp only [sumOf_cons, ih]
      ring

theorem sumOf_le {f g : α → ℚ} {l : List α} (h : ∀ a ∈ l, f a ≤ g a) : sumOf f l ≤ sumOf g l := by
  induction l with
  | nil => simp
  | cons a l ih =>
      obtain ⟨ha, hl⟩ := List.forall_mem_cons.mp h
      simp only [sumOf_cons]
      linarith [ih hl]

theorem sumOf_pos {f : α → ℚ} {l : List α} (hl : l ≠ []) (h : ∀ a ∈ l, 0 < f a) :
    0 < sumOf f l := by
  cases l with
  | nil => exact absurd rfl hl
  | cons a l =>
      obtain ⟨ha, hrest⟩ := List.forall_mem_cons.mp h
      have hnonneg : 0 ≤ sumOf f l := sumOf_nonneg (fun b hb => (hrest b hb).le)
      simp only [sumOf_cons]
      linarith

theorem div_eq_some {a b : ℚ} (hb : b ≠ 0) : div a b = some (a / b) := if_neg hb

/-! ## Averages -/

/-- **A weighted average** with positive weights lies between the bounds of its column. -/
theorem wavg_between {w : α → ℚ} {y : α → Option ℚ} {l : List α} {lo hi : ℚ} (hl : l ≠ [])
    (hw : ∀ a ∈ l, 0 < w a) (hy : ∀ a ∈ l, ∃ v, y a = some v ∧ lo ≤ v ∧ v ≤ hi) :
    ∃ v, wavg w y l = some v ∧ lo ≤ v ∧ v ≤ hi := by
  have hall : l.filter (fun a => (y a).isSome) = l := by
    refine List.filter_eq_self.mpr (fun a ha => ?_)
    obtain ⟨v, hv, -⟩ := hy a ha
    rw [hv]
    rfl
  have hpos : 0 < sumOf w l := sumOf_pos hl hw
  have hlow : sumOf (fun a => w a * lo) l ≤ sumOf (fun a => w a * (y a).getD 0) l := by
    refine sumOf_le (fun a ha => ?_)
    obtain ⟨v, hv, hlo, -⟩ := hy a ha
    rw [hv]
    exact mul_le_mul_of_nonneg_left hlo (hw a ha).le
  have hhigh : sumOf (fun a => w a * (y a).getD 0) l ≤ sumOf (fun a => w a * hi) l := by
    refine sumOf_le (fun a ha => ?_)
    obtain ⟨v, hv, -, hhi⟩ := hy a ha
    rw [hv]
    exact mul_le_mul_of_nonneg_left hhi (hw a ha).le
  rw [sumOf_mul_right] at hlow hhigh
  refine ⟨sumOf (fun a => w a * (y a).getD 0) l / sumOf w l, ?_, ?_, ?_⟩
  · rw [wavg, hall]
    exact div_eq_some hpos.ne'
  · rw [le_div_iff₀ hpos, mul_comm]
    exact hlow
  · rw [div_le_iff₀ hpos, mul_comm]
    exact hhigh

/-- The mean of a column; null when there is no row. -/
def mean (f : α → ℚ) (l : List α) : Option ℚ := div (sumOf f l) l.length

theorem sumOf_const (c : ℚ) (l : List α) : sumOf (fun _ => c) l = l.length * c := by
  induction l with
  | nil => simp
  | cons a l ih =>
      rw [sumOf_cons, ih, List.length_cons]
      push_cast
      ring

theorem mean_eq_some (f : α → ℚ) {l : List α} (hl : l ≠ []) :
    mean f l = some (sumOf f l / l.length) :=
  div_eq_some (Nat.cast_ne_zero.mpr (mt List.length_eq_zero_iff.mp hl))

/-- The mean is the average with weight one. -/
theorem mean_eq_wavg (f : α → ℚ) (l : List α) :
    mean f l = wavg (fun _ => 1) (fun a => some (f a)) l := by
  rw [wavg_some, sumOf_const, mul_one]
  exact congrArg (div · _) (sumOf_congr (fun a _ => (one_mul (f a)).symm))

/-- **A mean** lies between the bounds of its column. -/
theorem mean_between {f : α → ℚ} {l : List α} {lo hi : ℚ} (hl : l ≠ [])
    (h : ∀ a ∈ l, lo ≤ f a ∧ f a ≤ hi) : ∃ v, mean f l = some v ∧ lo ≤ v ∧ v ≤ hi := by
  rw [mean_eq_wavg]
  exact wavg_between hl (fun _ _ => zero_lt_one) (fun a ha => ⟨f a, rfl, h a ha⟩)

/-- A mean of numbers that are at most one is one only when all of them are. -/
theorem mean_eq_one_iff {f : α → ℚ} {l : List α} (hl : l ≠ []) (h : ∀ a ∈ l, f a ≤ 1) :
    mean f l = some 1 ↔ ∀ a ∈ l, f a = 1 := by
  have hlen : (l.length : ℚ) ≠ 0 := Nat.cast_ne_zero.mpr (mt List.length_eq_zero_iff.mp hl)
  have hsum : sumOf (fun a => 1 - f a) l + sumOf f l = l.length := by
    calc sumOf (fun a => 1 - f a) l + sumOf f l
        = sumOf (fun a => 1 - f a + f a) l := (sumOf_add _ _ l).symm
      _ = sumOf (fun _ => 1) l := sumOf_congr (fun a _ => sub_add_cancel 1 (f a))
      _ = l.length := by rw [sumOf_const, mul_one]
  rw [mean_eq_some f hl, Option.some_inj, div_eq_one_iff_eq hlen]
  constructor
  · intro hfull a ha
    have hzero : sumOf (fun a => 1 - f a) l = 0 := by linarith
    have hgap := eq_zero_of_sumOf_eq_zero (fun b hb => sub_nonneg.mpr (h b hb)) hzero a ha
    linarith
  · intro hall
    rw [sumOf_congr hall, sumOf_const, mul_one]

theorem mean_congr {f g : α → ℚ} {l : List α} (h : ∀ a ∈ l, f a = g a) : mean f l = mean g l := by
  rw [mean, mean, sumOf_congr h]

theorem mean_map {γ : Type} (f : α → ℚ) (g : γ → α) (l : List γ) :
    mean f (l.map g) = mean (fun c => f (g c)) l := by
  rw [mean, mean, sumOf_map, List.length_map]

/-- Repeating every row as often leaves the mean as it is. -/
theorem mean_replicate (f : α → ℚ) {m : Nat} (hm : 1 ≤ m) (l : List α) :
    mean f (l.flatMap (List.replicate m)) = mean f l := by
  have hrep : ∀ a : α, sumOf f (List.replicate m a) = m * f a := by
    intro a
    rw [sumOf, List.map_replicate, List.sum_replicate, nsmul_eq_mul]
  have hsum : sumOf f (l.flatMap (List.replicate m)) = m * sumOf f l := by
    rw [List.flatMap_def, ← sumOf_flatten, sumOf_map, sumOf_congr (fun a _ => hrep a)]
    calc sumOf (fun a => m * f a) l = sumOf (fun a => f a * m) l :=
          sumOf_congr (fun a _ => mul_comm _ _)
      _ = m * sumOf f l := by rw [sumOf_mul_right, mul_comm]
  have hlen : (l.flatMap (List.replicate m)).length = m * l.length := by
    rw [List.length_flatMap]
    simp [Nat.mul_comm]
  have hm0 : (m : ℚ) ≠ 0 := Nat.cast_ne_zero.mpr (by omega)
  by_cases hl : l = []
  · rw [hl]
    rfl
  · have hne : l.flatMap (List.replicate m) ≠ [] := by
      rw [← List.length_pos_iff, hlen]
      exact Nat.mul_pos hm (List.length_pos_iff.mpr hl)
    rw [mean_eq_some f hl, mean_eq_some f hne, hsum, hlen]
    push_cast
    rw [mul_div_mul_left _ _ hm0]

theorem sumOf_indicator [DecidableEq α] (c : α) (l : List α) :
    sumOf (fun a => if a = c then (1 : ℚ) else 0) l = l.count c := by
  induction l with
  | nil => simp
  | cons a l ih =>
      rw [sumOf_cons, ih, List.count_cons]
      by_cases hac : a = c
      · simp [hac, add_comm]
      · simp [hac]

/-- The mean of the indicator of one value among different ones. -/
theorem mean_indicator [DecidableEq α] {l : List α} (hl : l ≠ []) (hnodup : l.Nodup) (c : α) :
    mean (fun a => if a = c then 1 else 0) l
      = some (if c ∈ l then 1 / (l.length : ℚ) else (0 : ℚ)) := by
  rw [mean_eq_some _ hl, sumOf_indicator]
  by_cases hc : c ∈ l
  · rw [if_pos hc, List.count_eq_one_of_mem hnodup hc, Nat.cast_one]
  · rw [if_neg hc, List.count_eq_zero.mpr hc, Nat.cast_zero, zero_div]

/-- A difference of two parts of a positive whole, relative to it. -/
theorem div_sub_between {a b c : ℚ} (ha : 0 ≤ a) (hb : 0 ≤ b) (hc : a + b = c) (hpos : 0 < c) :
    ∃ v, div (a - b) c = some v ∧ -1 ≤ v ∧ v ≤ 1 := by
  refine ⟨(a - b) / c, div_eq_some hpos.ne', ?_, ?_⟩
  · rw [le_div_iff₀ hpos]
    linarith
  · rw [div_le_iff₀ hpos]
    linarith

end Aggregates
