import NanoTick.Analytics.Lookahead
import Mathlib.Tactic

set_option autoImplicit false

/-! # Which rows have a real label

`featuresOf` drops the bars without a full window or a bar at the horizon, and keeps every
other one (`featuresOf_numbers`). It does not look at the mids: where the bar or the one at the
horizon has no quote bar, the forward return is null, and since a null is smaller than every
number the label is -1. `featuresOf_labels_iff` says exactly when no row is such a one.

A ratio or a logarithm that is not a finite number counts as null.
-/

namespace NanoTick

open Aggregates Python

/-- The forward return is there, and the label says on which side of the cost it lies. -/
def FeatureRow.RealLabel (cost : ℚ) (r : FeatureRow) : Prop :=
  ∃ x, r.fwdRet = some x ∧ (r.label = 1 ↔ cost < x) ∧ (r.label = -1 ↔ x < -cost)
    ∧ (r.label = 0 ↔ ¬cost < x ∧ ¬x < -cost)

/-- Every bar with a row has a quote bar, so has the bar at the horizon, and the mids of the
two are in a positive ratio. -/
def QuotedEnds (tb : List (Int × Ohlcv)) (qb : List (Int × QuoteFeatures)) (h w : Nat) : Prop :=
  ∀ i, w ≤ i → i + h < tb.length → ∃ a b, midAt tb qb i = some a ∧ midAt tb qb (i + h) = some b
    ∧ 0 < b / a

/-! ## The label of a return -/

theorem labelOf_some {cost : ℚ} (hcost : 0 ≤ cost) (x : ℚ) :
    (labelOf cost (some x) = 1 ↔ cost < x) ∧ (labelOf cost (some x) = -1 ↔ x < -cost)
      ∧ (labelOf cost (some x) = 0 ↔ ¬cost < x ∧ ¬x < -cost) := by
  unfold labelOf above below
  simp only [decide_eq_true_eq]
  by_cases hup : cost < x
  · have hdown : ¬x < -cost := by linarith
    simp [hup, hdown]
  · by_cases hdown : x < -cost
    · simp [hup, hdown]
    · simp [hup, hdown]

/-! ## The forward return of a bar -/

section

variable {log sqrt : ℚ → Option ℚ} {tb : List (Int × Ohlcv)} {qb : List (Int × QuoteFeatures)}
  {h w : Nat} {cost : ℚ}

/-- A ratio has a logarithm exactly when both sides are there and it is positive. -/
theorem bind_log_ratio (hlog : ∀ x, log x ≠ none ↔ 0 < x) (x y : Option ℚ) :
    (ratio x y).bind log ≠ none ↔ ∃ a b, y = some a ∧ x = some b ∧ 0 < b / a := by
  cases x with
  | none => simp [ratio]
  | some b =>
      cases y with
      | none => simp [ratio]
      | some a =>
          by_cases ha : a = 0
          · simp [ratio, div, ha]
          · simp [ratio, div, ha, hlog]

/-- The rows are numbered from `w` on, up to the last bar with one at the horizon. -/
theorem featuresOf_numbers (log sqrt : ℚ → Option ℚ) (qb : List (Int × QuoteFeatures)) (cost : ℚ)
    (hlen : w + h ≤ tb.length) :
    ∃ rows, featuresOf log sqrt tb qb h w cost = .ok rows
      ∧ rows.map (·.i) = List.range' w (tb.length - w - h) := by
  refine ⟨_, featuresOf_eq (by omega), ?_⟩
  refine List.ext_getElem ?_ (fun k hk _ => ?_)
  · simp [sublist, lj]
  · simp [sublist]

theorem RowSpec.realLabel_iff {r : FeatureRow} (hlog : ∀ x, log x ≠ none ↔ 0 < x)
    (hcost : 0 ≤ cost) (hr : RowSpec log sqrt tb qb h w cost r) :
    r.RealLabel cost ↔ ∃ a b, midAt tb qb r.i = some a ∧ midAt tb qb (r.i + h) = some b
      ∧ 0 < b / a := by
  rw [← bind_log_ratio hlog, ← hr.fwdRet, FeatureRow.RealLabel, hr.label]
  constructor
  · rintro ⟨x, hx, -⟩
    rw [hx]
    exact Option.some_ne_none x
  · intro hne
    obtain ⟨x, hx⟩ := Option.ne_none_iff_exists'.mp hne
    rw [hx]
    exact ⟨x, rfl, labelOf_some hcost x⟩

end

/-- **Real labels.** `featuresOf` returns exactly the bars `w` to `n - h - 1`, and every row has
a real label exactly when all these bars and the bars at their horizon have quote bars, with
mids in a positive ratio. -/
theorem featuresOf_labels_iff (log sqrt : ℚ → Option ℚ) (hlog : ∀ x, log x ≠ none ↔ 0 < x)
    (tb : List (Int × Ohlcv)) (qb : List (Int × QuoteFeatures)) (h w : Nat) (cost : ℚ)
    (hlen : w + h ≤ tb.length) (hcost : 0 ≤ cost) :
    ∃ rows, featuresOf log sqrt tb qb h w cost = .ok rows
      ∧ rows.map (·.i) = List.range' w (tb.length - w - h)
      ∧ ((∀ r ∈ rows, r.RealLabel cost) ↔ QuotedEnds tb qb h w) := by
  obtain ⟨rows, hrows, hnumbers⟩ := featuresOf_numbers log sqrt qb cost hlen
  refine ⟨rows, hrows, hnumbers, ?_⟩
  constructor
  · intro hreal i hw hh
    have hi : i ∈ rows.map (·.i) := by
      rw [hnumbers, List.mem_range'_1]
      omega
    obtain ⟨r, hr, rfl⟩ := List.mem_map.mp hi
    exact ((featuresOf_row hrows hr).realLabel_iff hlog hcost).mp (hreal r hr)
  · intro hquoted r hr
    have hspec := featuresOf_row hrows hr
    exact (hspec.realLabel_iff hlog hcost).mpr (hquoted r.i hspec.warm hspec.labelled)

/-- The quote bars of the first `k` bars of `flatBars`. -/
def flatQuotes (k : Nat) : List (Int × QuoteFeatures) :=
  (List.range k).map (fun t => ((t : Int), quoteFeatures ⟨1, 1, 1, 1⟩))

theorem logAtOne_ne_none (x : ℚ) : logAtOne x ≠ none ↔ 0 < x := by
  unfold logAtOne
  split
  · simpa
  · rename_i hx
    simp [hx]

/-- Four bars, all quoted: both rows have a real label. -/
theorem flatBars_labels : ∃ rows,
    featuresOf logAtOne sqrtAtZero (flatBars 1) (flatQuotes 4) 1 1 0 = .ok rows
      ∧ rows.map (·.i) = [1, 2] ∧ ∀ r ∈ rows, r.RealLabel 0 := by
  obtain ⟨rows, hrows, hnumbers, hiff⟩ := featuresOf_labels_iff logAtOne sqrtAtZero
    logAtOne_ne_none (flatBars 1) (flatQuotes 4) 1 1 0 (by decide) (le_refl 0)
  refine ⟨rows, hrows, hnumbers, hiff.mpr ?_⟩
  intro i hw hh
  have hlast : i + 1 < 4 := hh
  have hi : i = 1 ∨ i = 2 := by omega
  rcases hi with rfl | rfl
  · exact ⟨1, 1, by decide +kernel, by decide +kernel, by norm_num⟩
  · exact ⟨1, 1, by decide +kernel, by decide +kernel, by norm_num⟩

/-- **A label of nothing.** The last bar has no quote bar: the row that looks at it has a null
return and the label -1. -/
theorem flatBars_unlabelled : ¬ ∀ (log sqrt : ℚ → Option ℚ) (tb : List (Int × Ohlcv))
    (qb : List (Int × QuoteFeatures)) (h w : Nat) (cost : ℚ), (∀ x, log x ≠ none ↔ 0 < x) →
    1 ≤ h → 1 ≤ w → w + h ≤ tb.length → 0 ≤ cost →
    ∃ rows, featuresOf log sqrt tb qb h w cost = .ok rows
      ∧ rows.map (·.i) = List.range' w (tb.length - w - h) ∧ ∀ r ∈ rows, r.RealLabel cost := by
  intro hall
  obtain ⟨rows, hrows, hnumbers, hreal⟩ := hall logAtOne sqrtAtZero (flatBars 1) (flatQuotes 3)
    1 1 0 logAtOne_ne_none (le_refl 1) (le_refl 1) (by decide) (le_refl 0)
  have hi : 2 ∈ rows.map (·.i) := by
    rw [hnumbers]
    decide
  obtain ⟨r, hr, hri⟩ := List.mem_map.mp hi
  have hfwd := (featuresOf_row hrows hr).fwdRet
  obtain ⟨x, hx, -⟩ := hreal r hr
  rw [hri] at hfwd
  have hnull : (ratio (midAt (flatBars 1) (flatQuotes 3) (2 + 1))
      (midAt (flatBars 1) (flatQuotes 3) 2)).bind logAtOne = none := by decide +kernel
  rw [hnull, hx] at hfwd
  cases hfwd

end NanoTick
