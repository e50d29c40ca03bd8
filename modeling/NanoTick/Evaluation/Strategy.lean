import NanoTick.Analytics.Lookahead
import NanoTick.Evaluation.Metrics
import Mathlib.Tactic

set_option autoImplicit false

/-! # Acting on a prediction

`strategy_metrics` (`resources/evaluation.py`) takes the sign of a prediction as the position and
charges the cost of a round trip for every position taken. On the pairs of a prediction and its
forward return, the net return of a pair is `netOf`; no position nets more than `bestNet`, and the
label that `featuresOf` gives the forward return nets just that (`netOf_label`).

A mean of nothing is `nan`, here null. The root in the standard deviation is a parameter.
-/

namespace NanoTick

open Aggregates

/-! ## `strategy_metrics` -/

structure StrategyMetrics where
  nTrades : Nat
  hitRate : Option ℚ
  meanNetReturn : Option ℚ
  totalNetReturn : ℚ
  sharpePerBar : Option ℚ
  deriving DecidableEq, Repr

/-- `numpy.sign`. -/
def signOf (y : ℚ) : ℚ := if 0 < y then 1 else if y < 0 then -1 else 0

/-- `numpy.std`: of the whole population. -/
def stdOf (sqrt : ℚ → ℚ) (l : List ℚ) : ℚ :=
  let m := (mean id l).getD 0
  sqrt ((mean (fun y => (y - m) * (y - m)) l).getD 0)

/-- `strategy_metrics`, for lists of one length. -/
def strategyMetrics (sqrt : ℚ → ℚ) (yPred fwdRet : List ℚ) (cost : ℚ) : StrategyMetrics :=
  let pos := yPred.map signOf
  let traded := pos.map (fun p => decide (p ≠ 0))
  let net := List.zipWith (· - ·) (List.zipWith (· * ·) pos fwdRet)
    (traded.map (fun t => cost * bit t))
  let nTrades := (traded.filter id).length
  let wins := (masked traded net).map (fun n => decide (0 < n))
  let std := if net = [] then 0 else stdOf sqrt net
  { nTrades := nTrades
    hitRate := if nTrades = 0 then none else mean bit wins
    meanNetReturn := if net = [] then none else mean id net
    totalNetReturn := net.sum
    sharpePerBar := if 0 < std then (mean id net).bind (fun m => div m std) else none }

/-! ## On pairs -/

/-- A position is taken. -/
def trades (q : ℚ × ℚ) : Bool := decide (q.1 ≠ 0)

/-- The net return of a prediction with its forward return. -/
def netOf (cost : ℚ) (q : ℚ × ℚ) : ℚ := signOf q.1 * q.2 - cost * bit (trades q)

/-- The most that can be netted on a forward return. -/
def bestNet (cost f : ℚ) : ℚ := max (|f| - cost) 0

theorem signOf_ne_zero {y : ℚ} : signOf y ≠ 0 ↔ y ≠ 0 := by
  unfold signOf
  constructor
  · rintro h rfl
    simp at h
  · intro h
    rcases lt_or_gt_of_ne h with hneg | hpos
    · rw [if_neg (not_lt.mpr hneg.le), if_pos hneg]
      norm_num
    · rw [if_pos hpos]
      norm_num

section

variable {sqrt : ℚ → ℚ} {yPred fwdRet : List ℚ} {cost : ℚ}

/-- Which predictions trade. -/
theorem traded_eq (hlen : yPred.length = fwdRet.length) :
    (yPred.map signOf).map (fun p => decide (p ≠ 0)) = (yPred.zip fwdRet).map trades := by
  have hfst : (yPred.zip fwdRet).map Prod.fst = yPred := List.map_fst_zip hlen.le
  calc (yPred.map signOf).map (fun p => decide (p ≠ 0))
      = yPred.map (fun y => decide (y ≠ 0)) := by
        rw [List.map_map]
        exact List.map_congr_left (fun y _ => decide_eq_decide.mpr signOf_ne_zero)
    _ = ((yPred.zip fwdRet).map Prod.fst).map (fun y => decide (y ≠ 0)) := by rw [hfst]
    _ = (yPred.zip fwdRet).map trades := by
        rw [List.map_map]
        rfl

/-- The net returns, pair by pair. -/
theorem net_eq (hlen : yPred.length = fwdRet.length) :
    List.zipWith (· - ·) (List.zipWith (· * ·) (yPred.map signOf) fwdRet)
      (((yPred.map signOf).map (fun p => decide (p ≠ 0))).map (fun t => cost * bit t))
      = (yPred.zip fwdRet).map (netOf cost) := by
  have hgross : List.zipWith (· * ·) (yPred.map signOf) fwdRet
      = (yPred.zip fwdRet).map (fun q => signOf q.1 * q.2) := by
    rw [List.zipWith_map_left, ← List.map_uncurry_zip_eq_zipWith]
    rfl
  rw [hgross, traded_eq hlen, List.map_map, List.zipWith_map, List.zipWith_self]
  rfl

theorem masked_map {β γ : Type} (p : β → Bool) (g : β → γ) (l : List β) :
    masked (l.map p) (l.map g) = (l.filter p).map g := by
  unfold masked
  rw [List.zip_map', List.filter_map, List.map_map]
  rfl

/-- The trades that are counted. -/
theorem nTrades_eq (sqrt : ℚ → ℚ) (cost : ℚ) (hlen : yPred.length = fwdRet.length) :
    (strategyMetrics sqrt yPred fwdRet cost).nTrades
      = ((yPred.zip fwdRet).filter trades).length := by
  unfold strategyMetrics
  dsimp only
  rw [traded_eq hlen, List.filter_map, List.length_map]
  rfl

theorem totalNetReturn_eq (hlen : yPred.length = fwdRet.length) :
    (strategyMetrics sqrt yPred fwdRet cost).totalNetReturn
      = sumOf (netOf cost) (yPred.zip fwdRet) := by
  unfold strategyMetrics
  dsimp only
  rw [net_eq hlen, sumOf]

/-- The share of the trades that net something. -/
theorem hitRate_eq (hlen : yPred.length = fwdRet.length) :
    (strategyMetrics sqrt yPred fwdRet cost).hitRate
      = mean (fun q => bit (decide (0 < netOf cost q))) ((yPred.zip fwdRet).filter trades) := by
  have hcount := nTrades_eq sqrt cost hlen
  unfold strategyMetrics at hcount ⊢
  dsimp only at hcount ⊢
  rw [hcount, net_eq hlen, traded_eq hlen, masked_map, List.map_map, mean_map]
  split
  · rename_i hnone
    rw [List.length_eq_zero_iff.mp hnone]
    simp [mean, div]
  · rfl

end

/-! ## The best position -/

section

variable {cost : ℚ}

/-- No position nets more than the best one. -/
theorem netOf_le_bestNet (q : ℚ × ℚ) : netOf cost q ≤ bestNet cost q.2 := by
  have hup : q.2 ≤ |q.2| := le_abs_self _
  have hdown : -q.2 ≤ |q.2| := neg_le_abs _
  unfold netOf bestNet trades signOf bit
  rcases lt_trichotomy q.1 0 with hneg | hzero | hpos
  · rw [if_neg (not_lt.mpr hneg.le), if_pos hneg, decide_eq_true hneg.ne, if_pos rfl]
    exact le_max_of_le_left (by linarith)
  · simp [hzero]
  · rw [if_pos hpos, decide_eq_true hpos.ne', if_pos rfl]
    exact le_max_of_le_left (by linarith)

/-- The label of a forward return, as a position, nets the most there is. -/
theorem netOf_label (hcost : 0 ≤ cost) (f : ℚ) :
    netOf cost ((labelOf cost (some f) : ℤ), f) = bestNet cost f := by
  unfold labelOf above below bestNet netOf trades signOf bit
  by_cases hup : cost < f
  · have hdown : ¬ f < -cost := by linarith
    have hpos : 0 ≤ f := by linarith
    simp only [hup, hdown, decide_true, decide_false, if_true]
    rw [abs_of_nonneg hpos, max_eq_left (by linarith)]
    norm_num
  · by_cases hdown : f < -cost
    · have hneg : f ≤ 0 := by linarith
      simp only [hup, hdown, decide_true, decide_false, if_true]
      rw [abs_of_nonpos hneg, max_eq_left (by linarith)]
      norm_num
    · have hsmall : |f| ≤ cost := abs_le.mpr ⟨not_lt.mp hdown, not_lt.mp hup⟩
      simp only [hup, hdown, decide_false]
      rw [max_eq_right (by linarith)]
      norm_num

/-- A label that trades nets more than nothing. -/
theorem netOf_label_pos (hcost : 0 ≤ cost) {f : ℚ}
    (h : trades ((labelOf cost (some f) : ℤ), f) = true) :
    0 < netOf cost ((labelOf cost (some f) : ℤ), f) := by
  rw [netOf_label hcost, bestNet, lt_max_iff]
  left
  by_contra hsmall
  have hup : ¬ cost < f := fun hlt => hsmall (by linarith [le_abs_self f])
  have hdown : ¬ f < -cost := fun hlt => hsmall (by linarith [neg_le_abs f])
  simp [trades, labelOf, above, below, hup, hdown] at h

/-- The total of any positions is at most that of the best ones. -/
theorem total_le_best (qs : List (ℚ × ℚ)) :
    sumOf (netOf cost) qs ≤ sumOf (fun q => bestNet cost q.2) qs :=
  sumOf_le (fun q _ => netOf_le_bestNet q)

/-- Only positions that are best everywhere have the best total. -/
theorem total_eq_best_iff (qs : List (ℚ × ℚ)) :
    sumOf (netOf cost) qs = sumOf (fun q => bestNet cost q.2) qs
      ↔ ∀ q ∈ qs, netOf cost q = bestNet cost q.2 := by
  constructor
  · intro htotal
    have hslack : sumOf (fun q => bestNet cost q.2 - netOf cost q) qs = 0 := by
      have hadd := sumOf_add (netOf cost) (fun q => bestNet cost q.2 - netOf cost q) qs
      rw [sumOf_congr (fun q _ => add_sub_cancel (netOf cost q) (bestNet cost q.2))] at hadd
      linarith
    intro q hq
    have hzero := eq_zero_of_sumOf_eq_zero
      (fun q _ => sub_nonneg.mpr (netOf_le_bestNet q)) hslack q hq
    linarith
  · exact sumOf_congr

end

end NanoTick
