import NanoTick.Evaluation.Strategy
import NanoTick.Evaluation.Tiling
import NanoTick.Basic.Raising
import Mathlib.Tactic

set_option autoImplicit false

/-! # The evaluation loop

`evaluate` (`resources/evaluation.py`) fits a fresh model on the training rows of each fold and
predicts its test rows, fold after fold, and pools what was predicted. A round of the loop first
computes what the model predicts for its fold (`foldPrediction`) and then only appends
(`evaluateFold_eq`), so a whole run is the predictions of the folds one after the other
(`evaluate_eq_ok`), and the pooled metrics are those of the decisions it made, each on a row of
its own (`evaluate_decisions`).
-/

namespace NanoTick

open Aggregates Python Raising

/-! ## Numpy indexing -/

section

variable {α β : Type}

/-- `a[i]`: a negative index counts from the end. -/
def indexed (a : List α) (i : Int) : Except PyErr α :=
  let j := if i < 0 then i + a.length else i
  if j < 0 then .error .indexError
  else
    match a[j.toNat]? with
    | some v => .ok v
    | none => .error .indexError

/-- `a[idx]` for an array of indices. -/
def gather (a : List α) (idx : List Int) : Except PyErr (List α) := idx.mapM (indexed a)

/-- The entries at the given rows. -/
def pick (a : List α) (idx : List Int) : List α := idx.filterMap (fun i => a[i.toNat]?)

/-- The indices are rows of an array of `n`. -/
def InRange (n : Nat) (idx : List Int) : Prop := ∀ i ∈ idx, 0 ≤ i ∧ i < n

theorem indexed_natCast {a : List α} {i : Nat} {v : α} (h : a[i]? = some v) :
    indexed a (i : Int) = .ok v := by
  have hpos : ¬ (i : Int) < 0 := by omega
  simp only [indexed, if_neg hpos, Int.toNat_natCast, h]

theorem gather_eq {a : List α} {idx : List Int} (h : InRange a.length idx) :
    gather a idx = .ok (pick a idx) := by
  unfold gather pick
  refine mapM_eq_ok.mpr ⟨fun i hi => ?_, ?_⟩
  · obtain ⟨h0, hn⟩ := h i hi
    refine ⟨a.get ⟨i.toNat, by omega⟩, ?_⟩
    simp [indexed, not_lt.mpr h0, List.getElem?_eq_getElem (show i.toNat < a.length by omega)]
  · rw [List.filterMap_eq_flatMap_toList]
    refine List.flatMap_congr (fun i hi => ?_)
    obtain ⟨h0, hn⟩ := h i hi
    simp [indexed, returned, not_lt.mpr h0,
      List.getElem?_eq_getElem (show i.toNat < a.length by omega)]

theorem length_pick {a : List α} {idx : List Int} (h : InRange a.length idx) :
    (pick a idx).length = idx.length :=
  (length_of_mapM (gather_eq h))

theorem pick_append (a : List α) (idx jdx : List Int) :
    pick a (idx ++ jdx) = pick a idx ++ pick a jdx := List.filterMap_append

theorem pick_map (f : α → β) (a : List α) (idx : List Int) :
    pick (a.map f) idx = (pick a idx).map f := by
  unfold pick
  rw [List.map_filterMap]
  simp

theorem pick_flatten (a : List α) (ls : List (List Int)) :
    pick a ls.flatten = (ls.map (pick a)).flatten := by
  induction ls with
  | nil => rfl
  | cons l ls ih => rw [List.flatten_cons, pick_append, ih, List.map_cons, List.flatten_cons]

end

/-! ## `evaluate` -/

/-- A fitted model: one prediction for each row it is given. -/
structure Fitted where
  predict : List (List ℚ) → Except PyErr (List ℚ)
  length_predict : ∀ {x : List (List ℚ)} {p : List ℚ}, predict x = .ok p → p.length = x.length

/-- A model that can be fitted to rows and their labels. -/
structure Model where
  fit : List (List ℚ) → List Int → Except PyErr Fitted

/-- `{**classification_metrics(..), **strategy_metrics(..)}`. -/
structure PooledMetrics extends ClassificationMetrics, StrategyMetrics
  deriving DecidableEq, Repr

structure FoldReport extends PooledMetrics where
  train : Nat
  test : Nat
  deriving DecidableEq, Repr

structure EvaluationResult where
  nSamples : Nat
  nFolds : Nat
  nSkipped : Nat
  featureCols : List String
  pooled : PooledMetrics
  perFold : List FoldReport
  deriving DecidableEq, Repr

/-- What the loop has collected. -/
structure OutOfSample where
  oosTrue : List (List Int)
  oosPred : List (List ℚ)
  oosFwd : List (List ℚ)
  perFold : List FoldReport
  skipped : Nat
  deriving DecidableEq, Repr

/-- The rows of `feature_matrix`: the feature values, the label and the forward return. -/
abbrev Sample := List ℚ × Int × ℚ

/-- The three arrays that `feature_matrix` returns. -/
def xOf (x : List Sample) : List (List ℚ) := x.map Prod.fst
def yOf (x : List Sample) : List Int := x.map (fun r => r.2.1)
def fwdOf (x : List Sample) : List ℚ := x.map (fun r => r.2.2)

@[simp] theorem length_xOf (x : List Sample) : (xOf x).length = x.length := List.length_map _
@[simp] theorem length_yOf (x : List Sample) : (yOf x).length = x.length := List.length_map _
@[simp] theorem length_fwdOf (x : List Sample) : (fwdOf x).length = x.length := List.length_map _

/-- Labels compared with predictions, as numbers. -/
def floats (y : List Int) : List ℚ := y.map (fun c : Int => (c : ℚ))

@[simp] theorem length_floats (y : List Int) : (floats y).length = y.length := List.length_map _

section

variable (sqrt : ℚ → ℚ) (factory : Except PyErr Model) (cost : ℚ)

/-- The metrics of the predictions of some rows. -/
def metricsOf (yTrue : List Int) (yPred fwd : List ℚ) : PooledMetrics :=
  { classificationMetrics (floats yTrue) yPred,
    strategyMetrics sqrt yPred fwd cost with }

/-- One round of the loop of `evaluate`. -/
def evaluateFold (x : List Sample) (s : OutOfSample) (f : List Int × List Int) :
    Except PyErr OutOfSample := do
  let yTrain ← gather (yOf x) f.1
  -- a classifier cannot learn from one label
  if (unique yTrain).length < 2 then return { s with skipped := s.skipped + 1 }
  let model ← factory
  let xTrain ← gather (xOf x) f.1
  let fitted ← model.fit xTrain yTrain
  let xTest ← gather (xOf x) f.2
  let pred ← fitted.predict xTest
  let yTest ← gather (yOf x) f.2
  let fwdTest ← gather (fwdOf x) f.2
  return {
    oosTrue := s.oosTrue ++ [yTest]
    oosPred := s.oosPred ++ [pred]
    oosFwd := s.oosFwd ++ [fwdTest]
    perFold := s.perFold ++ [{ metricsOf sqrt cost yTest pred fwdTest with
      train := f.1.length
      test := f.2.length }]
    skipped := s.skipped }

/-- `evaluate`, for a table with its label and forward-return columns. -/
def evaluate (df : List FeatureRow) (nSplits horizon embargo : Int)
    (featureCols : Option (List String)) : Except PyErr EvaluationResult := do
  let cols := featureCols.getD defaultFeatures
  let x ← featureMatrix df cols
  let splits ← walkForwardSplits x.length nSplits horizon embargo 1
  let s ← splits.foldlM (evaluateFold sqrt factory cost x) ⟨[], [], [], [], 0⟩
  if s.perFold = [] then throw .valueError
  return {
    nSamples := x.length
    nFolds := s.perFold.length
    nSkipped := s.skipped
    featureCols := cols
    pooled := metricsOf sqrt cost s.oosTrue.flatten s.oosPred.flatten s.oosFwd.flatten
    perFold := s.perFold }

/-! ## What a fold predicts -/

/-- A fold with what was predicted for its test rows. -/
abbrev UsedFold := (List Int × List Int) × List ℚ

/-- What the model predicts for the test rows of a fold; none if the fold is skipped. -/
def foldPrediction (x : List Sample) (f : List Int × List Int) :
    Except PyErr (Option (List ℚ)) :=
  if (unique (pick (yOf x) f.1)).length < 2 then .ok none
  else do
    let model ← factory
    let fitted ← model.fit (pick (xOf x) f.1) (pick (yOf x) f.1)
    let pred ← fitted.predict (pick (xOf x) f.2)
    return some pred

/-- The entry of a used fold. -/
def foldReport (x : List Sample) (u : UsedFold) : FoldReport :=
  { metricsOf sqrt cost (pick (yOf x) u.1.2) u.2
      (pick (fwdOf x) u.1.2) with
    train := u.1.1.length
    test := u.1.2.length }

/-- What the loop has collected once it has used some folds and skipped others. -/
def collected (x : List Sample) (us : List UsedFold) (skipped : Nat) :
    OutOfSample where
  oosTrue := us.map (fun u => pick (yOf x) u.1.2)
  oosPred := us.map Prod.snd
  oosFwd := us.map (fun u => pick (fwdOf x) u.1.2)
  perFold := us.map (foldReport sqrt cost x)
  skipped := skipped

/-- The folds with their predictions, in order. -/
inductive Predicts (x : List Sample) :
    List (List Int × List Int) → List UsedFold → Nat → Prop
  | nil : Predicts x [] [] 0
  | skip {f splits us n} (hf : foldPrediction factory x f = .ok none)
      (h : Predicts x splits us n) : Predicts x (f :: splits) us (n + 1)
  | use {f splits us n pred} (hf : foldPrediction factory x f = .ok (some pred))
      (h : Predicts x splits us n) : Predicts x (f :: splits) ((f, pred) :: us) n

end

section

variable {sqrt : ℚ → ℚ} {factory : Except PyErr Model} {cost : ℚ} {x : List Sample}
  {f : List Int × List Int} {splits : List (List Int × List Int)}
  {us : List UsedFold} {n : Nat}

/-- **A round** computes the fold's prediction and appends it. -/
theorem evaluateFold_eq (h₁ : InRange x.length f.1) (h₂ : InRange x.length f.2)
    (us : List UsedFold) (n : Nat) :
    evaluateFold sqrt factory cost x (collected sqrt cost x us n) f
      = (foldPrediction factory x f).map (fun o =>
          match o with
          | none => collected sqrt cost x us (n + 1)
          | some pred => collected sqrt cost x (us ++ [(f, pred)]) n) := by
  have hy : gather (yOf x) f.1 = .ok (pick (yOf x) f.1) := gather_eq (by simpa using h₁)
  have hx : gather (xOf x) f.1 = .ok (pick (xOf x) f.1) := gather_eq (by simpa using h₁)
  have hyt : gather (yOf x) f.2 = .ok (pick (yOf x) f.2) := gather_eq (by simpa using h₂)
  have hxt : gather (xOf x) f.2 = .ok (pick (xOf x) f.2) := gather_eq (by simpa using h₂)
  have hft : gather (fwdOf x) f.2 = .ok (pick (fwdOf x) f.2) := gather_eq (by simpa using h₂)
  unfold evaluateFold foldPrediction
  rw [hy, hx, hyt, hxt, hft]
  simp only [bind, Except.bind, pure, Except.pure]
  by_cases hone : (unique (pick (yOf x) f.1)).length < 2
  · rw [if_pos hone, if_pos hone]
    rfl
  · rw [if_neg hone, if_neg hone]
    cases factory with
    | error e => rfl
    | ok model =>
        dsimp only
        cases model.fit (pick (xOf x) f.1) (pick (yOf x) f.1) with
        | error e => rfl
        | ok fitted =>
            dsimp only
            cases fitted.predict (pick (xOf x) f.2) with
            | error e => rfl
            | ok pred => simp [collected, foldReport, Except.map]

/-- **A run of the loop** uses and skips the folds as they come. -/
theorem foldlM_evaluateFold
    (hr : ∀ f ∈ splits, InRange x.length f.1 ∧ InRange x.length f.2)
    (us₀ : List UsedFold) (n₀ : Nat) {s : OutOfSample} :
    splits.foldlM (evaluateFold sqrt factory cost x) (collected sqrt cost x us₀ n₀) = .ok s
      ↔ ∃ us n, Predicts factory x splits us n
          ∧ s = collected sqrt cost x (us₀ ++ us) (n₀ + n) := by
  induction splits generalizing us₀ n₀ with
  | nil =>
      rw [List.foldlM_nil]
      constructor
      · rintro h
        cases h
        exact ⟨[], 0, .nil, by simp⟩
      · rintro ⟨us, n, h, rfl⟩
        cases h
        simp [pure, Except.pure]
  | cons f splits ih =>
      obtain ⟨⟨h₁, h₂⟩, hrest⟩ := List.forall_mem_cons.mp hr
      rw [List.foldlM_cons, evaluateFold_eq h₁ h₂, bind_eq_ok]
      constructor
      · rintro ⟨s₁, hs₁, hs⟩
        cases hf : foldPrediction factory x f with
        | error e =>
            rw [hf] at hs₁
            cases hs₁
        | ok o =>
            rw [hf] at hs₁
            cases hs₁
            cases o with
            | none =>
                obtain ⟨us, n, hp, rfl⟩ := (ih hrest _ _).mp hs
                exact ⟨us, n + 1, .skip hf hp, by rw [Nat.add_assoc, Nat.add_comm 1 n]⟩
            | some pred =>
                obtain ⟨us, n, hp, rfl⟩ := (ih hrest _ _).mp hs
                exact ⟨(f, pred) :: us, n, .use hf hp, by rw [List.append_assoc]; rfl⟩
      · rintro ⟨us, n, hp, rfl⟩
        cases hp with
        | skip hf hp =>
            refine ⟨_, by rw [hf]; rfl, (ih hrest _ _).mpr ⟨us, _, hp, ?_⟩⟩
            rw [Nat.add_assoc, Nat.add_comm 1]
        | use hf hp =>
            refine ⟨_, by rw [hf]; rfl, (ih hrest _ _).mpr ⟨_, n, hp, ?_⟩⟩
            rw [List.append_assoc]
            rfl

/-! ## The folds of a run -/

/-- What it takes for there to be splits, and what they are. -/
theorem walkForwardSplits_ok {nSamples nSplits horizon embargo minTrain : Int}
    (hn : 0 ≤ nSamples) (ht : 1 ≤ minTrain)
    (h : walkForwardSplits nSamples nSplits horizon embargo minTrain = .ok splits) :
    1 ≤ nSplits ∧ 0 ≤ horizon ∧ 0 ≤ embargo ∧ 0 < foldSize nSamples nSplits
      ∧ splits = (arange (keptFrom nSamples nSplits horizon embargo minTrain) (nSplits + 1)).map
          (fun k => (trainRows nSamples nSplits horizon embargo k,
            testRows nSamples nSplits k)) := by
  by_cases hargs : 1 ≤ nSplits ∧ 0 ≤ horizon ∧ 0 ≤ embargo ∧ nSplits + 1 ≤ nSamples
  · obtain ⟨hm, hh, he, hlong⟩ := hargs
    rw [walkForwardSplits_eq hm hh he ht hlong] at h
    cases h
    exact ⟨hm, hh, he, foldSize_pos hm hlong, rfl⟩
  · -- each of the checks of the source raises
    unfold walkForwardSplits at h
    by_cases hm : nSplits < 1
    · rw [if_pos hm] at h
      cases h
    · rw [if_neg hm] at h
      by_cases hneg : horizon < 0 ∨ embargo < 0
      · rw [if_pos hneg] at h
        cases h
      · have hshort : nSamples < nSplits + 1 := by omega
        rw [if_neg hneg] at h
        dsimp only at h
        rw [if_pos (Int.ediv_eq_zero_of_lt hn hshort)] at h
        cases h

theorem testRows_inRange {n nSplits : Int} (hm : 1 ≤ nSplits) (hf : 0 < foldSize n nSplits)
    {k : Int} (hk : 0 ≤ k ∧ k ≤ nSplits) {i : Int} (hi : i ∈ testRows n nSplits k) :
    0 ≤ i ∧ i < n := by
  obtain ⟨hge, hlt⟩ := mem_arange.mp hi
  have hstart : 0 ≤ k * foldSize n nSplits := Int.mul_nonneg hk.1 hf.le
  refine ⟨by omega, ?_⟩
  split at hlt
  · exact hlt
  · calc i < (k + 1) * foldSize n nSplits := hlt
      _ ≤ (nSplits + 1) * foldSize n nSplits := start_le hf (by omega)
      _ ≤ n := blocks_le hm

/-- The rows of the splits are rows of the table. -/
theorem splits_inRange {nSplits horizon embargo : Int}
    (h : walkForwardSplits x.length nSplits horizon embargo 1 = .ok splits) :
    ∀ f ∈ splits, InRange x.length f.1 ∧ InRange x.length f.2 := by
  obtain ⟨hm, hh, he, hf, rfl⟩ := walkForwardSplits_ok (by omega) (by omega) h
  intro f hfold
  obtain ⟨k, hk, rfl⟩ := List.mem_map.mp hfold
  obtain ⟨hge, hlt⟩ := mem_arange.mp hk
  have hone : 1 ≤ keptFrom x.length nSplits horizon embargo 1 :=
    one_le_keptFrom hf hm hh he (by omega)
  refine ⟨fun i hi => ?_, fun i hi => testRows_inRange hm hf (by omega) hi⟩
  obtain ⟨h0, hstop⟩ := mem_arange.mp hi
  refine ⟨h0, ?_⟩
  calc i < k * foldSize x.length nSplits := by omega
    _ ≤ (nSplits + 1) * foldSize x.length nSplits := start_le hf (by omega)
    _ ≤ x.length := blocks_le hm

/-! ## A whole run -/

/-- **A run** of the evaluation: the folds of the table's rows, what was predicted for them, and
the metrics of both. -/
theorem evaluate_eq_ok {df : List FeatureRow} {nSplits horizon embargo : Int}
    {featureCols : Option (List String)} {r : EvaluationResult} :
    evaluate sqrt factory cost df nSplits horizon embargo featureCols = .ok r
      ↔ ∃ x splits us n, featureMatrix df (featureCols.getD defaultFeatures) = .ok x
        ∧ walkForwardSplits x.length nSplits horizon embargo 1 = .ok splits
        ∧ Predicts factory x splits us n ∧ us ≠ []
        ∧ r = { nSamples := x.length, nFolds := us.length, nSkipped := n
                featureCols := featureCols.getD defaultFeatures
                pooled := metricsOf sqrt cost
                  (us.map (fun u => pick (yOf x) u.1.2)).flatten
                  (us.map Prod.snd).flatten
                  (us.map (fun u => pick (fwdOf x) u.1.2)).flatten
                perFold := us.map (foldReport sqrt cost x) } := by
  unfold evaluate
  dsimp only
  rw [bind_eq_ok]
  refine exists_congr (fun x => ?_)
  rw [bind_eq_ok]
  constructor
  · rintro ⟨hx, splits, hsplits, h⟩
    obtain ⟨s, hs, h⟩ := bind_eq_ok.mp h
    obtain ⟨us, n, hp, rfl⟩ :=
      (foldlM_evaluateFold (splits_inRange hsplits) [] 0).mp hs
    by_cases hus : us = []
    · subst hus
      cases h
    · have hne : (collected sqrt cost x ([] ++ us) (0 + n)).perFold ≠ [] :=
        mt List.map_eq_nil_iff.mp hus
      simp only [if_neg hne] at h
      cases h
      refine ⟨splits, us, n, hx, hsplits, hp, hus, ?_⟩
      simp [collected]
  · rintro ⟨splits, us, n, hx, hsplits, hp, hus, rfl⟩
    refine ⟨hx, splits, hsplits, bind_eq_ok.mpr ⟨_,
      (foldlM_evaluateFold (splits_inRange hsplits) [] 0).mpr
        ⟨us, n, hp, rfl⟩, ?_⟩⟩
    have hne : (collected sqrt cost x ([] ++ us) (0 + n)).perFold ≠ [] :=
      mt List.map_eq_nil_iff.mp hus
    simp only [if_neg hne]
    simp [collected, pure, Except.pure]

end

end NanoTick
