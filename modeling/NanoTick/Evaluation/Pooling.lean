import NanoTick.Evaluation.Harness
import Mathlib.Tactic

set_option autoImplicit false

/-! # What the pooled metrics say

A run of `evaluate` makes one decision for each test row of the folds it uses, rows in their order
and none twice (`pooled_of_decisions`). So the pooled counts and totals are the sums of those of
the folds, the pooled rates their averages weighted by what they are rates of (`evaluate_accounts`);
and no model nets more than the labels would on the same rows (`total_le_labels`).
-/

namespace NanoTick

open Aggregates Python Raising

section

variable {sqrt : ℚ → ℚ} {factory : Except PyErr Model} {cost : ℚ} {x : List Sample}
  {splits : List (List Int × List Int)} {us : List UsedFold} {n : Nat}

/-! ## Used folds -/

/-- A used fold has two labels to learn from, and one prediction for each test row. -/
theorem foldPrediction_some {f : List Int × List Int} {pred : List ℚ}
    (hr : InRange x.length f.2) (h : foldPrediction factory x f = .ok (some pred)) :
    2 ≤ (unique (pick (yOf x) f.1)).length ∧ pred.length = f.2.length := by
  unfold foldPrediction at h
  split at h
  · cases h
  · rename_i hmany
    obtain ⟨model, -, h⟩ := bind_eq_ok.mp h
    obtain ⟨fitted, -, h⟩ := bind_eq_ok.mp h
    obtain ⟨pred', hpred, h⟩ := bind_eq_ok.mp h
    cases h
    refine ⟨by omega, ?_⟩
    rw [fitted.length_predict hpred]
    exact length_pick (by simpa using hr)

theorem Predicts.count (h : Predicts factory x splits us n) : us.length + n = splits.length := by
  induction h with
  | nil => rfl
  | skip hf h ih =>
      rw [List.length_cons]
      omega
  | use hf h ih =>
      rw [List.length_cons, List.length_cons]
      omega

theorem Predicts.sublist (h : Predicts factory x splits us n) :
    (us.map Prod.fst).Sublist splits := by
  induction h with
  | nil => exact List.Sublist.refl _
  | skip hf h ih => exact ih.cons _
  | use hf h ih => exact ih.cons_cons _

theorem Predicts.used (h : Predicts factory x splits us n) :
    ∀ u ∈ us, u.1 ∈ splits ∧ foldPrediction factory x u.1 = .ok (some u.2) := by
  induction h with
  | nil => exact fun u hu => absurd hu List.not_mem_nil
  | skip hf h ih =>
      exact fun u hu => ⟨List.mem_cons_of_mem _ (ih u hu).1, (ih u hu).2⟩
  | use hf h ih =>
      refine List.forall_mem_cons.mpr ⟨⟨List.mem_cons_self, hf⟩, fun u hu => ?_⟩
      exact ⟨List.mem_cons_of_mem _ (ih u hu).1, (ih u hu).2⟩

/-- One prediction for each test row. -/
theorem Predicts.lengths (h : Predicts factory x splits us n)
    (hr : ∀ f ∈ splits, InRange x.length f.1 ∧ InRange x.length f.2) :
    ∀ u ∈ us, InRange x.length u.1.2 ∧ u.2.length = u.1.2.length := fun u hu =>
  ⟨(hr _ (h.used u hu).1).2, (foldPrediction_some (hr _ (h.used u hu).1).2 (h.used u hu).2).2⟩

/-! ## Decisions -/

/-- The rows tested, each with its prediction. -/
def decisions (us : List UsedFold) : List (Int × ℚ) :=
  us.flatMap (fun u => u.1.2.zip u.2)

/-- What `evaluate` decides: the rows it tests, each with its prediction. -/
def Decides (factory : Except PyErr Model) (df : List FeatureRow) (nSplits horizon embargo : Int)
    (cols : List String) (ds : List (Int × ℚ)) : Prop :=
  ∃ x splits us n, featureMatrix df cols = .ok x
    ∧ walkForwardSplits x.length nSplits horizon embargo 1 = .ok splits
    ∧ Predicts factory x splits us n ∧ ds = decisions us

theorem map_fst_decisions (h : ∀ u ∈ us, u.2.length = u.1.2.length) :
    (decisions us).map Prod.fst = (us.map (fun u => u.1.2)).flatten := by
  unfold decisions
  rw [List.map_flatMap, List.flatMap_def]
  exact congrArg List.flatten (List.map_congr_left (fun u hu => List.map_fst_zip (h u hu).ge))

theorem map_snd_decisions (h : ∀ u ∈ us, u.2.length = u.1.2.length) :
    (decisions us).map Prod.snd = (us.map Prod.snd).flatten := by
  unfold decisions
  rw [List.map_flatMap, List.flatMap_def]
  exact congrArg List.flatten (List.map_congr_left (fun u hu => List.map_snd_zip (h u hu).le))

/-- The tests of the splits are the end of the timeline. -/
theorem splits_tests {nSamples nSplits horizon embargo minTrain : Int} (hn : 0 ≤ nSamples)
    (ht : 1 ≤ minTrain)
    (h : walkForwardSplits nSamples nSplits horizon embargo minTrain = .ok splits) :
    ∃ start, (splits.map Prod.snd).flatten = arange start nSamples := by
  obtain ⟨hm, -, -, hf, rfl⟩ := walkForwardSplits_ok hn ht h
  rw [List.map_map]
  by_cases hlast : keptFrom nSamples nSplits horizon embargo minTrain ≤ nSplits
  · exact ⟨_, flatten_testRows hm hf
      (nSplits - keptFrom nSamples nSplits horizon embargo minTrain).toNat (by omega)⟩
  · refine ⟨nSamples, ?_⟩
    rw [arange_of_le (le_refl _), arange_of_le (by omega)]
    rfl

/-- The rows decided on are rows of the table, in order. -/
theorem decisions_rows {nSplits horizon embargo : Int}
    (hsplits : walkForwardSplits x.length nSplits horizon embargo 1 = .ok splits)
    (h : Predicts factory x splits us n) :
    ((decisions us).map Prod.fst).Pairwise (fun i j => i < j)
      ∧ InRange x.length ((decisions us).map Prod.fst)
      ∧ (decisions us).length ≤ x.length := by
  have hr := splits_inRange hsplits
  rw [map_fst_decisions (fun u hu => (h.lengths hr u hu).2)]
  obtain ⟨start, hstart⟩ := splits_tests (by omega) (by omega) hsplits
  have hsub : (us.map (fun u => u.1.2)).flatten.Sublist (arange start x.length) := by
    have hmap : us.map (fun u => u.1.2) = (us.map Prod.fst).map Prod.snd := by
      rw [List.map_map]
      rfl
    rw [← hstart, hmap]
    exact (h.sublist.map Prod.snd).flatten
  have hrange : InRange x.length (us.map (fun u => u.1.2)).flatten := by
    intro i hi
    obtain ⟨l, hl, hil⟩ := List.mem_flatten.mp hi
    obtain ⟨u, hu, rfl⟩ := List.mem_map.mp hl
    exact (h.lengths hr u hu).1 i hil
  have hpair := (pairwise_arange start x.length).sublist hsub
  refine ⟨hpair, hrange, ?_⟩
  -- different numbers below the number of rows
  have hlen : (us.map (fun u => u.1.2)).flatten.length = (decisions us).length := by
    rw [← map_fst_decisions (fun u hu => (h.lengths hr u hu).2), List.length_map]
  have hincl : (us.map (fun u => u.1.2)).flatten ⊆ arange 0 x.length := fun i hi =>
    mem_arange.mpr (hrange i hi)
  have hnodup : (us.map (fun u => u.1.2)).flatten.Nodup := hpair.imp Int.ne_of_lt
  calc (decisions us).length = (us.map (fun u => u.1.2)).flatten.length := hlen.symm
    _ ≤ (arange 0 x.length).length := (List.subperm_of_subset hnodup hincl).length_le
    _ = x.length := by
        rw [length_arange]
        omega

/-- **The pooled metrics** are those of the decisions. -/
theorem pooled_of_decisions (sqrt : ℚ → ℚ) (cost : ℚ) (x : List Sample)
    (h : ∀ u ∈ us, u.2.length = u.1.2.length) :
    metricsOf sqrt cost (us.map (fun u => pick (yOf x) u.1.2)).flatten
        (us.map Prod.snd).flatten
        (us.map (fun u => pick (fwdOf x) u.1.2)).flatten
      = metricsOf sqrt cost (pick (yOf x) ((decisions us).map Prod.fst))
          ((decisions us).map Prod.snd)
          (pick (fwdOf x) ((decisions us).map Prod.fst)) := by
  rw [map_fst_decisions h, map_snd_decisions h, pick_flatten, pick_flatten, List.map_map,
    List.map_map]
  rfl

/-! ## The books of a run -/

/-- What the pooled figures have to do with those of the folds, and with the rows tested: these
ascend, so none is tested twice. -/
structure Accounts (splits : Nat) (tested : List Int) (r : EvaluationResult) : Prop where
  folds : r.nFolds + r.nSkipped = splits ∧ r.perFold.length = r.nFolds ∧ 1 ≤ r.nFolds
  fold : ∀ f ∈ r.perFold, f.n = f.test ∧ 1 ≤ f.test ∧ 2 ≤ f.train
  tested : tested.Pairwise (fun i j => i < j) ∧ InRange r.nSamples tested
    ∧ r.pooled.n = tested.length
  rows : r.pooled.n = (r.perFold.map (fun f => f.n)).sum ∧ r.pooled.n ≤ r.nSamples
  nTrades : r.pooled.nTrades = (r.perFold.map (fun f => f.nTrades)).sum
  total : r.pooled.totalNetReturn = sumOf (fun f => f.totalNetReturn) r.perFold
  accuracy : r.pooled.accuracy = wavg (fun f => (f.n : ℚ)) (fun f => f.accuracy) r.perFold
  mean : r.pooled.meanNetReturn = wavg (fun f => (f.n : ℚ)) (fun f => f.meanNetReturn) r.perFold
  hitRate : r.pooled.hitRate = wavg (fun f => (f.nTrades : ℚ)) (fun f => f.hitRate) r.perFold

/-- A pair of equal labels. -/
def right (p : ℚ × ℚ) : ℚ := bit (decide (p.1 = p.2))

end

/-- A model that has learnt nothing and always predicts one value. -/
def constant (v : ℚ) : Model where
  fit _ _ := .ok
    { predict := fun x => .ok (x.map (fun _ => v))
      length_predict := by
        rintro x p h
        cases h
        exact List.length_map _ }

/-- A mid that jumps up and down, and eight bars of one day with it. -/
def seesaw (t : Int) : ℚ := if t % 2 = 0 then 1 else 2

def seesawDay (_ : Date) : Except PyErr (List (Int × Ohlcv) × List (Int × QuoteFeatures)) :=
  .ok ((arange 0 8).map (fun t => (t * barSize, ⟨1, 1, 1, 1, some 1, 1, 1, 1, 0, some 1⟩)),
    (arange 0 8).map (fun t => (t * barSize, quoteFeatures ⟨seesaw t, seesaw t, 1, 1⟩)))

/-- Its rows, and what the constant model makes of them. -/
def seesawRows : List (Date × FeatureRow) :=
  match loadFeatures (dayFeatures logAtOne sqrtAtZero seesawDay 1 1 (1 / 10)) [18262] with
  | .ok df => df
  | .error _ => []

def seesawResult : EvaluationResult :=
  match evaluate (fun _ => 0) (.ok (constant 1)) (1 / 10) (seesawRows.map Prod.snd) 1 1 0
    (some ["close"]) with
  | .ok r => r
  | .error _ => ⟨0, 0, 0, [], ⟨⟨0, none, none⟩, ⟨0, none, none, 0, none⟩⟩, []⟩

/-- One fold of three tests: two trades win, one loses. -/
example : seesawResult.pooled.hitRate = some (2 / 3) := by decide +kernel

section

variable {sqrt : ℚ → ℚ} {cost : ℚ} {x : List Sample}

/-- The rows loaded are those of the days' tables. -/
theorem mem_loadFeatures {table : Date → Except PyErr (List FeatureRow)} {days : List Date}
    {df : List (Date × FeatureRow)} (h : loadFeatures table days = .ok df) {d : Date}
    {r : FeatureRow} :
    (d, r) ∈ df ↔ d ∈ days ∧ ∃ rows, table d = .ok rows ∧ r ∈ rows := by
  unfold loadFeatures at h
  dsimp only at h
  split at h
  · split at h <;> cases h
  · cases h
    rw [List.mem_flatMap]
    constructor
    · rintro ⟨f, hf, hr⟩
      obtain ⟨d', hd', hframe⟩ := List.mem_filterMap.mp hf
      obtain ⟨r', hr', hpair⟩ := List.mem_map.mp hr
      cases hpair
      cases htable : table d' with
      | error e => simp [htable] at hframe
      | ok ft =>
          simp only [htable, Option.ite_none_right_eq_some, Option.some_inj] at hframe
          obtain ⟨-, rfl⟩ := hframe
          exact ⟨hd', ft, htable, hr'⟩
    · rintro ⟨hd, rows, htable, hr⟩
      refine ⟨(d, rows), List.mem_filterMap.mpr ⟨d, hd, ?_⟩, List.mem_map.mpr ⟨r, hr, rfl⟩⟩
      simp [htable, List.length_pos_of_mem hr]

/-- A complete row has a forward return. -/
theorem fwdRet_of_complete {cols : List String} {r : FeatureRow} (h : complete cols r = true) :
    r.fwdRet = some (r.fwdRet.getD 0) := by
  have hsome : r.fwdRet.isSome = true := List.all_eq_true.mp h "fwdRet" (by simp)
  obtain ⟨v, hv⟩ := Option.isSome_iff_exists.mp hsome
  rw [hv]
  rfl

/-- Every sample is a row of the table, with its label and forward return. -/
theorem mem_featureMatrix {df : List FeatureRow} {cols : List String}
    (h : featureMatrix df cols = .ok x) {s : Sample} (hs : s ∈ x) :
    ∃ r ∈ df, r.fwdRet = some s.2.2 ∧ r.label = s.2.1 := by
  unfold featureMatrix at h
  split at h
  · cases h
  · cases h
    obtain ⟨r, hr, rfl⟩ := List.mem_map.mp hs
    obtain ⟨hrow, hcomplete⟩ := List.mem_filter.mp hr
    exact ⟨r, hrow, fwdRet_of_complete hcomplete, rfl⟩

/-- What the labels of the given rows would earn. -/
def labelMetrics (sqrt : ℚ → ℚ) (cost : ℚ) (x : List Sample) (rows : List Int) :
    StrategyMetrics :=
  strategyMetrics sqrt (floats (pick (yOf x) rows)) (pick (fwdOf x) rows) cost

/-- The labels of rows labelled at the same cost earn all there is to earn, trade by trade. -/
theorem labelMetrics_best (sqrt : ℚ → ℚ) (hcost : 0 ≤ cost)
    (hlabels : ∀ s ∈ x, s.2.1 = labelOf cost (some s.2.2)) {rows : List Int}
    (hrows : InRange x.length rows) :
    (labelMetrics sqrt cost x rows).totalNetReturn = sumOf (bestNet cost) (pick (fwdOf x) rows)
      ∧ ((labelMetrics sqrt cost x rows).nTrades = 0
        ∨ (labelMetrics sqrt cost x rows).hitRate = some 1) := by
  have hlen : (floats (pick (yOf x) rows)).length = (pick (fwdOf x) rows).length := by
    rw [length_floats, length_pick (by simpa using hrows), length_pick (by simpa using hrows)]
  have hpairs : (floats (pick (yOf x) rows)).zip (pick (fwdOf x) rows)
      = (pick x rows).map (fun s => (((s.2.1 : ℤ) : ℚ), s.2.2)) := by
    rw [floats, yOf, fwdOf, pick_map, pick_map, List.map_map, List.zip_map']
    rfl
  have hmem : ∀ s ∈ pick x rows, s ∈ x := by
    intro s hs
    obtain ⟨i, -, hi⟩ := List.mem_filterMap.mp hs
    exact List.mem_of_getElem? hi
  refine ⟨(totalNetReturn_eq hlen).trans ?_, ?_⟩
  · rw [hpairs, sumOf_map, fwdOf, pick_map, sumOf_map]
    refine sumOf_congr (fun s hs => ?_)
    rw [hlabels s (hmem s hs)]
    exact netOf_label hcost s.2.2
  · rw [or_iff_not_imp_left]
    intro hsome
    have hne : ((floats (pick (yOf x) rows)).zip (pick (fwdOf x) rows)).filter trades ≠ [] := by
      intro hnil
      apply hsome
      exact (nTrades_eq _ _ hlen).trans (by rw [hnil, List.length_nil])
    refine (hitRate_eq hlen).trans ((mean_eq_one_iff hne (fun q _ => ?_)).mpr (fun q hq => ?_))
    · unfold bit
      split
      · exact le_refl _
      · exact zero_le_one
    · obtain ⟨hq, htrade⟩ := List.mem_filter.mp hq
      rw [hpairs] at hq
      obtain ⟨s, hs, rfl⟩ := List.mem_map.mp hq
      rw [hlabels s (hmem s hs)] at htrade ⊢
      rw [decide_eq_true (netOf_label_pos hcost htrade)]
      rfl

end

/-- The label of a sample is that of its forward return, at the cost of the tables. -/
theorem label_of_sample {log sqrtq : ℚ → Option ℚ}
    {bars : Date → Except PyErr (List (Int × Ohlcv) × List (Int × QuoteFeatures))}
    {days : List Date} {h w : Nat} {cost : ℚ} {df : List (Date × FeatureRow)}
    (hdf : loadFeatures (dayFeatures log sqrtq bars h w cost) days = .ok df) {cols : List String}
    {x : List Sample} (hx : featureMatrix (df.map Prod.snd) cols = .ok x) {s : Sample}
    (hs : s ∈ x) : s.2.1 = labelOf cost (some s.2.2) := by
  obtain ⟨row, hrow, hfwd, hlabel⟩ := mem_featureMatrix hx hs
  obtain ⟨⟨d, row'⟩, hmem, rfl⟩ := List.mem_map.mp hrow
  obtain ⟨-, rows, htable, hrows⟩ := (mem_loadFeatures hdf).mp hmem
  unfold dayFeatures at htable
  obtain ⟨⟨tb, qb⟩, -, htable⟩ := bind_eq_ok.mp htable
  rw [← hlabel, (featuresOf_row htable hrows).label, hfwd]

/-- **Nothing beats the labels.** For the tables `featuresOf` labels at the cost that `evaluate`
charges: whatever the model, it nets at most what the labels of the tested rows would, that is the
excess of every forward return over the cost, and as much only if each of its decisions does; the
labels win all their trades. The sums are exact. -/
theorem evaluate_le_labels (log sqrtq : ℚ → Option ℚ) (sqrt : ℚ → ℚ)
    (bars : Date → Except PyErr (List (Int × Ohlcv) × List (Int × QuoteFeatures)))
    (days : List Date) (h w : Nat) (cost : ℚ) (hcost : 0 ≤ cost) (df : List (Date × FeatureRow))
    (hdf : loadFeatures (dayFeatures log sqrtq bars h w cost) days = .ok df)
    (factory : Except PyErr Model) (nSplits horizon embargo : Int)
    (featureCols : Option (List String)) (r : EvaluationResult)
    (hr : evaluate sqrt factory cost (df.map Prod.snd) nSplits horizon embargo featureCols
      = .ok r) :
    ∃ x rows preds, featureMatrix (df.map Prod.snd) (featureCols.getD defaultFeatures) = .ok x
      ∧ Decides factory (df.map Prod.snd) nSplits horizon embargo
        (featureCols.getD defaultFeatures) (rows.zip preds)
      ∧ rows.length = preds.length
      ∧ r.pooled = metricsOf sqrt cost (pick (yOf x) rows) preds (pick (fwdOf x) rows)
      ∧ rows.Pairwise (fun i j => i < j) ∧ InRange x.length rows
      ∧ (labelMetrics sqrt cost x rows).totalNetReturn = sumOf (bestNet cost) (pick (fwdOf x) rows)
      ∧ ((labelMetrics sqrt cost x rows).nTrades = 0
        ∨ (labelMetrics sqrt cost x rows).hitRate = some 1)
      ∧ r.pooled.totalNetReturn ≤ (labelMetrics sqrt cost x rows).totalNetReturn
      ∧ (r.pooled.totalNetReturn = (labelMetrics sqrt cost x rows).totalNetReturn
        ↔ ∀ q ∈ preds.zip (pick (fwdOf x) rows), netOf cost q = bestNet cost q.2) := by
  obtain ⟨x, splits, us, n, hx, hsplits, hp, hus, rfl⟩ := evaluate_eq_ok.mp hr
  obtain ⟨hsorted, hrange, -⟩ := decisions_rows hsplits hp
  have hlens := hp.lengths (splits_inRange hsplits)
  obtain ⟨htotal, hhit⟩ :=
    labelMetrics_best sqrt hcost (fun s hs => label_of_sample hdf hx hs) hrange
  have hlen : ((decisions us).map Prod.snd).length
      = (pick (fwdOf x) ((decisions us).map Prod.fst)).length := by
    rw [length_pick (by simpa using hrange), List.length_map, List.length_map]
  have hpooled := pooled_of_decisions sqrt cost x
    (fun u hu => (hlens u hu).2)
  have hmodel := (congrArg (fun m => m.totalNetReturn) hpooled).trans (totalNetReturn_eq hlen)
  have hbest : sumOf (fun q => bestNet cost q.2) (((decisions us).map Prod.snd).zip
      (pick (fwdOf x) ((decisions us).map Prod.fst)))
      = sumOf (bestNet cost) (pick (fwdOf x) ((decisions us).map Prod.fst)) := by
    rw [← sumOf_map, List.map_snd_zip hlen.ge]
  have hdecides : Decides factory (df.map Prod.snd) nSplits horizon embargo
      (featureCols.getD defaultFeatures)
      (((decisions us).map Prod.fst).zip ((decisions us).map Prod.snd)) := by
    refine ⟨x, splits, us, n, hx, hsplits, hp, ?_⟩
    rw [List.zip_map', List.map_id'']
    exact fun _ => rfl
  refine ⟨x, (decisions us).map Prod.fst, (decisions us).map Prod.snd, hx, hdecides, by simp,
    hpooled, hsorted, by simpa using hrange, htotal, hhit, ?_, ?_⟩
  · rw [hmodel, htotal, ← hbest]
    exact total_le_best _
  · rw [hmodel, htotal, ← hbest]
    exact total_eq_best_iff _

theorem evaluate_le_labels_seesaw : ∃ x rows preds,
    featureMatrix (seesawRows.map Prod.snd) ["close"] = .ok x
      ∧ Decides (.ok (constant 1)) (seesawRows.map Prod.snd) 1 1 0 ["close"] (rows.zip preds)
      ∧ seesawResult.pooled
        = metricsOf (fun _ => 0) (1 / 10) (pick (yOf x) rows) preds (pick (fwdOf x) rows)
      ∧ seesawResult.pooled.totalNetReturn
        ≤ (labelMetrics (fun _ => 0) (1 / 10) x rows).totalNetReturn := by
  have hdf : loadFeatures (dayFeatures logAtOne sqrtAtZero seesawDay 1 1 (1 / 10)) [18262]
      = .ok seesawRows := by rfl
  have hrun : evaluate (fun _ => 0) (.ok (constant 1)) (1 / 10) (seesawRows.map Prod.snd) 1 1 0
      (some ["close"]) = .ok seesawResult := by decide +kernel
  obtain ⟨x, rows, preds, hx, hds, -, hpooled, -, -, -, -, hle, -⟩ := evaluate_le_labels logAtOne
    sqrtAtZero (fun _ => 0) seesawDay [18262] 1 1 (1 / 10) (by norm_num) seesawRows hdf
    (.ok (constant 1)) 1 1 0 (some ["close"]) seesawResult hrun
  exact ⟨x, rows, preds, hx, hds, hpooled, hle⟩

end NanoTick
