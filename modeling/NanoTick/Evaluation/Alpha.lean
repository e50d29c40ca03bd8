import NanoTick.Evaluation.Causality
import Mathlib.Tactic

set_option autoImplicit false

/-! # The imbalance rule under evaluation

`ImbalanceAlpha` (`resources/alpha.py`) finds its two columns by name in the list of feature
columns it is given, which `resources/experiment.py` also gives to `evaluate`. As long as the names
are distinct, the column it reads of a sample is the feature of that name, wherever it stands in the
list (`sample_column`), and what it decides on a tested row is its rule on the row's own two
features: no fold and no training row shows in it (`evaluate_imbalance`).
-/

namespace NanoTick

open Python Raising

/-! ## `ImbalanceAlpha` -/

/-- The signal of `ImbalanceAlpha.predict` for one row. -/
def signalOf (threshold flow quote : ℚ) : ℚ :=
  (if threshold < flow ∧ threshold < quote then 1 else 0)
    - (if flow < -threshold ∧ quote < -threshold then 1 else 0)

/-- `ImbalanceAlpha.predict`. -/
def imbalancePredict (flow quote : Nat) (threshold : ℚ) (x : List (List ℚ)) :
    Except PyErr (List ℚ) :=
  x.mapM (fun row => do
    let f ← indexed row flow
    let q ← indexed row quote
    return signalOf threshold f q)

/-- `ImbalanceAlpha`, whose `fit` does nothing. -/
def imbalanceAlpha (featureCols : List String) (flowCol quoteCol : String) (threshold : ℚ) :
    Except PyErr Model :=
  let missing := [flowCol, quoteCol].filter (fun c => decide (c ∉ featureCols))
  if missing ≠ [] then .error .keyError
  else .ok
    { fit := fun _ _ => .ok
        { predict := imbalancePredict (featureCols.idxOf flowCol) (featureCols.idxOf quoteCol)
            threshold
          length_predict := fun h => length_of_mapM h } }

/-! ## Columns by name -/

/-- The first place of a name among the columns is where its feature stands. -/
theorem mapM_featureColumn_idxOf {cols : List String} {fs : List (FeatureRow → Option ℚ)}
    (h : cols.mapM featureColumn = some fs) {c : String} (hc : c ∈ cols) :
    fs[cols.idxOf c]? = featureColumn c := by
  induction cols generalizing fs with
  | nil => exact absurd hc List.not_mem_nil
  | cons c' cols ih =>
      rw [List.mapM_cons] at h
      obtain ⟨g, hg, h⟩ := Option.bind_eq_some_iff.mp h
      obtain ⟨gs, hgs, h⟩ := Option.bind_eq_some_iff.mp h
      cases h
      by_cases heq : c' = c
      · subst heq
        rw [List.idxOf_cons_self, hg]
        rfl
      · have hmem : c ∈ cols := (List.mem_cons.mp hc).resolve_left (Ne.symm heq)
        rw [List.idxOf_cons_ne _ heq, ← ih hgs hmem]
        rfl

/-- A feature used is not null in a complete row. -/
theorem isSome_of_complete {cols : List String} {r : FeatureRow} (h : complete cols r = true)
    {c : String} (hc : c ∈ cols) {f : FeatureRow → Option ℚ} (hf : featureColumn c = some f) :
    f r = some ((f r).getD 0) := by
  have hall := List.all_eq_true.mp h c (List.mem_append_left _ hc)
  rw [hf] at hall
  obtain ⟨v, hv⟩ := Option.isSome_iff_exists.mp hall
  rw [hv]
  rfl

/-- **The column a sample has under a name** is the row's feature of that name. -/
theorem sample_column {cols : List String} {fs : List (FeatureRow → Option ℚ)}
    (hfs : cols.mapM featureColumn = some fs) {c : String} (hc : c ∈ cols)
    {f : FeatureRow → Option ℚ} (hf : featureColumn c = some f) (r : FeatureRow) :
    indexed (sampleOf fs r).1 (cols.idxOf c) = .ok ((f r).getD 0) := by
  have hget := mapM_featureColumn_idxOf hfs hc
  rw [hf] at hget
  refine indexed_natCast ?_
  rw [sampleOf, List.getElem?_map, hget]
  rfl

/-! ## What it decides -/

section

variable {cols : List String} {fs : List (FeatureRow → Option ℚ)} {threshold : ℚ}

/-- The rule on a row's order flow and quote imbalance. -/
def ruleOf (threshold : ℚ) (r : FeatureRow) : ℚ :=
  signalOf threshold (r.imbAvg.getD 0) ((r.quote.bind (·.qimb)).getD 0)

theorem imbalancePredict_rows (hfs : cols.mapM featureColumn = some fs) (hflow : "imbAvg" ∈ cols)
    (hquote : "qimb" ∈ cols) (rows : List FeatureRow) :
    imbalancePredict (cols.idxOf "imbAvg") (cols.idxOf "qimb") threshold
      (rows.map (fun r => (sampleOf fs r).1)) = .ok (rows.map (ruleOf threshold)) := by
  unfold imbalancePredict
  refine mapM_map_eq_ok (fun r _ => ?_)
  rw [sample_column hfs hflow rfl, sample_column hfs hquote rfl]
  rfl

/-- The rule is found when both columns are among the features. -/
theorem imbalanceAlpha_eq (hflow : "imbAvg" ∈ cols) (hquote : "qimb" ∈ cols) :
    imbalanceAlpha cols "imbAvg" "qimb" threshold = .ok
      { fit := fun _ _ => .ok
          { predict := imbalancePredict (cols.idxOf "imbAvg") (cols.idxOf "qimb") threshold
            length_predict := fun h => length_of_mapM h } } := by
  simp [imbalanceAlpha, hflow, hquote]

theorem imbalanceAlpha_missing (h : ¬ ("imbAvg" ∈ cols ∧ "qimb" ∈ cols)) :
    imbalanceAlpha cols "imbAvg" "qimb" threshold = .error .keyError := by
  unfold imbalanceAlpha
  dsimp only
  refine if_pos ?_
  by_cases hflow : "imbAvg" ∈ cols
  · have hquote : "qimb" ∉ cols := fun hq => h ⟨hflow, hq⟩
    simp [hquote]
  · simp [hflow]

/-- The usable rows of a table. -/
def usable (cols : List String) (df : List FeatureRow) : List FeatureRow :=
  df.filter (complete cols)

/-- Whether a fold has two labels to learn from. -/
def twoLabels (rows : List FeatureRow) (f : List Int × List Int) : Prop :=
  2 ≤ (unique (pick (rows.map (·.label)) f.1)).length

/-- What the rule predicts for a fold. -/
theorem foldPrediction_imbalance {rows : List FeatureRow} {f : List Int × List Int}
    (hfs : cols.mapM featureColumn = some fs) (hflow : "imbAvg" ∈ cols) (hquote : "qimb" ∈ cols) :
    foldPrediction (imbalanceAlpha cols "imbAvg" "qimb" threshold) (rows.map (sampleOf fs)) f
      = .ok (if 2 ≤ (unique (pick (rows.map (·.label)) f.1)).length
          then some ((pick rows f.2).map (ruleOf threshold)) else none) := by
  have hy : yOf (rows.map (sampleOf fs)) = rows.map (·.label) := by
    rw [yOf, List.map_map]
    rfl
  have hx : xOf (rows.map (sampleOf fs)) = rows.map (fun r => (sampleOf fs r).1) := by
    rw [xOf, List.map_map]
    rfl
  unfold foldPrediction
  rw [hy, hx, imbalanceAlpha_eq hflow hquote, pick_map (fun r => (sampleOf fs r).1)]
  by_cases htwo : 2 ≤ (unique (pick (rows.map (·.label)) f.1)).length
  · rw [if_neg (by omega), if_pos htwo]
    simp only [bind, Except.bind]
    rw [pick_map (fun r => (sampleOf fs r).1), imbalancePredict_rows hfs hflow hquote]
    rfl
  · rw [if_pos (by omega), if_neg htwo]

end

/-- Every fold of a run is computed. -/
theorem exists_predicts_iff {factory : Except PyErr Model} {x : List Sample}
    {splits : List (List Int × List Int)} :
    (∃ us n, Predicts factory x splits us n)
      ↔ ∀ f ∈ splits, Succeeds (foldPrediction factory x f) := by
  induction splits with
  | nil => exact ⟨fun _ f hf => absurd hf List.not_mem_nil, fun _ => ⟨[], 0, .nil⟩⟩
  | cons f splits ih =>
      rw [List.forall_mem_cons, ← ih]
      constructor
      · rintro ⟨us, n, h⟩
        cases h with
        | skip hf h => exact ⟨⟨_, hf⟩, _, _, h⟩
        | use hf h => exact ⟨⟨_, hf⟩, _, _, h⟩
      · rintro ⟨⟨o, hf⟩, us, n, h⟩
        cases o with
        | none => exact ⟨us, n + 1, .skip hf h⟩
        | some pred => exact ⟨(f, pred) :: us, n, .use hf h⟩

theorem exists_mapM_featureColumn {cols : List String} :
    (∃ fs, cols.mapM featureColumn = some fs) ↔ ∀ c ∈ cols, featureColumn c ≠ none := by
  induction cols with
  | nil => exact ⟨fun _ c hc => absurd hc List.not_mem_nil, fun _ => ⟨[], rfl⟩⟩
  | cons c cols ih =>
      rw [List.forall_mem_cons, ← ih]
      constructor
      · rintro ⟨fs, h⟩
        rw [List.mapM_cons] at h
        obtain ⟨g, hg, h⟩ := Option.bind_eq_some_iff.mp h
        obtain ⟨gs, hgs, -⟩ := Option.bind_eq_some_iff.mp h
        exact ⟨by simp [hg], gs, hgs⟩
      · rintro ⟨hc, gs, hgs⟩
        obtain ⟨g, hg⟩ := Option.ne_none_iff_exists'.mp hc
        refine ⟨g :: gs, ?_⟩
        rw [List.mapM_cons, hg, hgs]
        rfl

/-- The samples are made of the usable rows. -/
theorem featureMatrix_eq_ok {df : List FeatureRow} {cols : List String} {x : List Sample}
    (hcols : selected cols = cols) : featureMatrix df cols = .ok x
      ↔ ∃ fs, cols.mapM featureColumn = some fs ∧ x = (usable cols df).map (sampleOf fs) := by
  unfold featureMatrix
  rw [hcols]
  cases cols.mapM featureColumn with
  | none => simp
  | some fs =>
      simp only [Except.ok.injEq, Option.some.injEq, exists_eq_left']
      exact eq_comm

/-- The two features of a usable row. -/
theorem features_of_usable {df : List FeatureRow} {cols : List String} (hflow : "imbAvg" ∈ cols)
    (hquote : "qimb" ∈ cols) (threshold : ℚ) {row : FeatureRow} (hrow : row ∈ usable cols df) :
    ∃ flow quote, row.imbAvg = some flow ∧ row.quote.bind (·.qimb) = some quote
      ∧ ruleOf threshold row = signalOf threshold flow quote := by
  have hcomplete := (List.mem_filter.mp hrow).2
  exact ⟨_, _, isSome_of_complete hcomplete hflow rfl, isSome_of_complete hcomplete hquote rfl, rfl⟩

/-- A fold is used only by a rule that finds its two columns. -/
theorem columns_of_used {cols : List String} {threshold : ℚ} {x : List Sample}
    {splits : List (List Int × List Int)} {us : List UsedFold} {n : Nat}
    (hp : Predicts (imbalanceAlpha cols "imbAvg" "qimb" threshold) x splits us n) (hus : us ≠ []) :
    "imbAvg" ∈ cols ∧ "qimb" ∈ cols := by
  by_contra hmissing
  obtain ⟨u, hu⟩ := List.exists_mem_of_ne_nil us hus
  have hpred := (hp.used u hu).2
  rw [imbalanceAlpha_missing hmissing] at hpred
  unfold foldPrediction at hpred
  split at hpred <;> cases hpred

section

variable {cols : List String} {fs : List (FeatureRow → Option ℚ)} {threshold : ℚ}
  {rows : List FeatureRow} {splits : List (List Int × List Int)}

/-- **Some fold is used** exactly when some fold has two labels. -/
theorem exists_used_iff (hfs : cols.mapM featureColumn = some fs) (hflow : "imbAvg" ∈ cols)
    (hquote : "qimb" ∈ cols) :
    (∃ us n, Predicts (imbalanceAlpha cols "imbAvg" "qimb" threshold) (rows.map (sampleOf fs))
        splits us n ∧ us ≠ []) ↔ ∃ f ∈ splits, twoLabels rows f := by
  unfold twoLabels
  constructor
  · rintro ⟨us, n, hp, hus⟩
    obtain ⟨u, hu⟩ := List.exists_mem_of_ne_nil us hus
    obtain ⟨hf, hpred⟩ := hp.used u hu
    rw [foldPrediction_imbalance hfs hflow hquote] at hpred
    refine ⟨u.1, hf, ?_⟩
    by_contra hone
    rw [if_neg hone] at hpred
    cases hpred
  · rintro ⟨f, hf, htwo⟩
    -- the rule never raises on its columns, so all folds are computed
    obtain ⟨us, n, hp⟩ := exists_predicts_iff.mpr
      (fun g (_ : g ∈ splits) => ⟨_, foldPrediction_imbalance hfs hflow hquote⟩)
    refine ⟨us, n, hp, ?_⟩
    rintro rfl
    rcases hp.covers hf with hskip | ⟨pred, -, hmem⟩
    · rw [foldPrediction_imbalance hfs hflow hquote, if_pos htwo] at hskip
      cases hskip
    · exact List.not_mem_nil hmem

/-- **What is decided** is the rule on the rows tested. -/
theorem decisions_imbalance (hfs : cols.mapM featureColumn = some fs) (hflow : "imbAvg" ∈ cols)
    (hquote : "qimb" ∈ cols) {us : List UsedFold} {n : Nat}
    (hp : Predicts (imbalanceAlpha cols "imbAvg" "qimb" threshold) (rows.map (sampleOf fs))
      splits us n) (hlens : ∀ u ∈ us, u.2.length = u.1.2.length) :
    (decisions us).map Prod.snd
      = (pick rows ((decisions us).map Prod.fst)).map (ruleOf threshold) := by
  rw [map_fst_decisions hlens, map_snd_decisions hlens, pick_flatten, List.map_flatten,
    List.map_map, List.map_map]
  refine congrArg List.flatten (List.map_congr_left (fun u hu => ?_))
  have hpred := (hp.used u hu).2
  rw [foldPrediction_imbalance hfs hflow hquote] at hpred
  split at hpred
  · exact (Option.some_inj.mp (Except.ok.inj hpred)).symm
  · cases hpred

end

/-- **The rule under evaluation.** Evaluated on its own feature columns, distinct, in any order and
among any others, the rule returns a result exactly when the table has all the columns, its two
among them, and some fold has two labels to train on; and then it has decided every tested row by
that row's order flow and quote imbalance alone. -/
theorem evaluate_imbalance (sqrt : ℚ → ℚ) (cost : ℚ) (df : List FeatureRow)
    (nSplits horizon embargo : Int) (cols : List String) (hdistinct : cols.Nodup)
    (htrailing : Trailing cols) (threshold : ℚ) :
    (Succeeds (evaluate sqrt (imbalanceAlpha cols "imbAvg" "qimb" threshold) cost df nSplits horizon
        embargo (some cols))
      ↔ ("imbAvg" ∈ cols ∧ "qimb" ∈ cols) ∧ (∀ c ∈ cols, featureColumn c ≠ none)
        ∧ ∃ splits,
          walkForwardSplits (usable cols df).length nSplits horizon embargo 1 = .ok splits
            ∧ ∃ f ∈ splits, twoLabels (usable cols df) f)
    ∧ ∀ r, evaluate sqrt (imbalanceAlpha cols "imbAvg" "qimb" threshold) cost df nSplits horizon
        embargo (some cols) = .ok r →
      ∃ idx, idx.Pairwise (fun i j => i < j) ∧ InRange (usable cols df).length idx
        ∧ r.pooled = metricsOf sqrt cost ((pick (usable cols df) idx).map (fun row => row.label))
          ((pick (usable cols df) idx).map (ruleOf threshold))
          ((pick (usable cols df) idx).map (fun row => row.fwdRet.getD 0))
        ∧ ∀ row ∈ pick (usable cols df) idx, ∃ flow quote, row.imbAvg = some flow
          ∧ row.quote.bind (·.qimb) = some quote
          ∧ ruleOf threshold row = signalOf threshold flow quote := by
  have hselected : selected cols = cols := selected_of_nodup hdistinct htrailing
  constructor
  · constructor
    · rintro ⟨r, hr⟩
      obtain ⟨x, splits, us, n, hx, hsplits, hp, hus, -⟩ := evaluate_eq_ok.mp hr
      rw [Option.getD_some] at hx
      obtain ⟨hflow, hquote⟩ := columns_of_used hp hus
      obtain ⟨fs, hfs, rfl⟩ := (featureMatrix_eq_ok hselected).mp hx
      rw [List.length_map] at hsplits
      exact ⟨⟨hflow, hquote⟩, exists_mapM_featureColumn.mp ⟨fs, hfs⟩, splits, hsplits,
        (exists_used_iff hfs hflow hquote).mp ⟨us, n, hp, hus⟩⟩
    · rintro ⟨⟨hflow, hquote⟩, hcols, splits, hsplits, htwo⟩
      obtain ⟨fs, hfs⟩ := exists_mapM_featureColumn.mpr hcols
      obtain ⟨us, n, hp, hus⟩ := (@exists_used_iff _ _ threshold _ _ hfs hflow hquote).mpr htwo
      refine ⟨_, evaluate_eq_ok.mpr ⟨_, splits, us, n,
        (featureMatrix_eq_ok hselected).mpr ⟨fs, hfs, rfl⟩, ?_, hp, hus, rfl⟩⟩
      rw [List.length_map]
      exact hsplits
  · intro r hr
    obtain ⟨x, splits, us, n, hx, hsplits, hp, hus, rfl⟩ := evaluate_eq_ok.mp hr
    rw [Option.getD_some] at hx
    obtain ⟨hflow, hquote⟩ := columns_of_used hp hus
    obtain ⟨hsorted, hrange, -⟩ := decisions_rows hsplits hp
    have hlens : ∀ u ∈ us, u.2.length = u.1.2.length :=
      fun u hu => (hp.lengths (splits_inRange hsplits) u hu).2
    obtain ⟨fs, hfs, rfl⟩ := (featureMatrix_eq_ok hselected).mp hx
    have hmem : ∀ row ∈ pick (usable cols df) ((decisions us).map Prod.fst),
        row ∈ usable cols df := by
      intro row hrow
      obtain ⟨i, -, hi⟩ := List.mem_filterMap.mp hrow
      exact List.mem_of_getElem? hi
    refine ⟨(decisions us).map Prod.fst, hsorted, by simpa using hrange, ?_,
      fun row hrow => features_of_usable hflow hquote threshold (hmem row hrow)⟩
    refine (pooled_of_decisions sqrt cost _ hlens).trans ?_
    rw [decisions_imbalance hfs hflow hquote hp hlens, yOf, fwdOf, List.map_map, List.map_map,
      pick_map, pick_map]
    rfl

/-- On the seesaw day, with the two columns the other way round. -/
theorem evaluate_imbalance_seesaw : Succeeds (evaluate (fun _ => 0)
    (imbalanceAlpha ["qimb", "imbAvg"] "imbAvg" "qimb" (1 / 10)) (1 / 10)
    (seesawRows.map Prod.snd) 1 1 0 (some ["qimb", "imbAvg"])) := by
  refine (evaluate_imbalance (fun _ => 0) (1 / 10) (seesawRows.map Prod.snd) 1 1 0
    ["qimb", "imbAvg"] (by decide) (by simp [Trailing]) (1 / 10)).1.mpr ⟨by decide, ?_, ?_⟩
  · intro c hc
    simp only [List.mem_cons, List.not_mem_nil, or_false] at hc
    rcases hc with rfl | rfl <;> simp [featureColumn]
  · refine ⟨[([0, 1], [3, 4, 5])], by decide +kernel, ([0, 1], [3, 4, 5]),
      List.mem_singleton_self _, by unfold twoLabels; decide +kernel⟩

end NanoTick
