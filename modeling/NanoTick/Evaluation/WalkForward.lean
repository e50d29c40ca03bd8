import NanoTick.Analytics.Features
import NanoTick.Basic.Timeline
import Mathlib.Tactic

set_option autoImplicit false

/-! # Walk-forward evaluation without leakage

The evaluation reads the feature tables of several days (`load_features` in
`resources/experiment.py`), drops the rows with a null in a used column (`feature_matrix` in
`resources/evaluation.py`) and splits the rest into folds (`walk_forward_splits`). A label
looks `horizon` bars ahead in its own day's table; the purge is counted in rows of what is
left. `labels_before_tests` shows that the purge suffices all the same.
-/

namespace NanoTick

open Python Timeline

/-! ## `walk_forward_splits` -/

/-- `numpy.arange`. -/
def arange (start stop : Int) : List Int :=
  (List.range (stop - start).toNat).map (fun n : Nat => start + (n : Int))

theorem mem_arange {start stop n : Int} : n ∈ arange start stop ↔ start ≤ n ∧ n < stop := by
  unfold arange
  rw [List.mem_map]
  constructor
  · rintro ⟨m, hm, rfl⟩
    rw [List.mem_range] at hm
    omega
  · rintro ⟨h₁, h₂⟩
    refine ⟨(n - start).toNat, ?_, ?_⟩
    · rw [List.mem_range]
      omega
    · omega

/-- `walk_forward_splits`: the row numbers to train and to test on, fold by fold. -/
def walkForwardSplits (nSamples nSplits horizon embargo minTrain : Int) :
    Except PyErr (List (List Int × List Int)) :=
  if nSplits < 1 then .error .valueError
  else if horizon < 0 ∨ embargo < 0 then .error .valueError
  else
    let fold := nSamples / (nSplits + 1)
    if fold = 0 then .error .valueError
    else .ok ((arange 1 (nSplits + 1)).filterMap (fun k =>
      let testStart := k * fold
      -- the last fold takes the remainder
      let testEnd := if k = nSplits then nSamples else (k + 1) * fold
      let trainEnd := testStart - horizon - embargo
      -- too little left to train on: the fold is skipped
      if trainEnd < minTrain then none
      else some (arange 0 trainEnd, arange testStart testEnd)))

/-- In every fold the training rows end `horizon + embargo` rows before the test rows, and
all of them are rows there are. -/
theorem splits_apart {nSamples nSplits horizon embargo minTrain : Int}
    {splits : List (List Int × List Int)} (hn : 0 ≤ nSamples)
    (h : walkForwardSplits nSamples nSplits horizon embargo minTrain = .ok splits)
    {f : List Int × List Int} (hf : f ∈ splits) {a b : Int} (ha : a ∈ f.1) (hb : b ∈ f.2) :
    0 ≤ a ∧ a + horizon < b ∧ b < nSamples := by
  unfold walkForwardSplits at h
  split at h
  · cases h
  · split at h
    · cases h
    · dsimp only at h
      split at h
      · cases h
      · rename_i hsplits hneg hfold
        cases h
        obtain ⟨k, hk, hkf⟩ := List.mem_filterMap.mp hf
        obtain ⟨hk1, hk2⟩ := mem_arange.mp hk
        split at hkf
        · cases hkf
        · cases hkf
          obtain ⟨ha0, ha1⟩ := mem_arange.mp ha
          obtain ⟨hb0, hb1⟩ := mem_arange.mp hb
          push Not at hneg hsplits
          refine ⟨ha0, by omega, ?_⟩
          split at hb1
          · exact hb1
          · rename_i hlast
            -- every fold but the last ends within the blocks of equal length
            have hblocks : (nSplits + 1) * (nSamples / (nSplits + 1)) ≤ nSamples :=
              Int.mul_ediv_self_le (by omega)
            have hwidth : 0 ≤ nSamples / (nSplits + 1) :=
              Int.ediv_nonneg hn (by omega)
            calc b < (k + 1) * (nSamples / (nSplits + 1)) := hb1
              _ ≤ (nSplits + 1) * (nSamples / (nSplits + 1)) :=
                  mul_le_mul_of_nonneg_right (by omega) hwidth
              _ ≤ nSamples := hblocks

/-! ## `feature_matrix` -/

/-- The columns of a feature table, by name; the bucket's timestamp as its nanoseconds. -/
def featureColumn : String → Option (FeatureRow → Option ℚ)
  | "bar" => some (fun r => some r.bar)
  | "open" => some (fun r => some r.open)
  | "high" => some (fun r => some r.high)
  | "low" => some (fun r => some r.low)
  | "close" => some (fun r => some r.close)
  | "vwap" => some (fun r => r.vwap)
  | "vol" => some (fun r => some r.vol)
  | "trades" => some (fun r => some r.trades)
  | "buyVol" => some (fun r => some r.buyVol)
  | "sellVol" => some (fun r => some r.sellVol)
  | "imbalance" => some (fun r => r.imbalance)
  | "bid" => some (fun r => r.quote.map (·.bid))
  | "ask" => some (fun r => r.quote.map (·.ask))
  | "bidSize" => some (fun r => r.quote.map (·.bidSize))
  | "askSize" => some (fun r => r.quote.map (·.askSize))
  | "mid" => some (fun r => r.quote.map (·.mid))
  | "spread" => some (fun r => r.quote.map (·.spread))
  | "micro" => some (fun r => r.quote.bind (·.micro))
  | "qimb" => some (fun r => r.quote.bind (·.qimb))
  | "ret" => some (fun r => r.ret)
  | "rvol" => some (fun r => r.rvol)
  | "imbAvg" => some (fun r => r.imbAvg)
  | "fwdRet" => some (fun r => r.fwdRet)
  | "label" => some (fun r => some r.label)
  | _ => none

/-- `DEFAULT_FEATURES`. -/
def defaultFeatures : List String :=
  ["ret", "rvol", "imbAvg", "imbalance", "qimb", "spread", "vol", "trades"]

/-- No used column of the row is null (`dropna`). -/
def complete (cols : List String) (r : FeatureRow) : Bool :=
  (cols ++ ["label", "fwdRet"]).all (fun c =>
    match featureColumn c with
    | some f => (f r).isSome
    | none => false)

/-- The columns of `sub[cols]`: pandas gives a name all columns of that name, so one that is asked
for `k` times comes `k` times as often. -/
def selected (cols : List String) : List String :=
  cols.flatMap (fun c => List.replicate ((cols ++ ["label", "fwdRet"]).count c) c)

/-- The columns asked for do not look ahead. -/
def Trailing (cols : List String) : Prop := ∀ c ∈ cols, c ≠ "fwdRet" ∧ c ≠ "label"

/-- The feature values, the label and the forward return of a row. -/
def sampleOf (fs : List (FeatureRow → Option ℚ)) (r : FeatureRow) : List ℚ × Int × ℚ :=
  (fs.map (fun f => (f r).getD 0), r.label, r.fwdRet.getD 0)

/-- `feature_matrix`: the samples of the complete rows. A column the table does not have is an
error. -/
def featureMatrix (df : List FeatureRow) (cols : List String) :
    Except PyErr (List (List ℚ × Int × ℚ)) :=
  match (selected cols).mapM featureColumn with
  | none => .error .keyError
  | some fs => .ok ((df.filter (complete cols)).map (sampleOf fs))

/-- **Distinct columns** come once each. -/
theorem selected_of_nodup {cols : List String} (hnodup : cols.Nodup) (htrailing : Trailing cols) :
    selected cols = cols := by
  have hone : ∀ c ∈ cols, List.replicate ((cols ++ ["label", "fwdRet"]).count c) c = [c] := by
    intro c hc
    obtain ⟨hfwd, hlabel⟩ := htrailing c hc
    have hcount : (cols ++ ["label", "fwdRet"]).count c = 1 := by
      rw [List.count_append, List.count_eq_one_of_mem hnodup hc, List.count_cons_of_ne hlabel.symm,
        List.count_cons_of_ne hfwd.symm, List.count_nil]
    rw [hcount, List.replicate_one]
  calc selected cols = cols.flatMap (fun c => [c]) := List.flatMap_congr hone
    _ = cols := List.flatMap_singleton' cols

/-! ## `load_features` -/

/-- `load_features`: the rows of the days' feature tables, one after the other, each with the
day it comes from. Days that raise or have no rows are skipped. -/
def loadFeatures (table : Date → Except PyErr (List FeatureRow)) (days : List Date) :
    Except PyErr (List (Date × FeatureRow)) :=
  let frames := days.filterMap (fun d =>
    match table d with
    | .error _ => none
    | .ok ft => if 0 < ft.length then some (d, ft) else none)
  if frames = [] then
    match days with
    | [] => .error .indexError
    | _ :: _ => .error .valueError
  else .ok (frames.flatMap (fun f => f.2.map (fun r => (f.1, r))))

/-- The loaded rows are in order of day and bar. -/
theorem loadFeatures_increasing {table : Date → Except PyErr (List FeatureRow)}
    (htable : ∀ d rows, table d = .ok rows → rows.Pairwise (fun a b => a.i < b.i))
    {days : List Date} (hdays : days.Pairwise (· < ·)) {df : List (Date × FeatureRow)}
    (h : loadFeatures table days = .ok df) : Increasing Prod.fst (fun r => r.2.i) df := by
  unfold loadFeatures at h
  dsimp only at h
  split at h
  · split at h <;> cases h
  · cases h
    rw [Increasing, List.pairwise_flatMap]
    constructor
    · rintro ⟨d, ft⟩ hft
      obtain ⟨d', -, hd'⟩ := List.mem_filterMap.mp hft
      rw [List.pairwise_map]
      have hok : table d = .ok ft := by
        split at hd'
        · cases hd'
        · rename_i ft' hft'
          split at hd'
          · cases hd'
            exact hft'
          · cases hd'
      exact (htable d ft hok).imp (fun hlt => Or.inr ⟨rfl, hlt⟩)
    · refine List.Pairwise.filterMap _ ?_ hdays
      intro d d' hlt f hf f' hf' r hr r' hr'
      -- each frame carries the day it was loaded for
      have hday : ∀ {d f}, (match table d with
          | .error _ => none
          | .ok ft => if 0 < ft.length then some (d, ft) else none) = some f → f.1 = d := by
        intro d f hf
        split at hf
        · cases hf
        · split at hf
          · cases hf
            rfl
          · cases hf
      obtain ⟨a, -, rfl⟩ := List.mem_map.mp hr
      obtain ⟨b, -, rfl⟩ := List.mem_map.mp hr'
      left
      show f.1 < f'.1
      rw [hday hf, hday hf']
      exact hlt

/-! ## No label peeks -/

/-- The loaded rows that `feature_matrix` keeps, in order. -/
def evaluated (cols : List String) (df : List (Date × FeatureRow)) : List (Date × FeatureRow) :=
  df.filter (fun r => complete cols r.2)

/-- Feature tables of the days with bars `bars d`, skipping days without. -/
def dayFeatures (log sqrt : ℚ → Option ℚ)
    (bars : Date → Except PyErr (List (Int × Ohlcv) × List (Int × QuoteFeatures))) (h w : Nat)
    (cost : ℚ) (d : Date) : Except PyErr (List FeatureRow) := do
  let (tb, qb) ← bars d
  featuresOf log sqrt tb qb h w cost

/-- The samples are those of the rows evaluated. -/
theorem samples_eq {df : List (Date × FeatureRow)} {cols : List String}
    {x : List (List ℚ × Int × ℚ)} (h : featureMatrix (df.map Prod.snd) cols = .ok x) :
    ∃ fs, (selected cols).mapM featureColumn = some fs
      ∧ x = (evaluated cols df).map (fun r => sampleOf fs r.2) := by
  unfold featureMatrix at h
  split at h
  · cases h
  · rename_i fs hfs
    cases h
    refine ⟨fs, hfs, ?_⟩
    rw [List.filter_map, List.map_map]
    rfl

/-- The rows evaluated are in the order of their bars. -/
theorem evaluated_increasing {log sqrt : ℚ → Option ℚ}
    {bars : Date → Except PyErr (List (Int × Ohlcv) × List (Int × QuoteFeatures))}
    {days : List Date} (hdays : days.Pairwise (· < ·)) {h w : Nat} {cost : ℚ}
    {df : List (Date × FeatureRow)}
    (hdf : loadFeatures (dayFeatures log sqrt bars h w cost) days = .ok df) (cols : List String) :
    Increasing Prod.fst (fun r : Date × FeatureRow => r.2.i) (evaluated cols df) := by
  refine (loadFeatures_increasing (fun d rows hrows => ?_) hdays hdf).filter _
  unfold dayFeatures at hrows
  cases hbars : bars d with
  | error e =>
      rw [hbars] at hrows
      cases hrows
  | ok b =>
      rw [hbars] at hrows
      exact featuresOf_increasing hrows

/-- **No training label peeks into test data.** Whatever the days, their bars and the nulls in
them: in every fold, the bars that the forward return of a training row uses, up to `h` after
its own in its own day, are strictly before the bar of every test row; and the samples at the rows
of a fold are those of these bars. -/
theorem labels_before_tests (log sqrt : ℚ → Option ℚ)
    (bars : Date → Except PyErr (List (Int × Ohlcv) × List (Int × QuoteFeatures)))
    (days : List Date) (hdays : days.Pairwise (· < ·)) (h w : Nat) (cost : ℚ)
    (cols : List String) (nSplits embargo minTrain : Int) (df : List (Date × FeatureRow))
    (hdf : loadFeatures (dayFeatures log sqrt bars h w cost) days = .ok df)
    (x : List (List ℚ × Int × ℚ)) (hx : featureMatrix (df.map Prod.snd) cols = .ok x)
    (splits : List (List Int × List Int))
    (hsplits : walkForwardSplits x.length nSplits h embargo minTrain = .ok splits) :
    ∃ fs, (selected cols).mapM featureColumn = some fs ∧
      ∀ f ∈ splits, ∀ a ∈ f.1, ∀ b ∈ f.2, ∃ ra rb,
        (evaluated cols df)[a.toNat]? = some ra ∧ (evaluated cols df)[b.toNat]? = some rb ∧
        x[a.toNat]? = some (sampleOf fs ra.2) ∧ x[b.toNat]? = some (sampleOf fs rb.2) ∧
        ∀ j ≤ h, toLex (ra.1, ra.2.i + j) < toLex (rb.1, rb.2.i) := by
  obtain ⟨fs, hfs, hsamples⟩ := samples_eq hx
  refine ⟨fs, hfs, ?_⟩
  intro f hf a ha b hb
  have hinc := evaluated_increasing hdays hdf cols
  obtain ⟨ha0, hab, hbn⟩ := splits_apart (by omega) hsplits hf ha hb
  have hlen : x.length = (evaluated cols df).length := by rw [hsamples, List.length_map]
  have hsample : ∀ {i : Nat} {r}, (evaluated cols df)[i]? = some r →
      x[i]? = some (sampleOf fs r.2) := by
    intro i r hr
    rw [hsamples, List.getElem?_map, hr]
    rfl
  rw [hlen] at hbn
  -- the two rows are more than `h` rows apart in what is left
  obtain ⟨n, hn⟩ : ∃ n, b.toNat = a.toNat + (h + 1 + n) := ⟨b.toNat - a.toNat - (h + 1), by omega⟩
  have hbl : b.toNat < (evaluated cols df).length := by omega
  have hal : a.toNat < (evaluated cols df).length := by omega
  have hrb : (evaluated cols df)[a.toNat + (h + 1 + n)]? = some (evaluated cols df)[b.toNat] := by
    rw [← hn]
    exact List.getElem?_eq_getElem hbl
  refine ⟨_, _, List.getElem?_eq_getElem hal, List.getElem?_eq_getElem hbl,
    hsample (List.getElem?_eq_getElem hal), hsample (List.getElem?_eq_getElem hbl), ?_⟩
  intro j hj
  rw [Prod.Lex.toLex_lt_toLex]
  rcases apart_of_increasing hinc (List.getElem?_eq_getElem hal) hrb with hday | ⟨hday, hidx⟩
  · exact Or.inl hday
  · refine Or.inr ⟨hday, ?_⟩
    calc (evaluated cols df)[a.toNat].2.i + j
        ≤ (evaluated cols df)[a.toNat].2.i + h := by omega
      _ < (evaluated cols df)[a.toNat].2.i + (h + 1 + n) := by omega
      _ ≤ (evaluated cols df)[b.toNat].2.i := hidx

/-- One bar a minute at one price, its quote beside it, on each of the first days of 2020. -/
def flatDay (d : Date) : Except PyErr (List (Int × Ohlcv) × List (Int × QuoteFeatures)) :=
  if 18262 ≤ d ∧ d < 18264 then
    .ok ((arange 0 6).map (fun t => (t * barSize, ⟨1, 1, 1, 1, some 1, 1, 1, 1, 0, some 1⟩)),
      (arange 0 6).map (fun t => (t * barSize, quoteFeatures ⟨1, 1, 1, 1⟩)))
  else .error .runtimeError

/-- The logarithm and the root at the only values constant prices give them. -/
def logOne (x : ℚ) : Option ℚ := if x = 1 then some 0 else none
def sqrtZero (x : ℚ) : Option ℚ := if x = 0 then some 0 else none

/-- The rows of two such days; the third day has none. -/
def flatRows : List (Date × FeatureRow) :=
  match loadFeatures (dayFeatures logOne sqrtZero flatDay 1 1 0) [18262, 18263, 18264] with
  | .ok df => df
  | .error _ => []

/-- Four rows a day: the fold tests on the second day and trains on three rows of the first. -/
theorem labels_before_tests_flatDays :
    ∃ x, featureMatrix (flatRows.map Prod.snd) defaultFeatures = .ok x ∧
      walkForwardSplits x.length 1 1 0 1 = .ok [([0, 1, 2], [4, 5, 6, 7])] ∧
      ∃ fs, (selected defaultFeatures).mapM featureColumn = some fs ∧
        ∀ f ∈ [(([0, 1, 2] : List Int), ([4, 5, 6, 7] : List Int))], ∀ a ∈ f.1, ∀ b ∈ f.2,
          ∃ ra rb, (evaluated defaultFeatures flatRows)[a.toNat]? = some ra ∧
            (evaluated defaultFeatures flatRows)[b.toNat]? = some rb ∧
            x[a.toNat]? = some (sampleOf fs ra.2) ∧ x[b.toNat]? = some (sampleOf fs rb.2) ∧
            ∀ j ≤ 1, toLex (ra.1, ra.2.i + j) < toLex (rb.1, rb.2.i) := by
  have hdf : loadFeatures (dayFeatures logOne sqrtZero flatDay 1 1 0) [18262, 18263, 18264]
      = .ok flatRows := by rfl
  have hx : featureMatrix (flatRows.map Prod.snd) defaultFeatures
      = .ok (List.replicate 8 ([0, 0, 1, 1, 0, 0, 1, 1], 0, 0)) := by decide +kernel
  have hsplits : walkForwardSplits 8 1 1 0 1 = .ok [([0, 1, 2], [4, 5, 6, 7])] := by
    decide +kernel
  exact ⟨_, hx, hsplits, labels_before_tests logOne sqrtZero flatDay [18262, 18263, 18264]
    (by decide) 1 1 0 defaultFeatures 1 0 1 flatRows hdf _ hx _ hsplits⟩

end NanoTick
