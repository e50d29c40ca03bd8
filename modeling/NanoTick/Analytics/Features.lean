import NanoTick.Analytics.Bars
import Mathlib.Tactic

set_option autoImplicit false

/-! # Feature tables

`featuresOf` (`platform/analytics.q`) joins trade bars with quote bars and adds trailing
features and a forward-return label. Columns are lists as long as the joined table; a null is
`none`, and arithmetic on a null is null. `log` and `sqrt` are parameters.
-/

namespace NanoTick

open Aggregates Python

/-! ## Columns with nulls -/

/-- `x % y` with nulls. -/
def ratio (x y : Option ℚ) : Option ℚ := x.bind (fun a => y.bind (fun b => div a b))

/-- `prev`: the column one row down, starting with a null. -/
def prev (l : List (Option ℚ)) : List (Option ℚ) := (none :: l).take l.length

/-- The last `w` entries up to row `i`. -/
def window {α : Type} (w : Nat) (l : List α) (i : Nat) : List α :=
  (l.take (i + 1)).drop (i + 1 - w)

/-- The mean of the entries that are not null. -/
def meanOf (l : List (Option ℚ)) : Option ℚ :=
  div ((l.filterMap id).sum) ((l.filterMap id).length : ℚ)

/-- `w mavg l`: the mean of each trailing window, nulls left out. -/
def mavg (w : Nat) (l : List (Option ℚ)) : List (Option ℚ) :=
  (List.range l.length).map (fun i => meanOf (window w l i))

/-- `w mdev l`: the standard deviation of each trailing window, nulls left out. -/
def mdev (sqrt : ℚ → Option ℚ) (w : Nat) (l : List (Option ℚ)) : List (Option ℚ) :=
  List.zipWith (fun s m => s.bind (fun s => m.bind (fun m => sqrt (s - m * m))))
    (mavg w (l.map (fun y => y.map (fun y => y * y)))) (mavg w l)

/-- `x > c`: a null is smaller than every number. -/
def above (x : Option ℚ) (c : ℚ) : Bool :=
  match x with
  | some x => decide (c < x)
  | none => false

/-- `x < c`: a null is smaller than every number. -/
def below (x : Option ℚ) (c : ℚ) : Bool :=
  match x with
  | some x => decide (x < c)
  | none => true

/-- `(start; len) sublist l`: nothing for a negative length. -/
def sublist {α : Type} (start : Nat) (len : Int) (l : List α) : List α :=
  (l.drop start).take len.toNat

/-! ## `featuresOf` -/

/-- A row of a feature table. `i` is the row number in the joined table before rows are
dropped, which is the number of the bar in its day's table. -/
structure FeatureRow extends Ohlcv where
  i : Nat
  bar : Int
  quote : Option QuoteFeatures
  ret : Option ℚ
  rvol : Option ℚ
  imbAvg : Option ℚ
  fwdRet : Option ℚ
  label : Int
  deriving DecidableEq, Repr

/-- `tb lj qb`: every trade bar with the quote bar of its bucket, if there is one. -/
def lj (tb : List (Int × Ohlcv)) (qb : List (Int × QuoteFeatures)) :
    List (Int × Ohlcv × Option QuoteFeatures) :=
  tb.map (fun b => (b.1, b.2, qb.lookup b.1))

/-- `featuresOf`, for the functions `log` and `sqrt` of q. A horizon beyond the table gives
columns of different lengths, an error. -/
def featuresOf (log sqrt : ℚ → Option ℚ) (tb : List (Int × Ohlcv))
    (qb : List (Int × QuoteFeatures)) (h w : Nat) (cost : ℚ) : Except PyErr (List FeatureRow) :=
  let b := lj tb qb
  let m := b.map (fun r => r.2.2.map (·.mid))
  let close := b.map (fun r => some r.2.1.close)
  let ret := List.zipWith (fun c p => (ratio c p).bind log) close (prev close)
  let rvol := mdev sqrt w ret
  let imbAvg := mavg w (b.map (fun r => r.2.1.imbalance))
  -- `(h _ m),h#0n`: longer than `m` when the table has fewer than `h` bars
  let ahead := m.drop h ++ List.replicate h none
  if ahead.length ≠ m.length then .error .runtimeError
  else
    let fwdRet := List.zipWith (fun f c => (ratio f c).bind log) ahead m
    let rows := b.mapIdx (fun i r =>
      { r.2.1 with
        i := i
        bar := r.1
        quote := r.2.2
        ret := ret.getD i none
        rvol := rvol.getD i none
        imbAvg := imbAvg.getD i none
        fwdRet := fwdRet.getD i none
        label := (if above (fwdRet.getD i none) cost then 1 else 0)
          - (if below (fwdRet.getD i none) (-cost) then 1 else 0) : FeatureRow })
    -- the warm-up head and the unlabelled tail go
    .ok (sublist w ((b.length : Int) - w - h) rows)

/-- The rows kept are numbered upwards. -/
theorem featuresOf_increasing {log sqrt : ℚ → Option ℚ} {tb : List (Int × Ohlcv)}
    {qb : List (Int × QuoteFeatures)} {h w : Nat} {cost : ℚ} {rows : List FeatureRow}
    (hrows : featuresOf log sqrt tb qb h w cost = .ok rows) :
    rows.Pairwise (fun a b => a.i < b.i) := by
  unfold featuresOf at hrows
  dsimp only at hrows
  split at hrows
  · cases hrows
  · cases hrows
    refine List.Pairwise.sublist ((List.take_sublist _ _).trans (List.drop_sublist _ _)) ?_
    rw [List.pairwise_iff_getElem]
    intro i j hi hj hij
    rw [List.getElem_mapIdx, List.getElem_mapIdx]
    exact hij

end NanoTick
