import NanoTick.Analytics.Bars
import Mathlib.Tactic

set_option autoImplicit false

/-! # Rebucketing stored bars

Merging the bars of a list of groups gives the bar of their concatenation
(`rebucket_map_ohlcv`): each column has its two-level law. Only `vwap` needs a condition, and
positive quantities meet it. With bucket nesting this makes rebucketing exact at every whole
multiple of the stored width (`rebucketBars_eq_barsOf`).
-/

namespace NanoTick

open Aggregates Buckets Grouping

/-- The turnover of the base groups whose quantities sum to zero. -/
def weightlessTurnover (gs : List (List Trade)) : ℚ :=
  weightless Trade.qty Trade.price gs

/-- The signed volume, column by column and trade by trade. -/
theorem buyVol_sub_sellVol (t : List Trade) :
    (ohlcv t).buyVol - (ohlcv t).sellVol
      = sumOf (fun r => r.qty * (1 - 2 * bit r.buyerMaker)) t := by
  induction t with
  | nil => exact sub_zero _
  | cons a t ih =>
      have hsign : a.qty * bit (!a.buyerMaker) - a.qty * bit a.buyerMaker
          = a.qty * (1 - 2 * bit a.buyerMaker) := by
        cases a.buyerMaker with
        | false => simp [bit]
        | true =>
            simp only [bit, if_true, Bool.not_true, Bool.false_eq_true, if_false]
            ring
      have hcons : ∀ f : Trade → ℚ, sumOf f (a :: t) = f a + sumOf f t := fun _ => List.sum_cons
      calc (ohlcv (a :: t)).buyVol - (ohlcv (a :: t)).sellVol
          = (a.qty * bit (!a.buyerMaker) + (ohlcv t).buyVol)
            - (a.qty * bit a.buyerMaker + (ohlcv t).sellVol) :=
            congrArg₂ (· - ·) (hcons (fun r => r.qty * bit (!r.buyerMaker)))
              (hcons (fun r => r.qty * bit r.buyerMaker))
        _ = a.qty * (1 - 2 * bit a.buyerMaker) + ((ohlcv t).buyVol - (ohlcv t).sellVol) := by
            rw [← hsign]
            ring
        _ = sumOf (fun r => r.qty * (1 - 2 * bit r.buyerMaker)) (a :: t) := by
            rw [ih, hcons]

/-- **Merging bars.** The bars of non-empty groups merge to the bar of the concatenation,
unless its average price exists and groups without volume have turnover. -/
theorem rebucket_map_ohlcv {gs : List (List Trade)} (hne : gs ≠ []) (hgs : ∀ g ∈ gs, g ≠ []) :
    rebucket (gs.map ohlcv) = ohlcv gs.flatten
      ↔ sumOf Trade.qty gs.flatten = 0 ∨ weightlessTurnover gs = 0 := by
  have hopen : (rebucket (gs.map ohlcv)).open = (ohlcv gs.flatten).open := by
    calc firstOf 0 (·.open) (gs.map ohlcv)
        = firstOf 0 (firstOf 0 Trade.price) gs := firstOf_map _ _ _ _
      _ = firstOf 0 Trade.price gs.flatten := firstOf_flatten _ _ hgs
  have hhigh : (rebucket (gs.map ohlcv)).high = (ohlcv gs.flatten).high := by
    calc maxOf 0 (·.high) (gs.map ohlcv)
        = maxOf 0 (maxOf 0 Trade.price) gs := maxOf_map _ _ _ _
      _ = maxOf 0 Trade.price gs.flatten := maxOf_flatten _ _ hne hgs
  have hlow : (rebucket (gs.map ohlcv)).low = (ohlcv gs.flatten).low := by
    calc minOf 0 (·.low) (gs.map ohlcv)
        = minOf 0 (minOf 0 Trade.price) gs := minOf_map _ _ _ _
      _ = minOf 0 Trade.price gs.flatten := minOf_flatten _ _ hne hgs
  have hclose : (rebucket (gs.map ohlcv)).close = (ohlcv gs.flatten).close := by
    calc lastOf 0 (·.close) (gs.map ohlcv)
        = lastOf 0 (lastOf 0 Trade.price) gs := lastOf_map _ _ _ _
      _ = lastOf 0 Trade.price gs.flatten := lastOf_flatten _ _ hgs
  -- every summed column is the sum of one column of the trades
  have hsum : ∀ (col : Ohlcv → ℚ) (f : Trade → ℚ), (∀ t, col (ohlcv t) = sumOf f t) →
      sumOf col (gs.map ohlcv) = sumOf f gs.flatten := by
    intro col f hcol
    calc sumOf col (gs.map ohlcv)
        = sumOf (fun g => col (ohlcv g)) gs := sumOf_map _ _ _
      _ = sumOf (sumOf f) gs := congrArg (sumOf · gs) (funext hcol)
      _ = sumOf f gs.flatten := sumOf_flatten _ _
  have hvol : (rebucket (gs.map ohlcv)).vol = (ohlcv gs.flatten).vol :=
    hsum _ _ (fun _ => rfl)
  have hbuy : (rebucket (gs.map ohlcv)).buyVol = (ohlcv gs.flatten).buyVol :=
    hsum _ _ (fun _ => rfl)
  have hsell : (rebucket (gs.map ohlcv)).sellVol = (ohlcv gs.flatten).sellVol :=
    hsum _ _ (fun _ => rfl)
  have htrades : (rebucket (gs.map ohlcv)).trades = (ohlcv gs.flatten).trades := by
    calc ((gs.map ohlcv).map (·.trades)).sum
        = (gs.map List.length).sum := by rw [List.map_map]; rfl
      _ = gs.flatten.length := (List.length_flatten).symm
  have himb : (rebucket (gs.map ohlcv)).imbalance = (ohlcv gs.flatten).imbalance := by
    calc (rebucket (gs.map ohlcv)).imbalance
        = div ((rebucket (gs.map ohlcv)).buyVol - (rebucket (gs.map ohlcv)).sellVol)
            (rebucket (gs.map ohlcv)).vol := rfl
      _ = (ohlcv gs.flatten).imbalance := by
          rw [hbuy, hsell, hvol, buyVol_sub_sellVol]
          rfl
  have hvwap : (rebucket (gs.map ohlcv)).vwap = (ohlcv gs.flatten).vwap
      ↔ sumOf Trade.qty gs.flatten = 0 ∨ weightlessTurnover gs = 0 := by
    have hmap : (rebucket (gs.map ohlcv)).vwap
        = wavg (sumOf Trade.qty) (wavg Trade.qty (fun r => some r.price)) gs := wavg_map _ _ _ _
    rw [hmap]
    exact wavg_flatten_iff
  rw [← hvwap]
  constructor
  · intro h
    rw [h]
  · intro h
    cases hr : rebucket (gs.map ohlcv)
    cases ho : ohlcv gs.flatten
    simp only [hr, ho] at hopen hhigh hlow hclose h hvol htrades hbuy hsell himb
    rw [hopen, hhigh, hlow, hclose, h, hvol, htrades, hbuy, hsell, himb]

/-- The base groups of one bucket: none empty, and some. -/
theorem baseGroups_groupAt {t : List Trade} {w : Int} {k : Int} {key : Trade → Int}
    (hk : k ∈ keysOf key t) : baseGroups Trade.time w (groupAt key t k) ≠ [] := by
  obtain ⟨a, ha, hka⟩ := mem_keysOf.mp hk
  have hkey : xbar w a.time ∈ keysOf (fun r : Trade => xbar w r.time) (groupAt key t k) :=
    mem_keysOf.mpr ⟨a, mem_groupAt.mpr ⟨ha, hka⟩, rfl⟩
  have hmem : (xbar w a.time, groupAt (fun r : Trade => xbar w r.time) (groupAt key t k)
      (xbar w a.time)) ∈ groupOn (fun r : Trade => xbar w r.time) (groupAt key t k) :=
    mem_groupOn.mpr ⟨hkey, rfl⟩
  exact List.ne_nil_of_mem (List.mem_map.mpr ⟨_, hmem, rfl⟩)

theorem TimeOrdered.groupAt {ρ : Type} {time : ρ → Int} {t : List ρ} (h : TimeOrdered time t)
    (key : ρ → Int) (k : Int) : TimeOrdered time (groupAt key t k) := h.filter _

/-- **Rebucketing is exact.** For a table in time order within each symbol, with positive
quantities, the stored one-minute bars of a symbol merged to `k` minutes are its `k`-minute
bars. -/
theorem rebucketBars_eq_barsOf (t : List Trade) (horder : TimeOrderedBySym Trade.time Trade.sym t)
    (hqty : ∀ r ∈ t, 0 < r.qty) (s : Sym) (k : Int) :
    rebucketBars ((buildBars t barSize).filter (fun b => decide (b.sym = s))) (k * barSize)
      = barsOf (t.filter (fun r => decide (r.sym = s))) (k * barSize) := by
  have hkey : ∀ r : Trade, xbar (k * barSize) (xbar barSize r.time) = xbar (k * barSize) r.time :=
    fun r => xbar_mul_xbar barSize_pos k r.time
  rw [rebucketBars_buildBars, barsOf]
  simp only [hkey]
  refine selectBy_eq_iff.mpr ⟨rfl, fun b hb => ?_⟩
  have hord := (horder s).groupAt (fun r => xbar (k * barSize) r.time) b
  have hflat := flatten_baseGroups barSize_pos hord
  have hmerge := rebucket_map_ohlcv (baseGroups_groupAt (w := barSize) hb)
    (fun g hg => baseGroups_ne_nil hg)
  rw [hflat] at hmerge
  refine hmerge.mpr (Or.inr (weightless_eq_zero (fun a ha => ?_)))
  rw [hflat] at ha
  have hat : a ∈ t := (List.mem_filter.mp (mem_groupAt.mp ha).1).1
  exact (hqty a hat).le

/-- One buy and one sell in different minutes, merged to one two-minute bar. -/
theorem rebucketBars_two_minutes :
    rebucketBars ((buildBars
        [⟨0, "BTCUSDT", "binance", 1, 100, 1, 0, false⟩,
          ⟨60000000000, "BTCUSDT", "binance", 2, 103, 2, 60000000000, true⟩] barSize).filter
        (fun b => decide (b.sym = "BTCUSDT"))) (2 * barSize)
      = [(0, ⟨100, 103, 100, 103, some 102, 3, 2, 1, 2, some (-1 / 3)⟩)] := by
  rw [rebucketBars_eq_barsOf _ (TimeOrdered.bySym (by unfold TimeOrdered; decide))
    (by intro r hr; revert r; decide +kernel) "BTCUSDT" 2]
  decide +kernel

end NanoTick
