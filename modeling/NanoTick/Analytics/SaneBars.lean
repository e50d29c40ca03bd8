import NanoTick.Analytics.Rebucket
import NanoTick.Basic.Averages
import Mathlib.Tactic

set_option autoImplicit false

/-! # Sane bars

The bounds between the columns of a bar (`Ohlcv.Sane`) hold of the bar of any trades with positive
quantities, and of the bar that any sane bars merge to. So they hold at both levels, whatever the
widths. The four columns that are sums (`Totals`) are conserved by each aggregation.
-/

namespace NanoTick

open Aggregates Buckets Grouping

/-! ## Bounds -/

/-- What relates the columns of a bar. -/
structure Ohlcv.Sane (b : Ohlcv) : Prop where
  low_le_open : b.low ≤ b.open
  open_le_high : b.open ≤ b.high
  low_le_close : b.low ≤ b.close
  close_le_high : b.close ≤ b.high
  vwap : ∃ v, b.vwap = some v ∧ b.low ≤ v ∧ v ≤ b.high
  buyVol_nonneg : 0 ≤ b.buyVol
  sellVol_nonneg : 0 ≤ b.sellVol
  buyVol_add_sellVol : b.buyVol + b.sellVol = b.vol
  vol_pos : 0 < b.vol
  trades_pos : 1 ≤ b.trades
  imbalance : ∃ i, b.imbalance = some i ∧ -1 ≤ i ∧ i ≤ 1

theorem bit_nonneg (b : Bool) : 0 ≤ bit b := by
  cases b with
  | false => exact le_refl _
  | true => exact zero_le_one

theorem bit_not_add_bit (b : Bool) : bit (!b) + bit b = 1 := by
  cases b with
  | false => exact add_zero _
  | true => exact zero_add _

/-- **The bar of some trades** is sane. -/
theorem sane_ohlcv {t : List Trade} (ht : t ≠ []) (hqty : ∀ r ∈ t, 0 < r.qty) :
    (ohlcv t).Sane := by
  have hlow : ∀ r ∈ t, (ohlcv t).low ≤ r.price := fun r hr => minOf_le 0 Trade.price hr
  have hhigh : ∀ r ∈ t, r.price ≤ (ohlcv t).high := fun r hr => le_maxOf 0 Trade.price hr
  obtain ⟨a, ha, hopen⟩ : ∃ a ∈ t, (ohlcv t).open = a.price := exists_firstOf 0 Trade.price ht
  obtain ⟨z, hz, hclose⟩ : ∃ z ∈ t, (ohlcv t).close = z.price := exists_lastOf 0 Trade.price ht
  have hbuy : 0 ≤ (ohlcv t).buyVol :=
    sumOf_nonneg (fun r hr => mul_nonneg (hqty r hr).le (bit_nonneg _))
  have hsell : 0 ≤ (ohlcv t).sellVol :=
    sumOf_nonneg (fun r hr => mul_nonneg (hqty r hr).le (bit_nonneg _))
  have hvol : (ohlcv t).buyVol + (ohlcv t).sellVol = (ohlcv t).vol := by
    calc (ohlcv t).buyVol + (ohlcv t).sellVol
        = sumOf (fun r => r.qty * bit (!r.buyerMaker) + r.qty * bit r.buyerMaker) t :=
          (sumOf_add _ _ t).symm
      _ = sumOf Trade.qty t :=
          sumOf_congr (fun r _ => by rw [← mul_add, bit_not_add_bit, mul_one])
  have hpos : 0 < (ohlcv t).vol := sumOf_pos ht hqty
  have himb : (ohlcv t).imbalance
      = div ((ohlcv t).buyVol - (ohlcv t).sellVol) (ohlcv t).vol := by
    rw [buyVol_sub_sellVol]
    rfl
  exact {
    low_le_open := (hlow a ha).trans_eq hopen.symm
    open_le_high := hopen.trans_le (hhigh a ha)
    low_le_close := (hlow z hz).trans_eq hclose.symm
    close_le_high := hclose.trans_le (hhigh z hz)
    vwap := wavg_between ht hqty (fun r hr => ⟨r.price, rfl, hlow r hr, hhigh r hr⟩)
    buyVol_nonneg := hbuy
    sellVol_nonneg := hsell
    buyVol_add_sellVol := hvol
    vol_pos := hpos
    trades_pos := List.length_pos_iff.mpr ht
    imbalance := himb ▸ div_sub_between hbuy hsell hvol hpos }

/-- **Sane bars merge** to a sane bar. -/
theorem sane_rebucket {b : List Ohlcv} (hb : b ≠ []) (hsane : ∀ x ∈ b, x.Sane) :
    (rebucket b).Sane := by
  have hlow : ∀ x ∈ b, (rebucket b).low ≤ x.low := fun x hx => minOf_le 0 Ohlcv.low hx
  have hhigh : ∀ x ∈ b, x.high ≤ (rebucket b).high := fun x hx => le_maxOf 0 Ohlcv.high hx
  obtain ⟨a, ha, hopen⟩ : ∃ a ∈ b, (rebucket b).open = a.open := exists_firstOf 0 Ohlcv.open hb
  obtain ⟨z, hz, hclose⟩ : ∃ z ∈ b, (rebucket b).close = z.close := exists_lastOf 0 Ohlcv.close hb
  have hbuy : 0 ≤ (rebucket b).buyVol := sumOf_nonneg (fun x hx => (hsane x hx).buyVol_nonneg)
  have hsell : 0 ≤ (rebucket b).sellVol := sumOf_nonneg (fun x hx => (hsane x hx).sellVol_nonneg)
  have hvol : (rebucket b).buyVol + (rebucket b).sellVol = (rebucket b).vol := by
    calc (rebucket b).buyVol + (rebucket b).sellVol
        = sumOf (fun x => x.buyVol + x.sellVol) b := (sumOf_add _ _ b).symm
      _ = sumOf Ohlcv.vol b := sumOf_congr (fun x hx => (hsane x hx).buyVol_add_sellVol)
  have hpos : 0 < (rebucket b).vol := sumOf_pos hb (fun x hx => (hsane x hx).vol_pos)
  have hvwap : ∀ x ∈ b, ∃ v, x.vwap = some v ∧ (rebucket b).low ≤ v ∧ v ≤ (rebucket b).high := by
    intro x hx
    obtain ⟨v, hv, hle, hge⟩ := (hsane x hx).vwap
    exact ⟨v, hv, (hlow x hx).trans hle, hge.trans (hhigh x hx)⟩
  have htrades : a.trades ≤ (rebucket b).trades :=
    List.le_sum_of_mem (List.mem_map.mpr ⟨a, ha, rfl⟩)
  exact {
    low_le_open := ((hlow a ha).trans (hsane a ha).low_le_open).trans_eq hopen.symm
    open_le_high := hopen.trans_le ((hsane a ha).open_le_high.trans (hhigh a ha))
    low_le_close := ((hlow z hz).trans (hsane z hz).low_le_close).trans_eq hclose.symm
    close_le_high := hclose.trans_le ((hsane z hz).close_le_high.trans (hhigh z hz))
    vwap := wavg_between hb (fun x hx => (hsane x hx).vol_pos) hvwap
    buyVol_nonneg := hbuy
    sellVol_nonneg := hsell
    buyVol_add_sellVol := hvol
    vol_pos := hpos
    trades_pos := (hsane a ha).trades_pos.trans htrades
    imbalance := div_sub_between hbuy hsell hvol hpos }

/-- What holds of the aggregate of any non-empty part holds of every row of an aggregation. -/
theorem selectBy_forall {ρ β : Type} {key : ρ → Int} {agg : List ρ → β} {P : β → Prop}
    {t : List ρ} (h : ∀ g, g ≠ [] → (∀ r ∈ g, r ∈ t) → P (agg g)) :
    ∀ b ∈ selectBy key agg t, P b.2 := by
  intro b hb
  obtain ⟨g, hg, rfl⟩ := List.mem_map.mp hb
  refine h g.2 (groupOn_ne_nil hg) (fun r hr => ?_)
  rw [(mem_groupOn.mp hg).2] at hr
  exact (mem_groupAt.mp hr).1

theorem sane_barsOf {t : List Trade} (hqty : ∀ r ∈ t, 0 < r.qty) (sz : Int) :
    ∀ b ∈ barsOf t sz, b.2.Sane :=
  selectBy_forall (fun _ hne hsub => sane_ohlcv hne (fun r hr => hqty r (hsub r hr)))

theorem sane_rebucketBars {b : List BarRow} (hsane : ∀ x ∈ b, x.toOhlcv.Sane) (sz : Int) :
    ∀ x ∈ rebucketBars b sz, x.2.Sane := by
  refine selectBy_forall (P := Ohlcv.Sane) (fun g hne hsub => ?_)
  refine sane_rebucket (mt List.map_eq_nil_iff.mp hne) (fun x hx => ?_)
  obtain ⟨r, hr, rfl⟩ := List.mem_map.mp hx
  exact hsane r (hsub r hr)

/-- The stored bars of a symbol are sane. -/
theorem sane_buildBars {t : List Trade} (hqty : ∀ r ∈ t, 0 < r.qty) (w : Int) (s : Sym) :
    ∀ x ∈ (buildBars t w).filter (fun b => decide (b.sym = s)), x.toOhlcv.Sane := by
  intro x hx
  rw [filter_buildBars] at hx
  obtain ⟨b, hb, rfl⟩ := List.mem_map.mp hx
  exact sane_barsOf (fun r hr => hqty r (List.mem_filter.mp hr).1) w b hb

/-! ## Totals -/

/-- The four columns that are sums. -/
structure Totals where
  vol : ℚ
  buyVol : ℚ
  sellVol : ℚ
  trades : Nat
  deriving DecidableEq, Repr

/-- The totals of a table of trades. -/
def tableTotals (t : List Trade) : Totals where
  vol := sumOf (·.qty) t
  buyVol := sumOf (fun r => r.qty * bit (!r.buyerMaker)) t
  sellVol := sumOf (fun r => r.qty * bit r.buyerMaker) t
  trades := t.length

/-- The totals of a list of bars. -/
def barTotals (b : List Ohlcv) : Totals where
  vol := sumOf (·.vol) b
  buyVol := sumOf (·.buyVol) b
  sellVol := sumOf (·.sellVol) b
  trades := (b.map (·.trades)).sum

/-- The bars of some groups sum to the totals of their trades. -/
theorem barTotals_map_ohlcv (gs : List (List Trade)) :
    barTotals (gs.map ohlcv) = tableTotals gs.flatten := by
  unfold barTotals tableTotals
  rw [sumOf_map, sumOf_map, sumOf_map, ← sumOf_flatten, ← sumOf_flatten, ← sumOf_flatten,
    List.map_map, List.length_flatten]
  rfl

/-- Merging keeps the totals. -/
theorem barTotals_map_rebucket (gs : List (List Ohlcv)) :
    barTotals (gs.map rebucket) = barTotals gs.flatten := by
  have htrades : ((gs.map rebucket).map (·.trades)).sum = (gs.flatten.map (·.trades)).sum := by
    rw [List.map_flatten, List.sum_flatten, List.map_map, List.map_map]
    rfl
  unfold barTotals
  rw [sumOf_map, sumOf_map, sumOf_map, ← sumOf_flatten, ← sumOf_flatten, ← sumOf_flatten, htrades]
  rfl

theorem barTotals_barsOf {t : List Trade} (horder : TimeOrdered Trade.time t) {sz : Int}
    (hsz : 0 < sz) : barTotals ((barsOf t sz).map Prod.snd) = tableTotals t := by
  rw [barsOf, map_snd_selectBy, barTotals_map_ohlcv, flatten_baseGroups hsz horder]

theorem barTotals_rebucketBars {b : List BarRow} (horder : TimeOrdered BarRow.time b) {sz : Int}
    (hsz : 0 < sz) :
    barTotals ((rebucketBars b sz).map Prod.snd) = barTotals (b.map (·.toOhlcv)) := by
  have hgroups : (rebucketBars b sz).map Prod.snd
      = ((baseGroups BarRow.time sz b).map (List.map (·.toOhlcv))).map rebucket := by
    rw [rebucketBars, map_snd_selectBy, List.map_map]
    rfl
  rw [hgroups, barTotals_map_rebucket, ← List.map_flatten, flatten_baseGroups hsz horder]

/-- The stored bars of a symbol are in time order. -/
theorem timeOrdered_buildBars (t : List Trade) (w : Int) (s : Sym) :
    TimeOrdered BarRow.time ((buildBars t w).filter (fun b => decide (b.sym = s))) := by
  rw [filter_buildBars, selectBy_eq_map_keysOf, List.map_map]
  exact List.pairwise_map.mpr ((keysOf_pairwise _ _).imp le_of_lt)

/-- The stored bars of a symbol have the totals of its trades. -/
theorem barTotals_buildBars {t : List Trade} {s : Sym}
    (horder : TimeOrdered Trade.time (t.filter (fun r => decide (r.sym = s)))) {w : Int}
    (hw : 0 < w) :
    barTotals (((buildBars t w).filter (fun b => decide (b.sym = s))).map (·.toOhlcv))
      = tableTotals (t.filter (fun r => decide (r.sym = s))) := by
  rw [filter_buildBars, List.map_map]
  exact barTotals_barsOf horder hw

/-! ## One bar for every trade -/

theorem countP_barsOf {t : List Trade} {sz : Int} (hsz : 0 < sz) {r : Trade} (hr : r ∈ t) :
    (barsOf t sz).countP (fun b => decide (b.1 ≤ r.time ∧ r.time < b.1 + sz)) = 1 := by
  have hkey : xbar sz r.time ∈ keysOf (fun a : Trade => xbar sz a.time) t :=
    mem_keysOf.mpr ⟨r, hr, rfl⟩
  calc (barsOf t sz).countP (fun b => decide (b.1 ≤ r.time ∧ r.time < b.1 + sz))
      = (keysOf (fun a : Trade => xbar sz a.time) t).countP
          (fun k => decide (k ≤ r.time ∧ r.time < k + sz)) := by
        rw [barsOf, ← map_fst_selectBy _ ohlcv, List.countP_map]
        rfl
    _ = (keysOf (fun a : Trade => xbar sz a.time) t).countP (· == xbar sz r.time) := by
        refine List.countP_congr (fun k hk => ?_)
        obtain ⟨a, -, rfl⟩ := mem_keysOf.mp hk
        rw [decide_eq_true_eq, beq_iff_eq]
        exact mem_bucket_iff hsz r.time a.time
    _ = 1 := List.count_eq_one_of_mem (keysOf_pairwise _ _).nodup hkey

/-- **Bars are sane and conserve volume.** For trades in time order with positive quantities, at
any width: every bar is sane, the bars have the totals of the table, and every trade falls in
exactly one of them. The stored bars of a symbol, of any width, merged to any width, are sane and
have the totals of its trades. -/
theorem bars_sane (t : List Trade) (horder : TimeOrdered Trade.time t)
    (hqty : ∀ r ∈ t, 0 < r.qty) (sz : Int) (hsz : 0 < sz) :
    (∀ b ∈ barsOf t sz, b.2.Sane)
      ∧ barTotals ((barsOf t sz).map Prod.snd) = tableTotals t
      ∧ (∀ r ∈ t,
          (barsOf t sz).countP (fun b => decide (b.1 ≤ r.time ∧ r.time < b.1 + sz)) = 1)
      ∧ ∀ (s : Sym) (w : Int), 0 < w →
          (∀ b ∈ rebucketBars ((buildBars t w).filter (fun b => decide (b.sym = s))) sz, b.2.Sane)
          ∧ barTotals ((rebucketBars ((buildBars t w).filter (fun b => decide (b.sym = s)))
              sz).map Prod.snd) = tableTotals (t.filter (fun r => decide (r.sym = s))) := by
  refine ⟨sane_barsOf hqty sz, barTotals_barsOf horder hsz, fun r hr => countP_barsOf hsz hr,
    fun s w hw => ⟨sane_rebucketBars (sane_buildBars hqty w s) sz, ?_⟩⟩
  rw [barTotals_rebucketBars (timeOrdered_buildBars t w s) hsz]
  exact barTotals_buildBars (horder.bySym s) hw

/-- A buy and a sell in different minutes. -/
theorem bars_sane_two :
    let t : List Trade := [⟨0, "BTCUSDT", "binance", 1, 100, 1, 0, false⟩,
      ⟨60000000000, "BTCUSDT", "binance", 2, 103, 2, 60000000000, true⟩]
    (∀ b ∈ barsOf t barSize, b.2.Sane)
      ∧ barTotals ((barsOf t barSize).map Prod.snd) = ⟨3, 1, 2, 2⟩
      ∧ ∀ b ∈ rebucketBars ((buildBars t barSize).filter (fun b => decide (b.sym = "BTCUSDT")))
          barSize, b.2.Sane := by
  intro t
  obtain ⟨hsane, htotals, -, hmerged⟩ := bars_sane t (by unfold TimeOrdered; decide)
    (by intro r hr; revert r; decide +kernel) barSize barSize_pos
  exact ⟨hsane, htotals.trans (by decide +kernel), (hmerged "BTCUSDT" barSize barSize_pos).1⟩

end NanoTick
