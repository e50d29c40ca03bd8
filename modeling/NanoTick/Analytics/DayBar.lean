import NanoTick.Analytics.FastPath
import Mathlib.Tactic

set_option autoImplicit false

/-! # The bar of a day

`vwapDay` and `counts` scan the trades of a day, `bars` reads the stored bars or scans. Whatever
the width and whichever of the two, the bars of a day merge in exact arithmetic to one bar, that of
all its trades: its vwap is `vwapDay`, its number of trades is the one of `counts` (`dayBar`).
-/

namespace NanoTick

open Aggregates Buckets Grouping

/-- `vwapDay`. -/
def vwapDay (hdb : Hdb) (s : Sym) (d : Date) : Option ℚ :=
  wavg (·.qty) (fun r => some r.price) (rowsOf Trade.sym hdb.trade s d)

/-- `counts`: the dates with trades of the symbol, each with their number. -/
def counts (hdb : Hdb) (s : Sym) : List (Date × Nat) :=
  ((hdb.trade.keys.sort (· ≤ ·)).map
    (fun d => (d, (rowsOf Trade.sym hdb.trade s d).length))).filter (fun e => decide (0 < e.2))

theorem mem_counts {hdb : Hdb} {s : Sym} {d : Date} {n : Nat} :
    (d, n) ∈ counts hdb s ↔ n = (rowsOf Trade.sym hdb.trade s d).length ∧ 0 < n := by
  rw [counts, List.mem_filter, List.mem_map, decide_eq_true_eq]
  constructor
  · rintro ⟨⟨d', -, h⟩, hpos⟩
    obtain ⟨rfl, rfl⟩ := Prod.mk.inj h
    exact ⟨rfl, hpos⟩
  · rintro ⟨rfl, hpos⟩
    refine ⟨⟨d, ?_, rfl⟩, hpos⟩
    rw [Finset.mem_sort, Finmap.mem_keys]
    by_contra hd
    rw [rowsOf, Parts.rowsAt_of_notMem hd] at hpos
    exact absurd hpos (lt_irrefl 0)

/-- The dates ascend. -/
theorem counts_ascending (hdb : Hdb) (s : Sym) :
    (counts hdb s).Pairwise (fun a b => a.1 < b.1) := by
  refine List.Pairwise.filter _ (List.pairwise_map.mpr ?_)
  exact (Finset.sortedLT_sort hdb.trade.keys).pairwise

/-! ## What a day holds of a symbol -/

/-- The stored rows of a symbol are those inserted, in time order. -/
theorem filter_storedRows_eq_sortOn {ρ : Type} (time : ρ → Int) (sym : ρ → Sym) (l : List ρ)
    (s : Sym) : (storedRows time sym l).filter (fun r => decide (sym r = s))
      = sortOn time (l.filter (fun r => decide (sym r = s))) := by
  rw [storedRows, filter_eq_sortOn, filter_sortOn]

/-- They are the rows inserted when those are in time order. -/
theorem filter_storedRows_bySym {ρ : Type} {time : ρ → Int} {sym : ρ → Sym} {t : List ρ}
    (ht : TimeOrderedBySym time sym t) (s : Sym) :
    (storedRows time sym t).filter (fun r => decide (sym r = s))
      = t.filter (fun r => decide (sym r = s)) := by
  rw [filter_storedRows_eq_sortOn]
  exact sortOn_of_pairwise (ht s)

section

variable {hdb : Hdb} {d : Date} {t : List Trade} {q : List Quote}

theorem rowsOf_trade (h : hdb.WrittenFrom d t q) (ht : TimeOrderedBySym Trade.time Trade.sym t)
    (s : Sym) : rowsOf Trade.sym hdb.trade s d = t.filter (fun r => decide (r.sym = s)) := by
  rw [rowsOf, h.trade, filter_storedRows_bySym ht]

/-- The bars that are read, for rows in time order within each symbol. -/
theorem bars_bySym (h : hdb.WrittenFrom d t q) (ht : TimeOrderedBySym Trade.time Trade.sym t)
    (s : Sym) (sz : Int) : bars hdb s d sz
      = rebucketBars ((buildBars t barSize).filter (fun b => decide (b.sym = s))) sz := by
  have hrows : rowsOf BarRow.sym hdb.bar s d
      = (buildBars t barSize).filter (fun b => decide (b.sym = s)) := by
    rw [rowsOf, h.bar, filter_eq_sortOn]
  rw [← hrows]
  refine preferStored_eq (fun hnil => ?_)
  have hmerged := rebucketBars_buildBars t barSize sz s
  rw [← hrows, hnil] at hmerged
  have hts : t.filter (fun r => decide (r.sym = s)) = [] := selectBy_eq_nil.mp hmerged.symm
  rw [barsFromTrades, rowsOf_trade h ht, hnil, hts]
  rfl

/-! ## Merging all of them -/

/-- **The bars of some groups** of trades with quantities merge to one bar. -/
theorem rebucket_groups {gs : List (List Trade)} (hgs : ∀ g ∈ gs, g ≠ [])
    (hqty : ∀ r ∈ gs.flatten, 0 ≤ r.qty) : rebucket (gs.map ohlcv) = ohlcv gs.flatten := by
  cases gs with
  | nil => rfl
  | cons g gs =>
      exact (rebucket_map_ohlcv (List.cons_ne_nil g gs) hgs).mpr (Or.inr (weightless_eq_zero hqty))

/-- Bars by any key that ascends with time merge to the bar of the table. -/
theorem rebucket_selectBy {key : Trade → Int} {ts : List Trade}
    (hkey : ts.Pairwise (fun a b => key a ≤ key b)) (hqty : ∀ r ∈ ts, 0 ≤ r.qty) :
    rebucket ((selectBy key ohlcv ts).map Prod.snd) = ohlcv ts := by
  have hflat : ((groupOn key ts).map Prod.snd).flatten = ts := flatten_groupOn hkey
  have hbars : (selectBy key ohlcv ts).map Prod.snd
      = ((groupOn key ts).map Prod.snd).map ohlcv := by
    rw [selectBy, List.map_map, List.map_map]
    rfl
  have hne : ∀ g ∈ (groupOn key ts).map Prod.snd, g ≠ [] := by
    intro g hg
    obtain ⟨e, he, rfl⟩ := List.mem_map.mp hg
    exact groupOn_ne_nil he
  rw [hbars, rebucket_groups hne (by rwa [hflat]), hflat]

/-- Scanned bars of any width. -/
theorem rebucket_barsOf {ts : List Trade} (ht : TimeOrdered Trade.time ts)
    (hqty : ∀ r ∈ ts, 0 ≤ r.qty) {sz : Int} (hsz : 0 < sz) :
    rebucket ((barsOf ts sz).map Prod.snd) = ohlcv ts :=
  rebucket_selectBy (ht.imp (fun h => xbar_mono hsz h)) hqty

/-- Stored bars, merged to any width. -/
theorem rebucket_rebucketBars {s : Sym}
    (ht : TimeOrdered Trade.time (t.filter (fun r => decide (r.sym = s))))
    (hqty : ∀ r ∈ t, 0 ≤ r.qty) {sz : Int} (hsz : 0 < sz) :
    rebucket ((rebucketBars ((buildBars t barSize).filter (fun b => decide (b.sym = s))) sz).map
      Prod.snd) = ohlcv (t.filter (fun r => decide (r.sym = s))) := by
  have hts : ∀ r ∈ t.filter (fun r => decide (r.sym = s)), 0 ≤ r.qty :=
    fun r hr => hqty r (List.mem_filter.mp hr).1
  rw [rebucketBars_buildBars]
  generalize t.filter (fun r => decide (r.sym = s)) = ts at ht hts ⊢
  have hgroups : selectBy (storedBucket Trade.time sz)
        (fun m => rebucket ((baseGroups Trade.time barSize m).map ohlcv)) ts
      = selectBy (storedBucket Trade.time sz) ohlcv ts := by
    refine selectBy_eq_iff.mpr ⟨rfl, fun k _ => ?_⟩
    have hflat := flatten_baseGroups barSize_pos (ht.groupAt (storedBucket Trade.time sz) k)
    rw [rebucket_groups (fun g hg => baseGroups_ne_nil hg), hflat]
    rw [hflat]
    exact fun r hr => hts r (mem_groupAt.mp hr).1
  rw [show selectBy (fun r : Trade => xbar sz (xbar barSize r.time)) _ ts = _ from hgroups]
  exact rebucket_selectBy (ht.imp (fun h => xbar_mono hsz (xbar_mono barSize_pos h))) hts

/-- **The bar of a day.** For rows in time order within each symbol, with quantities that are not
negative: the bars of any width, stored or scanned, merge to the bar of the day's trades, whose
vwap is `vwapDay` and whose number of trades is the one `counts` has for the day, if any. -/
theorem dayBar (hday : hdb.WrittenFrom d t q) (ht : TimeOrderedBySym Trade.time Trade.sym t)
    (hqty : ∀ r ∈ t, 0 ≤ r.qty) (s : Sym) (sz : Int) (hsz : 0 < sz) :
    ∃ day : Ohlcv, rebucket ((bars hdb s d sz).map Prod.snd) = day
      ∧ rebucket ((bars hdb.withoutBars s d sz).map Prod.snd) = day
      ∧ day = ohlcv (t.filter (fun r => decide (r.sym = s)))
      ∧ vwapDay hdb s d = day.vwap
      ∧ ∀ n, (d, n) ∈ counts hdb s ↔ n = day.trades ∧ 0 < n := by
  have hts : ∀ r ∈ t.filter (fun r => decide (r.sym = s)), 0 ≤ r.qty :=
    fun r hr => hqty r (List.mem_filter.mp hr).1
  have hscan : bars hdb.withoutBars s d sz
      = barsOf (t.filter (fun r => decide (r.sym = s))) sz := by
    show barsOf (rowsOf Trade.sym hdb.trade s d) sz = _
    rw [rowsOf_trade hday ht]
  refine ⟨ohlcv (t.filter (fun r => decide (r.sym = s))), ?_, ?_, rfl, ?_, fun n => ?_⟩
  · rw [bars_bySym hday ht]
    exact rebucket_rebucketBars (ht s) hqty hsz
  · rw [hscan]
    exact rebucket_barsOf (ht s) hts hsz
  · rw [vwapDay, rowsOf_trade hday ht]
    rfl
  · rw [mem_counts, rowsOf_trade hday ht]
    rfl

end

/-- Trades of two symbols, inserted one symbol after the other. -/
def twoSymbols : HdbWriter :=
  ⟨[⟨30000000000, "BTCUSDT", "binance", 1, 100, 1, 30000000000, false⟩,
      ⟨100000000000, "BTCUSDT", "binance", 2, 103, 2, 100000000000, true⟩,
      ⟨10000000000, "ETHUSDT", "binance", 1, 10, 1, 10000000000, false⟩],
    [], Hdb.empty⟩

theorem dayBar_twoSymbols :
    ∃ day : Ohlcv,
      rebucket ((bars (twoSymbols.savedown 10957).hdb "BTCUSDT" 10957 90000000000).map Prod.snd)
        = day
      ∧ vwapDay (twoSymbols.savedown 10957).hdb "BTCUSDT" 10957 = some 102
      ∧ day.vwap = some 102 ∧ (10957, 2) ∈ counts (twoSymbols.savedown 10957).hdb "BTCUSDT" := by
  have hday := writtenFrom_savedown twoSymbols 10957 rfl rfl rfl rfl
  have horder : TimeOrderedBySym Trade.time Trade.sym twoSymbols.trade := by
    intro s
    by_cases hbtc : "BTCUSDT" = s
    · subst hbtc
      unfold TimeOrdered
      decide
    · have hrest : twoSymbols.trade.filter (fun r => decide (r.sym = s))
          = [⟨10000000000, "ETHUSDT", "binance", 1, 10, 1, 10000000000, false⟩].filter
            (fun r => decide (r.sym = s)) := by
        simp [twoSymbols, hbtc]
      rw [hrest]
      exact (List.pairwise_singleton _ _).filter _
  obtain ⟨day, hbars, -, hbar, hvwap, hcounts⟩ :=
    dayBar hday horder (by decide +kernel) "BTCUSDT" 90000000000 (by decide)
  have hvalues : (day.vwap, day.trades) = (some 102, 2) := by
    rw [hbar]
    decide +kernel
  obtain ⟨hvalue, htrades⟩ := Prod.mk.inj hvalues
  exact ⟨day, hbars, hvwap.trans hvalue, hvalue, (hcounts 2).mpr ⟨htrades.symm, by decide⟩⟩

end NanoTick
