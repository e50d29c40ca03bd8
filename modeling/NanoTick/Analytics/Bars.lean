import NanoTick.Store.Schema
import Mathlib.Tactic

set_option autoImplicit false

/-! # Bars: from rows and from stored bars

The reader (`platform/analytics.q`) forms bars of any width in two ways: `barsOf` and
`quoteBarsOf` from the raw rows, `rebucketBars` and `rebucketQuoteBars` from the bars stored
at savedown. `bars` and `quoteBars` choose between them.

The result of the section `Two levels` is how the second way groups: it puts a row into the
bucket of its stored bar's start, not of its own time (`rebucketBars_buildBars`,
`rebucketQuoteBars_buildQuoteBars`).
-/

namespace NanoTick

open Aggregates Buckets Grouping

/-! ## Trade bars -/

/-- `barsOf`: bars of width `sz`, keyed by bucket. -/
def barsOf (t : List Trade) (sz : Int) : List (Int × Ohlcv) :=
  selectBy (fun r => xbar sz r.time) ohlcv t

/-- The columns `rebucketBars` selects from the bars of one group. -/
def rebucket (b : List Ohlcv) : Ohlcv where
  «open» := firstOf 0 (·.open) b
  high := maxOf 0 (·.high) b
  low := minOf 0 (·.low) b
  close := lastOf 0 (·.close) b
  vwap := wavg (·.vol) (·.vwap) b
  vol := sumOf (·.vol) b
  trades := (b.map (·.trades)).sum
  buyVol := sumOf (·.buyVol) b
  sellVol := sumOf (·.sellVol) b
  imbalance := div (sumOf (·.buyVol) b - sumOf (·.sellVol) b) (sumOf (·.vol) b)

/-- `rebucketBars`: stored bars merged into buckets of width `sz`. -/
def rebucketBars (b : List BarRow) (sz : Int) : List (Int × Ohlcv) :=
  selectBy (fun r => xbar sz r.time) (fun g => rebucket (g.map (·.toOhlcv))) b

/-- Whether a table is there to be read: some partition holds it (`tables[]`). -/
def hasTable {ρ : Type} (p : Parts Date ρ) : Bool := decide p.keys.Nonempty

/-- `select from … where date=d, sym=s`. -/
def rowsOf {ρ : Type} (sym : ρ → Sym) (p : Parts Date ρ) (s : Sym) (d : Date) : List ρ :=
  (p.rowsAt d).filter (fun r => decide (sym r = s))

/-- `barsFromTrades`. -/
def barsFromTrades (hdb : Hdb) (s : Sym) (d : Date) (sz : Int) : List (Int × Ohlcv) :=
  barsOf (rowsOf Trade.sym hdb.trade s d) sz

/-- `bars`: from the stored bars when there are any, else from the trades. -/
def bars (hdb : Hdb) (s : Sym) (d : Date) (sz : Int) : List (Int × Ohlcv) :=
  if hasTable hdb.bar then
    -- any stored bar of the day is preferred, whatever the width asked for
    let b := rowsOf BarRow.sym hdb.bar s d
    if 0 < b.length then rebucketBars b sz else barsFromTrades hdb s d sz
  else barsFromTrades hdb s d sz

/-! ## Quote bars -/

/-- The columns of a quote bar with the features derived from them. -/
structure QuoteFeatures extends Book where
  mid : ℚ
  spread : ℚ
  micro : Option ℚ
  qimb : Option ℚ
  deriving DecidableEq, Repr

/-- The `update` step shared by `quoteBarsOf` and `rebucketQuoteBars`. -/
def quoteFeatures (b : Book) : QuoteFeatures :=
  { b with
    mid := 1 / 2 * (b.bid + b.ask)
    spread := b.ask - b.bid
    micro := div (b.bid * b.askSize + b.ask * b.bidSize) (b.bidSize + b.askSize)
    qimb := div (b.bidSize - b.askSize) (b.bidSize + b.askSize) }

/-- `quoteBarsOf`: the last book of each bucket of width `sz`, with its features. -/
def quoteBarsOf (q : List Quote) (sz : Int) : List (Int × QuoteFeatures) :=
  (selectBy (fun r => xbar sz r.time) lastBook q).map (fun b => (b.1, quoteFeatures b.2))

/-- The columns `rebucketQuoteBars` selects from the bars of one group. -/
def rebucketBook (b : List Book) : Book where
  bid := lastOf 0 (·.bid) b
  ask := lastOf 0 (·.ask) b
  bidSize := lastOf 0 (·.bidSize) b
  askSize := lastOf 0 (·.askSize) b

/-- `rebucketQuoteBars`: stored quote bars merged into buckets of width `sz`. -/
def rebucketQuoteBars (qb : List QuoteBarRow) (sz : Int) : List (Int × QuoteFeatures) :=
  (selectBy (fun r => xbar sz r.time) (fun g => rebucketBook (g.map (·.toBook))) qb).map
    (fun b => (b.1, quoteFeatures b.2))

/-- `quoteBarsFromQuotes`. -/
def quoteBarsFromQuotes (hdb : Hdb) (s : Sym) (d : Date) (sz : Int) :
    List (Int × QuoteFeatures) :=
  quoteBarsOf (rowsOf Quote.sym hdb.quote s d) sz

/-- `quoteBars`: from the stored quote bars when there are any, else from the quotes. -/
def quoteBars (hdb : Hdb) (s : Sym) (d : Date) (sz : Int) : List (Int × QuoteFeatures) :=
  if hasTable hdb.quoteBar then
    let b := rowsOf QuoteBarRow.sym hdb.quoteBar s d
    if 0 < b.length then rebucketQuoteBars b sz else quoteBarsFromQuotes hdb s d sz
  else quoteBarsFromQuotes hdb s d sz

theorem quoteFeatures_injective : Function.Injective quoteFeatures := by
  intro b b' h
  exact congrArg QuoteFeatures.toBook h

/-! ## Two levels

A table in time order: first the base bars of width `w`, then the merge to width `sz`. -/

/-- Rows in time order. -/
def TimeOrdered {ρ : Type} (time : ρ → Int) (t : List ρ) : Prop :=
  t.Pairwise (fun a b => time a ≤ time b)

/-- Rows in time order within each symbol. -/
def TimeOrderedBySym {ρ : Type} (time : ρ → Int) (sym : ρ → Sym) (t : List ρ) : Prop :=
  ∀ s, TimeOrdered time (t.filter (fun r => decide (sym r = s)))

theorem TimeOrdered.bySym {ρ : Type} {time : ρ → Int} {sym : ρ → Sym} {t : List ρ}
    (h : TimeOrdered time t) : TimeOrderedBySym time sym t := fun _ => h.filter _

/-- The base groups of a list of rows. -/
def baseGroups {ρ : Type} (time : ρ → Int) (w : Int) (t : List ρ) : List (List ρ) :=
  (groupOn (fun r => xbar w (time r)) t).map Prod.snd

theorem baseGroups_ne_nil {ρ : Type} {time : ρ → Int} {w : Int} {t g : List ρ}
    (hg : g ∈ baseGroups time w t) : g ≠ [] := by
  obtain ⟨e, he, rfl⟩ := List.mem_map.mp hg
  exact groupOn_ne_nil he

theorem flatten_baseGroups {ρ : Type} {time : ρ → Int} {w : Int} (hw : 0 < w) {t : List ρ}
    (ht : TimeOrdered time t) : (baseGroups time w t).flatten = t :=
  flatten_groupOn (ht.imp (fun h => xbar_mono hw h))

theorem map_snd_selectBy {ρ β : Type} (time : ρ → Int) (w : Int) (agg : List ρ → β)
    (t : List ρ) :
    (selectBy (fun r => xbar w (time r)) agg t).map Prod.snd = (baseGroups time w t).map agg := by
  rw [selectBy, baseGroups, List.map_map, List.map_map]
  rfl

/-- Base bars merged by the buckets of their starts: each row counts in the bucket of its
base bucket. -/
theorem selectBy_base {ρ β γ δ : Type} (time : ρ → Int) (w sz : Int) (agg : List ρ → β)
    (mk : Int × β → δ) (start : δ → Int) (hstart : ∀ b, start (mk b) = b.1) (val : δ → β)
    (hval : ∀ b, val (mk b) = b.2) (merge : List β → γ) (t : List ρ) :
    selectBy (fun r => xbar sz (start r)) (fun g => merge (g.map val))
        ((selectBy (fun r => xbar w (time r)) agg t).map mk)
      = selectBy (fun r => xbar sz (xbar w (time r)))
          (fun m => merge ((baseGroups time w m).map agg)) t := by
  have hnest := selectBy_selectBy (fun r => xbar w (time r)) (fun r => xbar sz (xbar w (time r)))
    (xbar sz) agg (fun l : List (Int × β) => merge (l.map Prod.snd)) t (fun _ _ => rfl)
  simp only [map_snd_selectBy] at hnest
  rw [selectBy_map, ← hnest]
  simp only [hstart, List.map_map]
  refine congrArg (fun agg => selectBy _ agg _) (funext (fun g => ?_))
  exact congrArg merge (List.map_congr_left (fun b _ => hval b))

/-- The stored bars of one symbol are the base bars of its trades. -/
theorem filter_buildBars (t : List Trade) (w : Int) (s : Sym) :
    (buildBars t w).filter (fun b => decide (b.sym = s))
      = (selectBy (fun r => xbar w r.time) ohlcv (t.filter (fun r => decide (r.sym = s)))).map
          (fun b => ({ b.2 with sym := s, time := b.1 } : BarRow)) := by
  have hlex := filter_selectBy_lex Trade.sym (fun r => xbar w r.time) ohlcv t s
  rw [buildBars, List.filter_map]
  show ((selectBy (fun r : Trade => toLex (r.sym, xbar w r.time)) ohlcv t).filter
    (fun b => decide ((ofLex b.1).1 = s))).map _ = _
  rw [hlex, List.map_map]
  rfl

theorem filter_buildQuoteBars (q : List Quote) (w : Int) (s : Sym) :
    (buildQuoteBars q w).filter (fun b => decide (b.sym = s))
      = (selectBy (fun r => xbar w r.time) lastBook (q.filter (fun r => decide (r.sym = s)))).map
          (fun b => ({ b.2 with sym := s, time := b.1 } : QuoteBarRow)) := by
  have hlex := filter_selectBy_lex Quote.sym (fun r => xbar w r.time) lastBook q s
  rw [buildQuoteBars, List.filter_map]
  show ((selectBy (fun r : Quote => toLex (r.sym, xbar w r.time)) lastBook q).filter
    (fun b => decide ((ofLex b.1).1 = s))).map _ = _
  rw [hlex, List.map_map]
  rfl

/-- The base bars of one symbol, merged. -/
theorem rebucketBars_buildBars (t : List Trade) (w sz : Int) (s : Sym) :
    rebucketBars ((buildBars t w).filter (fun b => decide (b.sym = s))) sz
      = selectBy (fun r => xbar sz (xbar w r.time))
          (fun m => rebucket ((baseGroups Trade.time w m).map ohlcv))
          (t.filter (fun r => decide (r.sym = s))) := by
  rw [filter_buildBars, rebucketBars]
  exact selectBy_base Trade.time w sz ohlcv _ BarRow.time (fun _ => rfl) BarRow.toOhlcv
    (fun _ => rfl) rebucket _

theorem rebucketQuoteBars_buildQuoteBars (q : List Quote) (w sz : Int) (s : Sym) :
    rebucketQuoteBars ((buildQuoteBars q w).filter (fun b => decide (b.sym = s))) sz
      = (selectBy (fun r => xbar sz (xbar w r.time))
          (fun m => rebucketBook ((baseGroups Quote.time w m).map lastBook))
          (q.filter (fun r => decide (r.sym = s)))).map (fun b => (b.1, quoteFeatures b.2)) := by
  rw [filter_buildQuoteBars, rebucketQuoteBars]
  exact congrArg (List.map _)
    (selectBy_base Quote.time w sz lastBook _ QuoteBarRow.time (fun _ => rfl)
      QuoteBarRow.toBook (fun _ => rfl) rebucketBook _)

end NanoTick
