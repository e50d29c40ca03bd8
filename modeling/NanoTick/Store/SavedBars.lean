import NanoTick.Store.Schema
import Mathlib.Tactic

set_option autoImplicit false

/-! # Saved bars and saved rows

`savedown` builds the bars from the tables in memory, in insertion order, and only then sorts
the tables by time. A bar's highest and lowest price and, its sums being exact here, its volumes
and averages do not depend on the order; its open and close, and the last book of a quote bar, do.
`savedBars_iff` says when the stored bars are those of the stored rows.
-/

namespace NanoTick

open Aggregates Buckets Grouping

/-! ## Groups of the stored rows -/

section

variable {ρ : Type} (time : ρ → Int) (sym : ρ → Sym)

/-- The symbol and bucket of a row. -/
def barKey (sz : Int) (r : ρ) : Sym ×ₗ Int := toLex (sym r, xbar sz (time r))

/-- Within one bar the stored rows are the inserted ones, sorted by time. -/
theorem groupAt_storedRows (sz : Int) (t : List ρ) (k : Sym ×ₗ Int) :
    groupAt (barKey time sym sz) (storedRows time sym t) k
      = sortOn time (groupAt (barKey time sym sz) t k) := by
  have hsame : ∀ a ∈ (sortOn time t).filter (fun a => decide (barKey time sym sz a = k)),
      sym a = (ofLex k).1 := by
    intro a ha
    rw [← of_decide_eq_true (List.mem_filter.mp ha).2]
    rfl
  rw [groupAt, groupAt, storedRows, filter_sortOn, ← filter_sortOn time]
  -- the rows of one bar carry one symbol, so the second sort leaves them as they are
  apply sortOn_of_pairwise
  refine List.pairwise_of_forall_mem_list (fun a ha b hb => ?_)
  rw [hsame a ha, hsame b hb]

theorem keysOf_storedRows (sz : Int) (t : List ρ) :
    keysOf (barKey time sym sz) (storedRows time sym t) = keysOf (barKey time sym sz) t :=
  keysOf_perm _ (perm_storedRows time sym t)

/-- The bars of the inserted rows are those of the stored ones exactly when sorting by time
leaves each bar's aggregate as it is. -/
theorem selectBy_storedRows_iff {β : Type} (sz : Int) (agg : List ρ → β) (t : List ρ) :
    selectBy (barKey time sym sz) agg t
        = selectBy (barKey time sym sz) agg (storedRows time sym t)
      ↔ ∀ k ∈ keysOf (barKey time sym sz) t,
        agg (groupAt (barKey time sym sz) t k)
          = agg (sortOn time (groupAt (barKey time sym sz) t k)) := by
  rw [selectBy_eq_map_keysOf, selectBy_eq_map_keysOf, keysOf_storedRows, List.map_inj_left]
  simp only [Prod.mk.injEq, true_and, groupAt_storedRows]

end

/-! ## Bars -/

/-- What of a bar depends on the order of its trades. -/
theorem ohlcv_sortOn_iff (g : List Trade) :
    ohlcv g = ohlcv (sortOn Trade.time g)
      ↔ firstOf 0 Trade.price g = firstOf 0 Trade.price (sortOn Trade.time g)
        ∧ lastOf 0 Trade.price g = lastOf 0 Trade.price (sortOn Trade.time g) := by
  have hperm := (perm_sortOn Trade.time g).symm
  constructor
  · intro h
    exact ⟨congrArg Ohlcv.open h, congrArg Ohlcv.close h⟩
  · rintro ⟨hopen, hclose⟩
    rw [ohlcv, ohlcv, hopen, hclose, maxOf_perm _ _ hperm, minOf_perm _ _ hperm,
      wavg_perm _ _ hperm, sumOf_perm _ hperm, sumOf_perm _ hperm, sumOf_perm _ hperm,
      sumOf_perm _ hperm, hperm.length_eq]

section

variable {β δ : Type} (mk : (Sym ×ₗ Int) × β → δ) (sym : δ → Sym)

/-- Bars come in symbol order, so saving them leaves their order. -/
theorem sortOn_bars {ρ : Type} (key : ρ → Sym ×ₗ Int) (agg : List ρ → β)
    (hsym : ∀ b, sym (mk b) = (ofLex b.1).1) (t : List ρ) :
    sortOn sym ((selectBy key agg t).map mk) = (selectBy key agg t).map mk := by
  apply sortOn_of_pairwise
  rw [List.pairwise_map]
  have hkeys := keysOf_pairwise key t
  rw [← map_fst_selectBy key agg, List.pairwise_map] at hkeys
  refine hkeys.imp (fun {a b} hlt => ?_)
  rw [hsym, hsym]
  rcases Prod.Lex.lt_iff.mp hlt with h | ⟨h, -⟩
  · exact h.le
  · exact h.le

end

theorem sortOn_buildBars (t : List Trade) (sz : Int) :
    sortOn BarRow.sym (buildBars t sz) = buildBars t sz :=
  sortOn_bars _ BarRow.sym _ ohlcv (fun _ => rfl) t

theorem sortOn_buildQuoteBars (q : List Quote) (sz : Int) :
    sortOn QuoteBarRow.sym (buildQuoteBars q sz) = buildQuoteBars q sz :=
  sortOn_bars _ QuoteBarRow.sym _ lastBook (fun _ => rfl) q

/-- The trade bars of the inserted rows and of the stored ones. -/
theorem buildBars_storedRows_iff (t : List Trade) (sz : Int) :
    buildBars t sz = buildBars (storedRows Trade.time Trade.sym t) sz
      ↔ ∀ k ∈ keysOf (barKey Trade.time Trade.sym sz) t,
        firstOf 0 Trade.price (groupAt (barKey Trade.time Trade.sym sz) t k)
            = firstOf 0 Trade.price
              (sortOn Trade.time (groupAt (barKey Trade.time Trade.sym sz) t k))
          ∧ lastOf 0 Trade.price (groupAt (barKey Trade.time Trade.sym sz) t k)
            = lastOf 0 Trade.price
              (sortOn Trade.time (groupAt (barKey Trade.time Trade.sym sz) t k)) := by
  have hinj : Function.Injective (fun b : (Sym ×ₗ Int) × Ohlcv =>
      ({ b.2 with sym := (ofLex b.1).1, time := (ofLex b.1).2 } : BarRow)) := by
    rintro ⟨k, o⟩ ⟨k', o'⟩ h
    obtain ⟨ho, hrest⟩ := BarRow.mk.inj h
    exact Prod.ext (Prod.ext hrest.2 hrest.1) ho
  rw [buildBars, buildBars, (List.map_injective_iff.mpr hinj).eq_iff]
  simp only [← ohlcv_sortOn_iff]
  exact selectBy_storedRows_iff Trade.time Trade.sym sz ohlcv t

theorem buildQuoteBars_storedRows_iff (q : List Quote) (sz : Int) :
    buildQuoteBars q sz = buildQuoteBars (storedRows Quote.time Quote.sym q) sz
      ↔ ∀ k ∈ keysOf (barKey Quote.time Quote.sym sz) q,
        lastBook (groupAt (barKey Quote.time Quote.sym sz) q k)
          = lastBook (sortOn Quote.time (groupAt (barKey Quote.time Quote.sym sz) q k)) := by
  have hinj : Function.Injective (fun b : (Sym ×ₗ Int) × Book =>
      ({ b.2 with sym := (ofLex b.1).1, time := (ofLex b.1).2 } : QuoteBarRow)) := by
    rintro ⟨k, o⟩ ⟨k', o'⟩ h
    obtain ⟨ho, hrest⟩ := QuoteBarRow.mk.inj h
    exact Prod.ext (Prod.ext hrest.2 hrest.1) ho
  rw [buildQuoteBars, buildQuoteBars, (List.map_injective_iff.mpr hinj).eq_iff]
  exact selectBy_storedRows_iff Quote.time Quote.sym sz lastBook q

/-! ## `savedown` -/

/-- The bars a `savedown` writes are those of the rows it writes. -/
def BarsOfSavedRows (w : HdbWriter) (dt : Date) : Prop :=
  (w.trade ≠ [] → (w.savedown dt).hdb.bar.rowsAt dt
      = buildBars ((w.savedown dt).hdb.trade.rowsAt dt) barSize)
    ∧ (w.quote ≠ [] → (w.savedown dt).hdb.quoteBar.rowsAt dt
      = buildQuoteBars ((w.savedown dt).hdb.quote.rowsAt dt) barSize)

/-- In each symbol and minute the first and the last trade inserted have the prices of the
first and the last in time. -/
def PricesInTimeOrder (t : List Trade) : Prop :=
  ∀ k ∈ keysOf (barKey Trade.time Trade.sym barSize) t,
    firstOf 0 Trade.price (groupAt (barKey Trade.time Trade.sym barSize) t k)
        = firstOf 0 Trade.price
          (sortOn Trade.time (groupAt (barKey Trade.time Trade.sym barSize) t k))
      ∧ lastOf 0 Trade.price (groupAt (barKey Trade.time Trade.sym barSize) t k)
        = lastOf 0 Trade.price
          (sortOn Trade.time (groupAt (barKey Trade.time Trade.sym barSize) t k))

/-- In each symbol and minute the last quote inserted has the book of the last in time. -/
def BooksInTimeOrder (q : List Quote) : Prop :=
  ∀ k ∈ keysOf (barKey Quote.time Quote.sym barSize) q,
    lastBook (groupAt (barKey Quote.time Quote.sym barSize) q k)
      = lastBook (sortOn Quote.time (groupAt (barKey Quote.time Quote.sym barSize) q k))

/-- The ends of both tables' bars. -/
structure EndsInTimeOrder (w : HdbWriter) : Prop where
  prices : PricesInTimeOrder w.trade
  books : BooksInTimeOrder w.quote

/-- **Saved bars describe the saved rows** exactly when, bar by bar, the ends of the rows come
in time order. -/
theorem savedBars_iff (w : HdbWriter) (dt : Date) :
    BarsOfSavedRows w dt ↔ EndsInTimeOrder w := by
  have htrade : (w.trade ≠ [] → (w.savedown dt).hdb.bar.rowsAt dt
        = buildBars ((w.savedown dt).hdb.trade.rowsAt dt) barSize)
      ↔ buildBars w.trade barSize = buildBars (storedRows Trade.time Trade.sym w.trade) barSize
      := by
    by_cases hnil : w.trade = []
    · simp [hnil, storedRows, sortOn]
    · rw [savedown_hdb_bar, savedown_hdb_trade, rowsAt_saveBars, rowsAt_saveTable,
        if_pos ⟨rfl, mt buildBars_eq_nil.mp hnil⟩, if_pos ⟨rfl, hnil⟩, sortOn_buildBars]
      exact ⟨fun h => h hnil, fun h _ => h⟩
  have hquote : (w.quote ≠ [] → (w.savedown dt).hdb.quoteBar.rowsAt dt
        = buildQuoteBars ((w.savedown dt).hdb.quote.rowsAt dt) barSize)
      ↔ buildQuoteBars w.quote barSize
        = buildQuoteBars (storedRows Quote.time Quote.sym w.quote) barSize := by
    by_cases hnil : w.quote = []
    · simp [hnil, storedRows, sortOn]
    · rw [savedown_hdb_quoteBar, savedown_hdb_quote, rowsAt_saveBars, rowsAt_saveTable,
        if_pos ⟨rfl, mt buildQuoteBars_eq_nil.mp hnil⟩, if_pos ⟨rfl, hnil⟩,
        sortOn_buildQuoteBars]
      exact ⟨fun h => h hnil, fun h _ => h⟩
  rw [BarsOfSavedRows, htrade, hquote, buildBars_storedRows_iff, buildQuoteBars_storedRows_iff]
  exact ⟨fun h => ⟨h.1, h.2⟩, fun h => ⟨h.prices, h.books⟩⟩

/-- Two quotes of one minute, received before and after the clock stepped back a second. -/
def steppedBack : HdbWriter :=
  (HdbWriter.fresh Hdb.empty).insertQuote
    [⟨1700000002000, "BTCUSDT", "binance", 1, 100, 1, 101, 1⟩,
      ⟨1700000001000, "BTCUSDT", "binance", 2, 99, 1, 100, 1⟩]

/-- Their bar has the book inserted last, the stored quotes end with the other one. -/
theorem not_barsOfSavedRows : ¬ ∀ (w : HdbWriter) (dt : Date), BarsOfSavedRows w dt := by
  intro h
  have hbars := (h steppedBack 19675).2 (by decide)
  revert hbars
  decide +kernel

end NanoTick
