import NanoTick.Basic.Aggregates
import NanoTick.Basic.Buckets
import NanoTick.Basic.Grouping
import NanoTick.Basic.Partitioned
import NanoTick.Basic.Python
import Mathlib.Data.Prod.Lex
import Mathlib.Data.String.Basic
import Mathlib.Tactic

set_option autoImplicit false

/-! # The writer's tables and `savedown`

The writer process (`platform/schema.q`, driven by `HdbWriter` in `resources/backfill.py`)
holds two tables in memory, `trade` and `quote`, and saves finished days into a
date-partitioned database: per date up to four tables `trade`, `quote`, `bar`, `quoteBar`.

Times are integers: epoch milliseconds in the chunks handed to the writer, nanoseconds from
2000.01.01 (kdb timestamps) in the tables. Prices and quantities are exact rationals; a null
float is `none`. Dates are numbered by days from 1970-01-01.
-/

namespace NanoTick

open Aggregates Buckets Grouping Python

/-- A UTC date, as the number of days from 1970-01-01. -/
abbrev Date : Type := Int

abbrev Sym : Type := String

/-! ## Rows -/

/-- A row of `trade`. The same columns carry epoch milliseconds before `insertRaw`. -/
structure Trade where
  time : Int
  sym : Sym
  venue : String
  tradeID : Int
  price : ℚ
  qty : ℚ
  eventTime : Int
  buyerMaker : Bool
  deriving DecidableEq, Repr

/-- A row of `quote`. -/
structure Quote where
  time : Int
  sym : Sym
  venue : String
  updateID : Int
  bid : ℚ
  bidSize : ℚ
  ask : ℚ
  askSize : ℚ
  deriving DecidableEq, Repr

/-- The aggregated columns of a trade bar. -/
structure Ohlcv where
  «open» : ℚ
  high : ℚ
  low : ℚ
  close : ℚ
  vwap : Option ℚ
  vol : ℚ
  trades : Nat
  buyVol : ℚ
  sellVol : ℚ
  imbalance : Option ℚ
  deriving DecidableEq, Repr

/-- A row of `bar`. -/
structure BarRow extends Ohlcv where
  time : Int
  sym : Sym
  deriving DecidableEq, Repr

/-- The best bid and ask with their sizes. -/
structure Book where
  bid : ℚ
  ask : ℚ
  bidSize : ℚ
  askSize : ℚ
  deriving DecidableEq, Repr

/-- A row of `quoteBar`. -/
structure QuoteBarRow extends Book where
  time : Int
  sym : Sym
  deriving DecidableEq, Repr

/-! ## Bars -/

/-- `BAR_SIZE`: one minute. -/
def barSize : Int := 60 * 1000000000

theorem barSize_pos : 0 < barSize := by decide

/-- A boolean used as a number. -/
def bit (b : Bool) : ℚ := if b then 1 else 0

/-- The columns `barsOf` and `buildBars` select from the trades of one group. The sums are exact,
where those of the q process are rounded. -/
def ohlcv (t : List Trade) : Ohlcv where
  «open» := firstOf 0 (·.price) t
  high := maxOf 0 (·.price) t
  low := minOf 0 (·.price) t
  close := lastOf 0 (·.price) t
  vwap := wavg (·.qty) (fun r => some r.price) t
  vol := sumOf (·.qty) t
  trades := t.length
  buyVol := sumOf (fun r => r.qty * bit (!r.buyerMaker)) t
  sellVol := sumOf (fun r => r.qty * bit r.buyerMaker) t
  imbalance := div (sumOf (fun r => r.qty * (1 - 2 * bit r.buyerMaker)) t) (sumOf (·.qty) t)

/-- `buildBars`: bars of width `sz` by symbol and bucket, unkeyed, in key order. -/
def buildBars (t : List Trade) (sz : Int) : List BarRow :=
  (selectBy (fun r => toLex (r.sym, xbar sz r.time)) ohlcv t).map
    (fun b => { b.2 with sym := (ofLex b.1).1, time := (ofLex b.1).2 })

/-- The columns `quoteBarsOf` and `buildQuoteBars` select: each the last of the group. -/
def lastBook (q : List Quote) : Book where
  bid := lastOf 0 (·.bid) q
  ask := lastOf 0 (·.ask) q
  bidSize := lastOf 0 (·.bidSize) q
  askSize := lastOf 0 (·.askSize) q

/-- `buildQuoteBars`: the last book of each bucket of width `sz`, by symbol and bucket. -/
def buildQuoteBars (q : List Quote) (sz : Int) : List QuoteBarRow :=
  (selectBy (fun r => toLex (r.sym, xbar sz r.time)) lastBook q).map
    (fun b => { b.2 with sym := (ofLex b.1).1, time := (ofLex b.1).2 })

theorem buildBars_eq_nil {t : List Trade} {sz : Int} : buildBars t sz = [] ↔ t = [] :=
  List.map_eq_nil_iff.trans selectBy_eq_nil

theorem buildQuoteBars_eq_nil {q : List Quote} {sz : Int} :
    buildQuoteBars q sz = [] ↔ q = [] :=
  List.map_eq_nil_iff.trans selectBy_eq_nil

/-! ## The database and the writer -/

/-- The saved database: each table's partitions. -/
structure Hdb where
  trade : Parts Date Trade
  quote : Parts Date Quote
  bar : Parts Date BarRow
  quoteBar : Parts Date QuoteBarRow
  deriving DecidableEq

def Hdb.empty : Hdb := ⟨∅, ∅, ∅, ∅⟩

/-- The writer process: the two tables in memory, and the database it saves to. -/
structure HdbWriter where
  trade : List Trade
  quote : List Quote
  hdb : Hdb
  deriving DecidableEq

/-- A new process over a database: both tables in memory are empty. -/
def HdbWriter.fresh (hdb : Hdb) : HdbWriter := ⟨[], [], hdb⟩

/-- `ms2ts`: epoch milliseconds to a timestamp (`1970.01.01D00:00:00` plus the nanoseconds). -/
def ms2ts (x : Int) : Int := -946684800000000000 + 1000000 * x

/-- The conversion `insertRaw` makes on each row. -/
def Trade.ofRaw (r : Trade) : Trade :=
  { r with time := ms2ts r.time, eventTime := ms2ts r.eventTime }

/-- The conversion `insertRawQuote` makes on each row. -/
def Quote.ofRaw (r : Quote) : Quote := { r with time := ms2ts r.time }

/-- `HdbWriter.insert` (`insertRaw`): append a chunk to `trade`. -/
def HdbWriter.insert (w : HdbWriter) (cols : List Trade) : HdbWriter :=
  { w with trade := w.trade ++ cols.map Trade.ofRaw }

/-- `HdbWriter.insert_quote` (`insertRawQuote`): append a chunk to `quote`. -/
def HdbWriter.insertQuote (w : HdbWriter) (cols : List Quote) : HdbWriter :=
  { w with quote := w.quote ++ cols.map Quote.ofRaw }

/-- The rows `.Q.dpft` stores for a table: in time order, then by symbol, both sorts stable. -/
def storedRows {ρ : Type} (time : ρ → Int) (sym : ρ → Sym) (t : List ρ) : List ρ :=
  sortOn sym (sortOn time t)

/-- `saveTable`: a table that is not empty replaces its partition `dt` and is cleared. -/
def saveTable {ρ : Type} (time : ρ → Int) (sym : ρ → Sym) (dt : Date) (t : List ρ)
    (p : Parts Date ρ) : List ρ × Parts Date ρ :=
  if t = [] then (t, p) else ([], p.save dt (storedRows time sym t))

/-- `saveBars` and `saveQuoteBars`: bars that are not empty replace their partition `dt`. -/
def saveBars {ρ : Type} (sym : ρ → Sym) (dt : Date) (b : List ρ) (p : Parts Date ρ) :
    Parts Date ρ :=
  if b = [] then p else p.save dt (sortOn sym b)

/-- `savedown`: bars are built from the tables in memory, then the two tables and the two bar
tables are saved under `dt`. -/
def HdbWriter.savedown (w : HdbWriter) (dt : Date) : HdbWriter :=
  let b := buildBars w.trade barSize
  let qb := buildQuoteBars w.quote barSize
  let (trade, hdbTrade) := saveTable Trade.time Trade.sym dt w.trade w.hdb.trade
  let (quote, hdbQuote) := saveTable Quote.time Quote.sym dt w.quote w.hdb.quote
  { trade := trade, quote := quote,
    hdb := { trade := hdbTrade, quote := hdbQuote,
             bar := saveBars (·.sym) dt b w.hdb.bar,
             quoteBar := saveBars (·.sym) dt qb w.hdb.quoteBar } }

/-! ### What the operations do to each table -/

theorem perm_storedRows {ρ : Type} (time : ρ → Int) (sym : ρ → Sym) (t : List ρ) :
    (storedRows time sym t).Perm t :=
  (perm_sortOn _ _).trans (perm_sortOn _ _)

theorem saveTable_fst {ρ : Type} (time : ρ → Int) (sym : ρ → Sym) (dt : Date) (t : List ρ)
    (p : Parts Date ρ) : (saveTable time sym dt t p).1 = [] := by
  unfold saveTable
  split
  · assumption
  · rfl

theorem saveTable_nil {ρ : Type} (time : ρ → Int) (sym : ρ → Sym) (dt : Date)
    (p : Parts Date ρ) : saveTable time sym dt [] p = ([], p) := rfl

theorem saveTable_snd_of_ne_nil {ρ : Type} (time : ρ → Int) (sym : ρ → Sym) (dt : Date)
    {t : List ρ} (ht : t ≠ []) (p : Parts Date ρ) :
    (saveTable time sym dt t p).2 = p.save dt (storedRows time sym t) := by
  rw [saveTable, if_neg ht]

/-- What each date holds after a table is saved. -/
theorem rowsAt_saveTable {ρ : Type} (time : ρ → Int) (sym : ρ → Sym) (dt : Date) (t : List ρ)
    (p : Parts Date ρ) (d : Date) : (saveTable time sym dt t p).2.rowsAt d
      = if d = dt ∧ t ≠ [] then storedRows time sym t else p.rowsAt d := by
  by_cases ht : t = []
  · subst ht
    rw [saveTable_nil, if_neg (fun h => h.2 rfl)]
  · rw [saveTable_snd_of_ne_nil time sym dt ht]
    by_cases hd : d = dt
    · rw [if_pos ⟨hd, ht⟩, hd, Parts.rowsAt_save_self]
    · rw [if_neg (fun h => hd h.1), Parts.rowsAt_save_ne hd]

/-- What each date holds after bars are saved. -/
theorem rowsAt_saveBars {ρ : Type} (sym : ρ → Sym) (dt : Date) (b : List ρ) (p : Parts Date ρ)
    (d : Date) : (saveBars sym dt b p).rowsAt d
      = if d = dt ∧ b ≠ [] then sortOn sym b else p.rowsAt d := by
  unfold saveBars
  by_cases hb : b = []
  · rw [if_pos hb, if_neg (fun h => h.2 hb)]
  · rw [if_neg hb]
    by_cases hd : d = dt
    · rw [if_pos ⟨hd, hb⟩, hd, Parts.rowsAt_save_self]
    · rw [if_neg (fun h => hd h.1), Parts.rowsAt_save_ne hd]

section

variable (w : HdbWriter) (dt : Date)

@[simp] theorem savedown_trade : (w.savedown dt).trade = [] := saveTable_fst _ _ _ _ _

@[simp] theorem savedown_quote : (w.savedown dt).quote = [] := saveTable_fst _ _ _ _ _

theorem savedown_hdb_trade : (w.savedown dt).hdb.trade
    = (saveTable Trade.time Trade.sym dt w.trade w.hdb.trade).2 := rfl

theorem savedown_hdb_quote : (w.savedown dt).hdb.quote
    = (saveTable Quote.time Quote.sym dt w.quote w.hdb.quote).2 := rfl

theorem savedown_hdb_bar : (w.savedown dt).hdb.bar
    = saveBars (·.sym) dt (buildBars w.trade barSize) w.hdb.bar := rfl

theorem savedown_hdb_quoteBar : (w.savedown dt).hdb.quoteBar
    = saveBars (·.sym) dt (buildQuoteBars w.quote barSize) w.hdb.quoteBar := rfl

variable (cols : List Trade) (qcols : List Quote)

@[simp] theorem insert_trade : (w.insert cols).trade = w.trade ++ cols.map Trade.ofRaw := rfl
@[simp] theorem insert_quote : (w.insert cols).quote = w.quote := rfl
@[simp] theorem insert_hdb : (w.insert cols).hdb = w.hdb := rfl
@[simp] theorem insertQuote_trade : (w.insertQuote qcols).trade = w.trade := rfl
@[simp] theorem insertQuote_quote :
    (w.insertQuote qcols).quote = w.quote ++ qcols.map Quote.ofRaw := rfl
@[simp] theorem insertQuote_hdb : (w.insertQuote qcols).hdb = w.hdb := rfl

end

/-! ## Everything stored -/

/-- Every trade row the store holds, in memory or in a partition, with multiplicity. -/
def HdbWriter.storedTrades (w : HdbWriter) : Multiset Trade :=
  (w.trade : Multiset Trade) + w.hdb.trade.rows

/-- Every quote row the store holds. -/
def HdbWriter.storedQuotes (w : HdbWriter) : Multiset Quote :=
  (w.quote : Multiset Quote) + w.hdb.quote.rows

/-- **What a save keeps.** Saving a table under a date loses exactly what the date held,
unless the table is empty. -/
theorem saveTable_conserves {ρ : Type} (time : ρ → Int) (sym : ρ → Sym) (dt : Date)
    (t : List ρ) (p : Parts Date ρ) :
    (saveTable time sym dt t p).2.rows
        + (if t = [] then 0 else (p.rowsAt dt : Multiset ρ))
      = (t : Multiset ρ) + p.rows := by
  by_cases ht : t = []
  · subst ht
    rw [saveTable_nil, if_pos rfl]
    simp
  · rw [saveTable_snd_of_ne_nil time sym dt ht, if_neg ht]
    calc (p.save dt (storedRows time sym t)).rows + (p.rowsAt dt : Multiset ρ)
        = p.rows + (storedRows time sym t : Multiset ρ) := Parts.rows_save _ _ _
      _ = p.rows + (t : Multiset ρ) := by
          rw [Multiset.coe_eq_coe.mpr (perm_storedRows time sym t)]
      _ = (t : Multiset ρ) + p.rows := add_comm _ _

section

variable (w : HdbWriter) (dt : Date)

theorem storedTrades_savedown : (w.savedown dt).storedTrades
    + (if w.trade = [] then 0 else (w.hdb.trade.rowsAt dt : Multiset Trade))
      = w.storedTrades := by
  have h := saveTable_conserves Trade.time Trade.sym dt w.trade w.hdb.trade
  rw [HdbWriter.storedTrades, savedown_trade, savedown_hdb_trade, HdbWriter.storedTrades, ← h]
  simp

theorem storedQuotes_savedown : (w.savedown dt).storedQuotes
    + (if w.quote = [] then 0 else (w.hdb.quote.rowsAt dt : Multiset Quote))
      = w.storedQuotes := by
  have h := saveTable_conserves Quote.time Quote.sym dt w.quote w.hdb.quote
  rw [HdbWriter.storedQuotes, savedown_quote, savedown_hdb_quote, HdbWriter.storedQuotes, ← h]
  simp

theorem storedTrades_insert (cols : List Trade) : (w.insert cols).storedTrades
    = w.storedTrades + (cols.map Trade.ofRaw : Multiset Trade) := by
  rw [HdbWriter.storedTrades, HdbWriter.storedTrades, insert_trade, insert_hdb,
    ← Multiset.coe_add]
  abel

theorem storedQuotes_insertQuote (cols : List Quote) : (w.insertQuote cols).storedQuotes
    = w.storedQuotes + (cols.map Quote.ofRaw : Multiset Quote) := by
  rw [HdbWriter.storedQuotes, HdbWriter.storedQuotes, insertQuote_quote, insertQuote_hdb,
    ← Multiset.coe_add]
  abel

@[simp] theorem storedQuotes_insert (cols : List Trade) :
    (w.insert cols).storedQuotes = w.storedQuotes := rfl

@[simp] theorem storedTrades_insertQuote (cols : List Quote) :
    (w.insertQuote cols).storedTrades = w.storedTrades := rfl

theorem mem_storedTrades {r : Trade} :
    r ∈ w.storedTrades ↔ r ∈ w.trade ∨ ∃ d, r ∈ w.hdb.trade.rowsAt d := by
  rw [HdbWriter.storedTrades, Multiset.mem_add, Multiset.mem_coe, Parts.mem_rows]

theorem mem_storedQuotes {r : Quote} :
    r ∈ w.storedQuotes ↔ r ∈ w.quote ∨ ∃ d, r ∈ w.hdb.quote.rowsAt d := by
  rw [HdbWriter.storedQuotes, Multiset.mem_add, Multiset.mem_coe, Parts.mem_rows]

end

/-! ## The highest stored id -/

/-- `latest_partition_dir`: the newest partition that holds the table. -/
def latestPartition {ρ : Type} (p : Parts Date ρ) : Option Date :=
  if h : p.keys.Nonempty then some (p.keys.max' h) else none

/-- `partMaxId`: the highest id of symbol `s` in a partition, `-1` when it has no row there. -/
def partMaxId {ρ : Type} (sym : ρ → Sym) (id : ρ → Int) (rows : List ρ) (s : Sym) : Int :=
  (((rows.filter (fun r => decide (sym r = s))).map id).max?).getD (-1)

/-- `HdbWriter._max_id`: from memory when the symbol has a row there, else from the newest
partition of the table. -/
def maxId {ρ : Type} (sym : ρ → Sym) (id : ρ → Int) (t : List ρ) (p : Parts Date ρ) (s : Sym) :
    Option Int :=
  -- rows in memory hide the partitions, also where those hold higher ids
  match ((t.filter (fun r => decide (sym r = s))).map id).max? with
  | some m => some m
  | none =>
      match latestPartition p with
      | none => none
      | some d =>
          -- only this one partition is read: an older one may hold rows of the symbol too
          let v := partMaxId sym id (p.rowsAt d) s
          if v < 0 then none else some v

/-- `HdbWriter.max_stored_id`. -/
def HdbWriter.maxStoredId (w : HdbWriter) (s : Sym) : Option Int :=
  maxId Trade.sym Trade.tradeID w.trade w.hdb.trade s

/-- `HdbWriter.max_stored_quote_id`. -/
def HdbWriter.maxStoredQuoteId (w : HdbWriter) (s : Sym) : Option Int :=
  maxId Quote.sym Quote.updateID w.quote w.hdb.quote s

end NanoTick
