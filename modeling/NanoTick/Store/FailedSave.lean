import NanoTick.Store.Roller
import NanoTick.Store.SavedBars
import Mathlib.Tactic

set_option autoImplicit false

/-! # A savedown that fails half-way

The four saves of a `savedown` run one after the other, and any of them may raise. What was
saved before stays saved and its table is cleared; the table of the save that failed stays in
memory. A retry builds the bars from what is in memory then, so bars whose rows were already
saved are not built again; and `flush` has forgotten the day before it saves, so after a failed
flush there is nothing to retry. `retry_iff` says for each of the four points, for both ways to
fail and every way to retry, when the day's partitions end as without the failure, in exact
arithmetic: bars built from sorted rows have the same sums.
-/

namespace NanoTick

open Aggregates Grouping Python

/-- The saves of a `savedown`, in order. -/
inductive Save where
  | trade
  | quote
  | bar
  | quoteBar
  deriving DecidableEq, Repr

/-- The save has something to write. -/
def Save.Writes (w : HdbWriter) : Save → Prop
  | .trade => w.trade ≠ []
  | .quote => w.quote ≠ []
  | .bar => buildBars w.trade barSize ≠ []
  | .quoteBar => buildQuoteBars w.quote barSize ≠ []

instance (w : HdbWriter) (p : Save) : Decidable (p.Writes w) := by
  cases p <;> exact inferInstanceAs (Decidable (_ ≠ _))

/-- `savedown` when the write of save `p` raises, before its partition is touched: the writer
it leaves, and whether it raised. A save without rows writes nothing and cannot raise. -/
def HdbWriter.savedownRaising (w : HdbWriter) (dt : Date) (p : Save) : HdbWriter × Bool :=
  let b := buildBars w.trade barSize
  if p = .trade ∧ p.Writes w then
    -- `saveTable` sorts its table in place before it writes
    ({ w with trade := sortOn Trade.time w.trade }, true)
  else
    let (trade, hdbTrade) := saveTable Trade.time Trade.sym dt w.trade w.hdb.trade
    if p = .quote ∧ p.Writes w then
      ({ trade := trade, quote := sortOn Quote.time w.quote,
         hdb := { w.hdb with trade := hdbTrade } }, true)
    else
      let (quote, hdbQuote) := saveTable Quote.time Quote.sym dt w.quote w.hdb.quote
      let hdb := { w.hdb with trade := hdbTrade, quote := hdbQuote }
      -- the bars that could not be written stay in the global `bar`, which nothing reads
      if p = .bar ∧ p.Writes w then ({ trade := trade, quote := quote, hdb := hdb }, true)
      else if p = .quoteBar ∧ p.Writes w then
        ({ trade := trade, quote := quote,
           hdb := { hdb with bar := saveBars (·.sym) dt b w.hdb.bar } }, true)
      else (w.savedown dt, false)

namespace RdbRoller

/-- `flush` when save `p` raises: the current day is gone before the savedown starts. -/
def flushRaising (r : RdbRoller) (p : Save) : RdbRoller :=
  match r.currentDay with
  | none => r
  | some day => { writer := (r.writer.savedownRaising day p).1, currentDay := none }

/-- `_roll` when save `p` raises: the day moves on only when the savedown returns. -/
def rollRaising (r : RdbRoller) (day : Date) (p : Save) : RdbRoller × Bool :=
  match r.currentDay with
  | none => ({ r with currentDay := some day }, false)
  | some cur =>
      if cur < day then
        let (w, raised) := r.writer.savedownRaising cur p
        if raised then ({ r with writer := w }, true)
        else ({ writer := w, currentDay := some day }, false)
      else (r, false)

end RdbRoller

/-- A call of the roller that can save a day down. -/
inductive RollCall where
  | flush
  | feed (cols : List Trade)
  | feedQuote (cols : List Quote)
  deriving DecidableEq

namespace RollCall

/-- The times of the chunk a call brings. -/
def times : RollCall → List Int
  | .flush => []
  | .feed cols => cols.map Trade.time
  | .feedQuote cols => cols.map Quote.time

/-- A flush, or a chunk of a day past `dt`: the calls that save `dt` down when it is the current
day. -/
def Saves (dt : Date) (c : RollCall) : Prop :=
  c = .flush ∨ ∃ day, RdbRoller.chunkDate c.times = .ok day ∧ dt < day

/-- The roller after the call; a chunk is inserted after the roll. -/
def run (r : RdbRoller) : RollCall → RdbRoller
  | .flush => r.flush.1
  | .feed cols =>
      match r.feed cols with
      | .ok (r, _) => r
      | .error _ => r
  | .feedQuote cols =>
      match r.feedQuote cols with
      | .ok (r, _) => r
      | .error _ => r

/-- The roller after the call when save `p` raises; the chunk that found it so is not
inserted. -/
def runRaising (r : RdbRoller) (p : Save) (c : RollCall) : RdbRoller :=
  match c with
  | .flush => r.flushRaising p
  | .feed cols =>
      match RdbRoller.chunkDate c.times with
      | .error _ => r
      | .ok day =>
          let (r, raised) := r.rollRaising day p
          if raised then r else { r with writer := r.writer.insert cols }
  | .feedQuote cols =>
      match RdbRoller.chunkDate c.times with
      | .error _ => r
      | .ok day =>
          let (r, raised) := r.rollRaising day p
          if raised then r else { r with writer := r.writer.insertQuote cols }

end RollCall

/-! ## The day's partitions -/

/-- Two databases hold the same rows under a date, in all four tables. -/
structure SameDay (dt : Date) (h h' : Hdb) : Prop where
  trade : h.trade.rowsAt dt = h'.trade.rowsAt dt
  quote : h.quote.rowsAt dt = h'.quote.rowsAt dt
  bar : h.bar.rowsAt dt = h'.bar.rowsAt dt
  quoteBar : h.quoteBar.rowsAt dt = h'.quoteBar.rowsAt dt

/-- Save `p` would leave its partition of the date as it is: it has nothing to write, or the
partition holds just what it writes. -/
def Save.Idle (w : HdbWriter) (dt : Date) : Save → Prop
  | .trade => w.trade = [] ∨ w.hdb.trade.rowsAt dt = storedRows Trade.time Trade.sym w.trade
  | .quote => w.quote = [] ∨ w.hdb.quote.rowsAt dt = storedRows Quote.time Quote.sym w.quote
  | .bar => w.trade = [] ∨ w.hdb.bar.rowsAt dt = buildBars w.trade barSize
  | .quoteBar => w.quote = [] ∨ w.hdb.quoteBar.rowsAt dt = buildQuoteBars w.quote barSize

section

variable (w : HdbWriter) (dt : Date)

/-- What a savedown leaves under its own date, table by table. -/
theorem savedown_trade_at : (w.savedown dt).hdb.trade.rowsAt dt
    = if w.trade = [] then w.hdb.trade.rowsAt dt
      else storedRows Trade.time Trade.sym w.trade := by
  rw [savedown_hdb_trade, rowsAt_saveTable]
  by_cases h : w.trade = [] <;> simp [h]

theorem savedown_quote_at : (w.savedown dt).hdb.quote.rowsAt dt
    = if w.quote = [] then w.hdb.quote.rowsAt dt
      else storedRows Quote.time Quote.sym w.quote := by
  rw [savedown_hdb_quote, rowsAt_saveTable]
  by_cases h : w.quote = [] <;> simp [h]

theorem savedown_bar_at : (w.savedown dt).hdb.bar.rowsAt dt
    = if w.trade = [] then w.hdb.bar.rowsAt dt else buildBars w.trade barSize := by
  rw [savedown_hdb_bar, rowsAt_saveBars, sortOn_buildBars]
  by_cases h : w.trade = [] <;> simp [h, buildBars_eq_nil]

theorem savedown_quoteBar_at : (w.savedown dt).hdb.quoteBar.rowsAt dt
    = if w.quote = [] then w.hdb.quoteBar.rowsAt dt else buildQuoteBars w.quote barSize := by
  rw [savedown_hdb_quoteBar, rowsAt_saveBars, sortOn_buildQuoteBars]
  by_cases h : w.quote = [] <;> simp [h, buildQuoteBars_eq_nil]

theorem eq_ite_left {α : Type} {a b : α} {c : Prop} [Decidable c] :
    (a = if c then a else b) ↔ c ∨ a = b := by
  by_cases hc : c <;> simp [hc]

/-- The partitions of a day are those a savedown leaves when each save that was not done is
idle. -/
theorem idle_trade_iff : (w.hdb.trade.rowsAt dt = (w.savedown dt).hdb.trade.rowsAt dt)
    ↔ Save.trade.Idle w dt := by
  rw [savedown_trade_at, eq_ite_left]
  rfl

theorem idle_quote_iff : (w.hdb.quote.rowsAt dt = (w.savedown dt).hdb.quote.rowsAt dt)
    ↔ Save.quote.Idle w dt := by
  rw [savedown_quote_at, eq_ite_left]
  rfl

theorem idle_bar_iff : (w.hdb.bar.rowsAt dt = (w.savedown dt).hdb.bar.rowsAt dt)
    ↔ Save.bar.Idle w dt := by
  rw [savedown_bar_at, eq_ite_left]
  rfl

theorem idle_quoteBar_iff :
    (w.hdb.quoteBar.rowsAt dt = (w.savedown dt).hdb.quoteBar.rowsAt dt)
      ↔ Save.quoteBar.Idle w dt := by
  rw [savedown_quoteBar_at, eq_ite_left]
  rfl

/-! ## The half-done states -/

theorem savedownRaising_trade (h : Save.trade.Writes w) :
    w.savedownRaising dt .trade = ({ w with trade := sortOn Trade.time w.trade }, true) := by
  unfold HdbWriter.savedownRaising
  exact if_pos ⟨rfl, h⟩

theorem savedownRaising_quote (h : Save.quote.Writes w) :
    w.savedownRaising dt .quote
      = ({ trade := [], quote := sortOn Quote.time w.quote,
           hdb := { w.hdb with trade := (w.savedown dt).hdb.trade } }, true) := by
  unfold HdbWriter.savedownRaising
  rw [← savedown_trade w dt]
  exact (if_neg (fun hc => Save.noConfusion hc.1)).trans (if_pos ⟨rfl, h⟩)

theorem savedownRaising_bar (h : Save.bar.Writes w) :
    w.savedownRaising dt .bar
      = ({ trade := [], quote := [],
           hdb := { w.hdb with trade := (w.savedown dt).hdb.trade,
                               quote := (w.savedown dt).hdb.quote } }, true) := by
  unfold HdbWriter.savedownRaising
  rw [← savedown_trade w dt, ← savedown_quote w dt]
  exact (if_neg (fun hc => Save.noConfusion hc.1)).trans
    ((if_neg (fun hc => Save.noConfusion hc.1)).trans (if_pos ⟨rfl, h⟩))

theorem savedownRaising_quoteBar (h : Save.quoteBar.Writes w) :
    w.savedownRaising dt .quoteBar
      = ({ trade := [], quote := [],
           hdb := { (w.savedown dt).hdb with quoteBar := w.hdb.quoteBar } }, true) := by
  unfold HdbWriter.savedownRaising
  rw [← savedown_trade w dt, ← savedown_quote w dt]
  exact (if_neg (fun hc => Save.noConfusion hc.1)).trans
    ((if_neg (fun hc => Save.noConfusion hc.1)).trans
      ((if_neg (fun hc => Save.noConfusion hc.1)).trans (if_pos ⟨rfl, h⟩)))

/-- A failing save raises. -/
theorem savedownRaising_raised {p : Save} (h : p.Writes w) :
    (w.savedownRaising dt p).2 = true := by
  cases p with
  | trade => rw [savedownRaising_trade w dt h]
  | quote => rw [savedownRaising_quote w dt h]
  | bar => rw [savedownRaising_bar w dt h]
  | quoteBar => rw [savedownRaising_quoteBar w dt h]

end

/-! ## Tables sorted by the failed save -/

section

variable {ρ : Type} (time : ρ → Int) (sym : ρ → Sym)

theorem storedRows_sortOn (t : List ρ) :
    storedRows time sym (sortOn time t) = storedRows time sym t := by
  rw [storedRows, storedRows, sortOn_of_pairwise (sortOn_pairwise time t)]

theorem sortOn_eq_nil {t : List ρ} : sortOn time t = [] ↔ t = [] := by
  constructor
  · intro h
    have hperm := perm_sortOn time t
    rw [h] at hperm
    exact hperm.symm.eq_nil
  · rintro rfl
    rfl

/-- Bars of a table in time order are those of its stored rows. -/
theorem selectBy_sortOn {β : Type} (sz : Int) (agg : List ρ → β) (t : List ρ) :
    selectBy (barKey time sym sz) agg (sortOn time t)
      = selectBy (barKey time sym sz) agg (storedRows time sym t) := by
  rw [selectBy_eq_map_keysOf, selectBy_eq_map_keysOf, keysOf_storedRows,
    keysOf_perm _ (perm_sortOn time t)]
  refine List.map_congr_left (fun k _ => ?_)
  rw [groupAt_storedRows, groupAt, filter_sortOn]
  rfl

end

theorem buildBars_sortOn (t : List Trade) (sz : Int) :
    buildBars (sortOn Trade.time t) sz = buildBars (storedRows Trade.time Trade.sym t) sz :=
  congrArg _ (selectBy_sortOn Trade.time Trade.sym sz ohlcv t)

theorem buildQuoteBars_sortOn (q : List Quote) (sz : Int) :
    buildQuoteBars (sortOn Quote.time q) sz
      = buildQuoteBars (storedRows Quote.time Quote.sym q) sz :=
  congrArg _ (selectBy_sortOn Quote.time Quote.sym sz lastBook q)

/-! ## The retry -/

/-- When nothing is lost by a failure of save `p`. A failed flush is never retried, so every
save from `p` on must have been idle. A failed roll is retried with what is still in memory:
the bars of a table that was already cleared must have been idle, and those of a table the
failed save sorted must not depend on the order. -/
def RetrySafe (w : HdbWriter) (dt : Date) : RollCall → Save → Prop
  | .flush, .trade => Save.trade.Idle w dt ∧ Save.quote.Idle w dt ∧ Save.bar.Idle w dt
      ∧ Save.quoteBar.Idle w dt
  | .flush, .quote => Save.quote.Idle w dt ∧ Save.bar.Idle w dt ∧ Save.quoteBar.Idle w dt
  | .flush, .bar => Save.bar.Idle w dt ∧ Save.quoteBar.Idle w dt
  | .flush, .quoteBar => Save.quoteBar.Idle w dt
  | _, .trade => PricesInTimeOrder w.trade
  | _, .quote => Save.bar.Idle w dt ∧ BooksInTimeOrder w.quote
  | _, .bar => Save.bar.Idle w dt ∧ Save.quoteBar.Idle w dt
  | _, .quoteBar => Save.quoteBar.Idle w dt

section

variable {w : HdbWriter} {dt : Date} {p : Save}

/-- After a failed flush the day's partitions stay as the failed savedown left them. -/
theorem sameDay_unretried (hp : p.Writes w) :
    SameDay dt (w.savedownRaising dt p).1.hdb (w.savedown dt).hdb
      ↔ RetrySafe w dt .flush p := by
  cases p with
  | trade =>
      rw [savedownRaising_trade w dt hp, RetrySafe, ← idle_trade_iff, ← idle_quote_iff,
        ← idle_bar_iff, ← idle_quoteBar_iff]
      exact ⟨fun h => ⟨h.trade, h.quote, h.bar, h.quoteBar⟩,
        fun h => ⟨h.1, h.2.1, h.2.2.1, h.2.2.2⟩⟩
  | quote =>
      rw [savedownRaising_quote w dt hp, RetrySafe, ← idle_quote_iff, ← idle_bar_iff,
        ← idle_quoteBar_iff]
      exact ⟨fun h => ⟨h.quote, h.bar, h.quoteBar⟩, fun h => ⟨rfl, h.1, h.2.1, h.2.2⟩⟩
  | bar =>
      rw [savedownRaising_bar w dt hp, RetrySafe, ← idle_bar_iff, ← idle_quoteBar_iff]
      exact ⟨fun h => ⟨h.bar, h.quoteBar⟩, fun h => ⟨rfl, rfl, h.1, h.2⟩⟩
  | quoteBar =>
      rw [savedownRaising_quoteBar w dt hp, RetrySafe, ← idle_quoteBar_iff]
      exact ⟨fun h => h.quoteBar, fun h => ⟨rfl, rfl, rfl, h⟩⟩

/-- A savedown with empty tables changes nothing. -/
theorem savedown_of_empty (hdb : Hdb) : (HdbWriter.savedown ⟨[], [], hdb⟩ dt).hdb = hdb := rfl

/-- After a failed roll the day is saved down again, from what is still in memory. -/
theorem sameDay_retried (hp : p.Writes w) {c : RollCall} (hc : c ≠ .flush) :
    SameDay dt ((w.savedownRaising dt p).1.savedown dt).hdb (w.savedown dt).hdb
      ↔ RetrySafe w dt c p := by
  cases p with
  | trade =>
      have hsafe : RetrySafe w dt c .trade ↔ PricesInTimeOrder w.trade := by
        cases c with
        | flush => exact absurd rfl hc
        | feed cols => exact Iff.rfl
        | feedQuote cols => exact Iff.rfl
      rw [savedownRaising_trade w dt hp, hsafe, PricesInTimeOrder, ← buildBars_storedRows_iff]
      have hne : w.trade ≠ [] := hp
      constructor
      · intro h
        have hbar := h.bar
        rw [savedown_bar_at, savedown_bar_at, if_neg (by rwa [sortOn_eq_nil]), if_neg hne,
          buildBars_sortOn] at hbar
        exact hbar.symm
      · intro h
        refine ⟨?_, ?_, ?_, ?_⟩
        · rw [savedown_trade_at, savedown_trade_at, if_neg (by rwa [sortOn_eq_nil]), if_neg hne,
            storedRows_sortOn]
        · rw [savedown_quote_at, savedown_quote_at]
        · rw [savedown_bar_at, savedown_bar_at, if_neg (by rwa [sortOn_eq_nil]), if_neg hne,
            buildBars_sortOn, ← h]
        · rw [savedown_quoteBar_at, savedown_quoteBar_at]
  | quote =>
      have hsafe : RetrySafe w dt c .quote
          ↔ Save.bar.Idle w dt ∧ BooksInTimeOrder w.quote := by
        cases c with
        | flush => exact absurd rfl hc
        | feed cols => exact Iff.rfl
        | feedQuote cols => exact Iff.rfl
      rw [savedownRaising_quote w dt hp, hsafe, BooksInTimeOrder, ← buildQuoteBars_storedRows_iff,
        ← idle_bar_iff]
      have hne : w.quote ≠ [] := hp
      constructor
      · intro h
        have hbar := h.bar
        have hquoteBar := h.quoteBar
        rw [savedown_quoteBar_at, savedown_quoteBar_at, if_neg (by rwa [sortOn_eq_nil]),
          if_neg hne, buildQuoteBars_sortOn] at hquoteBar
        exact ⟨hbar, hquoteBar.symm⟩
      · rintro ⟨hbar, hquoteBar⟩
        refine ⟨rfl, ?_, hbar, ?_⟩
        · rw [savedown_quote_at, savedown_quote_at, if_neg (by rwa [sortOn_eq_nil]), if_neg hne,
            storedRows_sortOn]
        · rw [savedown_quoteBar_at, savedown_quoteBar_at, if_neg (by rwa [sortOn_eq_nil]),
            if_neg hne, buildQuoteBars_sortOn, ← hquoteBar]
  | bar =>
      have hsafe : RetrySafe w dt c .bar ↔ RetrySafe w dt .flush .bar := by
        cases c <;> exact Iff.rfl
      rw [hsafe, ← sameDay_unretried hp, savedownRaising_bar w dt hp, savedown_of_empty]
  | quoteBar =>
      have hsafe : RetrySafe w dt c .quoteBar ↔ RetrySafe w dt .flush .quoteBar := by
        cases c <;> exact Iff.rfl
      rw [hsafe, ← sameDay_unretried hp, savedownRaising_quoteBar w dt hp, savedown_of_empty]

end

/-! ### The calls -/

section

variable {r : RdbRoller} {dt : Date} {p : Save} {c : RollCall}

/-- Without a current day no call saves anything. -/
theorem run_hdb_of_none (h : r.currentDay = none) (c : RollCall) :
    (c.run r).writer.hdb = r.writer.hdb := by
  cases c with
  | flush => simp only [RollCall.run, RdbRoller.flush, h]
  | feed cols =>
      cases hd : RdbRoller.chunkDate (cols.map Trade.time) with
      | error e => simp only [RollCall.run, RdbRoller.feed_of_error r hd]
      | ok day =>
          simp only [RollCall.run, RdbRoller.feed_of_ok r hd, RdbRoller.afterFeed, insert_hdb,
            RdbRoller.roll_none h]
  | feedQuote cols =>
      cases hd : RdbRoller.chunkDate (cols.map Quote.time) with
      | error e => simp only [RollCall.run, RdbRoller.feedQuote_of_error r hd]
      | ok day =>
          simp only [RollCall.run, RdbRoller.feedQuote_of_ok r hd, RdbRoller.afterFeedQuote,
            insertQuote_hdb, RdbRoller.roll_none h]

/-- A call that saves the current day down. -/
theorem run_hdb_of_saves (h : r.currentDay = some dt) (hc : c.Saves dt) :
    (c.run r).writer.hdb = (r.writer.savedown dt).hdb := by
  cases c with
  | flush => simp only [RollCall.run, RdbRoller.flush, h]
  | feed cols =>
      obtain ⟨day, hd, hlt⟩ := hc.resolve_left (fun hf => RollCall.noConfusion hf)
      simp only [RollCall.run, RdbRoller.feed_of_ok r hd, RdbRoller.afterFeed, insert_hdb,
        RdbRoller.roll_past h hlt]
  | feedQuote cols =>
      obtain ⟨day, hd, hlt⟩ := hc.resolve_left (fun hf => RollCall.noConfusion hf)
      simp only [RollCall.run, RdbRoller.feedQuote_of_ok r hd, RdbRoller.afterFeedQuote,
        insertQuote_hdb, RdbRoller.roll_past h hlt]

theorem rollRaising_past (h : r.currentDay = some dt) {day : Date} (hlt : dt < day)
    (hp : p.Writes r.writer) :
    r.rollRaising day p = ({ r with writer := (r.writer.savedownRaising dt p).1 }, true) := by
  unfold RdbRoller.rollRaising
  simp only [h, if_pos hlt, savedownRaising_raised r.writer dt hp]
  rfl

/-- A failed flush has no current day any more; a failed roll still has it, and its chunk is
not inserted. -/
theorem runRaising_eq (h : r.currentDay = some dt) (hc : c.Saves dt) (hp : p.Writes r.writer) :
    c.runRaising r p = { writer := (r.writer.savedownRaising dt p).1,
                         currentDay := if c = .flush then none else some dt } := by
  cases c with
  | flush =>
      rw [if_pos rfl]
      simp only [RollCall.runRaising, RdbRoller.flushRaising, h]
  | feed cols =>
      obtain ⟨day, hd, hlt⟩ := hc.resolve_left (fun hf => RollCall.noConfusion hf)
      rw [if_neg (fun hf => RollCall.noConfusion hf), ← h]
      simp only [RollCall.runRaising, hd, rollRaising_past h hlt hp, if_true]
  | feedQuote cols =>
      obtain ⟨day, hd, hlt⟩ := hc.resolve_left (fun hf => RollCall.noConfusion hf)
      rw [if_neg (fun hf => RollCall.noConfusion hf), ← h]
      simp only [RollCall.runRaising, hd, rollRaising_past h hlt hp, if_true]

end

/-- **A failed savedown and its retry.** For every writer and day, every save that fails, and
every two calls that save a day down: the day's partitions end as a savedown that did not fail
would have left them exactly when `RetrySafe` holds. -/
theorem retry_iff (r : RdbRoller) (dt : Date) (hday : r.currentDay = some dt) (p : Save)
    (hp : p.Writes r.writer) (first second : RollCall) (hfirst : first.Saves dt)
    (hsecond : second.Saves dt) :
    SameDay dt (second.run (first.runRaising r p)).writer.hdb (r.writer.savedown dt).hdb
      ↔ RetrySafe r.writer dt first p := by
  rw [runRaising_eq hday hfirst hp]
  by_cases hf : first = .flush
  · subst hf
    rw [if_pos rfl, run_hdb_of_none rfl]
    exact sameDay_unretried hp
  · rw [if_neg hf, run_hdb_of_saves rfl hsecond]
    exact sameDay_retried hp hf

/-- A day with one trade, and a trade of the next day. -/
def dayTrade : Trade := ⟨1577836800000, "BTCUSDT", "binance", 1, 100, 1, 1577836800000, false⟩
def nextDayTrade : Trade :=
  ⟨1577923200000, "BTCUSDT", "binance", 2, 101, 1, 1577923200000, false⟩

def oneTradeDay : RdbRoller := ⟨(HdbWriter.fresh Hdb.empty).insert [dayTrade], some 18262⟩

theorem saves_nextDayTrade : (RollCall.feed [nextDayTrade]).Saves 18262 :=
  Or.inr ⟨18263, rfl, by decide⟩

/-- The save of the trades fails when the next day's chunk arrives; fed again, the chunk saves
the day as it should be. -/
theorem retry_oneTradeDay :
    SameDay 18262 ((RollCall.feed [nextDayTrade]).run
        ((RollCall.feed [nextDayTrade]).runRaising oneTradeDay .trade)).writer.hdb
      (oneTradeDay.writer.savedown 18262).hdb :=
  (retry_iff oneTradeDay 18262 rfl .trade (by decide) (.feed [nextDayTrade])
    (.feed [nextDayTrade]) saves_nextDayTrade saves_nextDayTrade).mpr (by
      unfold RetrySafe PricesInTimeOrder
      decide +kernel)

/-- **A lost bar.** The save of the bars fails; the trades are cleared by then, so the retry
builds no bar. -/
theorem bars_lost : ¬ ∀ (r : RdbRoller) (dt : Date), r.currentDay = some dt →
    ∀ p : Save, p.Writes r.writer → ∀ first second : RollCall, first.Saves dt → second.Saves dt →
      SameDay dt (second.run (first.runRaising r p)).writer.hdb
        (r.writer.savedown dt).hdb := by
  intro h
  have hday := h oneTradeDay 18262 rfl .bar (by decide +kernel) (.feed [nextDayTrade])
    (.feed [nextDayTrade]) saves_nextDayTrade saves_nextDayTrade
  have hbar := hday.bar
  revert hbar
  decide +kernel

end NanoTick
