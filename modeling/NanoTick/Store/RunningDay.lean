import NanoTick.Basic.RunningMax
import NanoTick.Store.Roller
import Mathlib.Tactic

set_option autoImplicit false

/-! # The roller partitions chunks by the running maximum day

A roller fed trade and quote chunks in any mix keeps in memory the chunks of the greatest date
so far and has saved those of the earlier ones, each date once: a chunk belongs to the greatest
date up to it, also where its own date is earlier. `Partitioned` is the invariant, over the
whole history, and `partitioned_run` holds of every sequence of chunks.
-/

namespace NanoTick

open Python RunningMax

/-- A chunk given to the roller. -/
inductive Chunk where
  | trades (cols : List Trade)
  | quotes (cols : List Quote)
  deriving DecidableEq

namespace Chunk

/-- The UTC date of the chunk's last row. -/
def date : Chunk → Except PyErr Date
  | .trades cols => RdbRoller.chunkDate (cols.map Trade.time)
  | .quotes cols => RdbRoller.chunkDate (cols.map Quote.time)

/-- The times of the chunk's rows. -/
def times : Chunk → List Int
  | .trades cols => cols.map Trade.time
  | .quotes cols => cols.map Quote.time

/-- **The date of a chunk** is the UTC date of its last row, in `datetime`'s years; an empty chunk
has none. -/
theorem date_eq_ok {c : Chunk} {d : Date} : c.date = .ok d ↔ ∃ t, c.times.getLast? = some t
    ∧ (-62135596800000 ≤ t ∧ t < 253402300800000) ∧ d = t / msPerDay := by
  have hdate : c.date = RdbRoller.chunkDate c.times := by cases c <;> rfl
  rw [hdate, RdbRoller.chunkDate]
  cases c.times.getLast? with
  | none => simp
  | some t =>
      simp only [utcDate, Option.some.injEq, exists_eq_left']
      split
      · rename_i hyears
        simp [hyears, eq_comm]
      · rename_i hyears
        simp [hyears]

def feed (r : RdbRoller) : Chunk → Except PyErr (RdbRoller × FeedResult)
  | .trades cols => r.feed cols
  | .quotes cols => r.feedQuote cols

def insert (w : HdbWriter) : Chunk → HdbWriter
  | .trades cols => w.insert cols
  | .quotes cols => w.insertQuote cols

/-- The rows a chunk brings to either table. -/
def tradeRows : Chunk → List Trade
  | .trades cols => cols.map Trade.ofRaw
  | .quotes _ => []

def quoteRows : Chunk → List Quote
  | .trades _ => []
  | .quotes cols => cols.map Quote.ofRaw

section

variable (w : HdbWriter) (c : Chunk)

@[simp] theorem insert_hdb : (c.insert w).hdb = w.hdb := by
  cases c <;> rfl

@[simp] theorem insert_trade : (c.insert w).trade = w.trade ++ c.tradeRows := by
  cases c with
  | trades cols => rfl
  | quotes cols => exact (List.append_nil _).symm

@[simp] theorem insert_quote : (c.insert w).quote = w.quote ++ c.quoteRows := by
  cases c with
  | trades cols => exact (List.append_nil _).symm
  | quotes cols => rfl

end

/-- A chunk with a date rolls to it and is inserted. -/
theorem feed_of_ok (r : RdbRoller) {c : Chunk} {d : Date} (h : c.date = .ok d) :
    ∃ n, c.feed r = .ok ({ (r.roll d).1 with writer := c.insert (r.roll d).1.writer },
      ⟨n, (r.roll d).1.currentDay, (r.roll d).2⟩) := by
  cases c with
  | trades cols => exact ⟨_, RdbRoller.feed_of_ok r h⟩
  | quotes cols => exact ⟨_, RdbRoller.feedQuote_of_ok r h⟩

theorem feed_of_error (r : RdbRoller) {c : Chunk} {e : PyErr} (h : c.date = .error e) :
    c.feed r = .error e := by
  cases c with
  | trades cols => exact RdbRoller.feed_of_error r h
  | quotes cols => exact RdbRoller.feedQuote_of_error r h

end Chunk

/-- A roller and the dates it has passed to `savedown`, in order. -/
structure Fed where
  roller : RdbRoller
  saved : List Date

namespace Fed

/-- A fresh roller over an empty database. -/
def start : Fed := ⟨RdbRoller.fresh Hdb.empty, []⟩

/-- Feed one chunk. A chunk without a date (an empty one, or one whose last row is out of
`datetime`'s years) raises before anything is done. -/
def step (s : Fed) (c : Chunk) : Fed :=
  match c.feed s.roller with
  | .ok (r, res) => ⟨r, s.saved ++ res.rolled.toList⟩
  | .error _ => s

def run (cs : List Chunk) : Fed := cs.foldl step start

/-- The chunks that have a date, with it. -/
def dated (cs : List Chunk) : List (Date × Chunk) :=
  cs.filterMap (fun c =>
    match c.date with
    | .ok d => some (d, c)
    | .error _ => none)

/-- The rows of the chunks fed while the running maximum of the dates was `d`, in feed
order. -/
def tradesOn (cs : List Chunk) (d : Date) : List Trade :=
  (classAt d (dated cs)).flatMap Chunk.tradeRows

def quotesOn (cs : List Chunk) (d : Date) : List Quote :=
  (classAt d (dated cs)).flatMap Chunk.quoteRows

/-- What a roller holds after the chunks `cs`. -/
structure Partitioned (cs : List Chunk) (s : Fed) : Prop where
  current : s.roller.currentDay = peak none (dated cs)
  increasing : s.saved.Pairwise (fun a b => a < b)
  saved : ∀ d, d ∈ s.saved ↔ s.roller.currentDay ≠ some d
    ∧ ∃ e ∈ classed none (dated cs), e.1 = d
  trade : ∀ d, s.roller.writer.hdb.trade.rowsAt d
    = if s.roller.currentDay = some d then []
      else storedRows Trade.time Trade.sym (tradesOn cs d)
  quote : ∀ d, s.roller.writer.hdb.quote.rowsAt d
    = if s.roller.currentDay = some d then []
      else storedRows Quote.time Quote.sym (quotesOn cs d)
  tradeMemory : s.roller.writer.trade = s.roller.currentDay.elim [] (tradesOn cs)
  quoteMemory : s.roller.writer.quote = s.roller.currentDay.elim [] (quotesOn cs)
  allTrades : s.roller.writer.storedTrades
    = ((dated cs).flatMap (fun e => e.2.tradeRows) : List Trade)
  allQuotes : s.roller.writer.storedQuotes
    = ((dated cs).flatMap (fun e => e.2.quoteRows) : List Quote)

/-- The chunks that count are those with a last row in `datetime`'s years, under its date. -/
theorem mem_dated {cs : List Chunk} {d : Date} {c : Chunk} : (d, c) ∈ dated cs ↔ c ∈ cs
    ∧ ∃ t, c.times.getLast? = some t ∧ (-62135596800000 ≤ t ∧ t < 253402300800000)
      ∧ d = t / msPerDay := by
  rw [← Chunk.date_eq_ok, dated, List.mem_filterMap]
  constructor
  · rintro ⟨c', hc', hd⟩
    cases hdate : c'.date with
    | error e =>
        rw [hdate] at hd
        cases hd
    | ok d' =>
        rw [hdate] at hd
        cases hd
        exact ⟨hc', hdate⟩
  · rintro ⟨hc, hd⟩
    exact ⟨c, hc, by rw [hd]⟩

/-! ## One chunk -/

theorem dated_concat (cs : List Chunk) {c : Chunk} {d : Date} (h : c.date = .ok d) :
    dated (cs ++ [c]) = dated cs ++ [(d, c)] := by
  simp [dated, h]

theorem dated_concat_error (cs : List Chunk) {c : Chunk} {e : PyErr} (h : c.date = .error e) :
    dated (cs ++ [c]) = dated cs := by
  simp [dated, h]

theorem tradesOn_concat (cs : List Chunk) {c : Chunk} {d : Date} (h : c.date = .ok d) (x : Date) :
    tradesOn (cs ++ [c]) x = tradesOn cs x
      ++ (if upTo (peak none (dated cs)) d = x then c.tradeRows else []) := by
  rw [tradesOn, dated_concat cs h, classAt_concat, List.flatMap_append]
  congr 1
  split
  · exact List.flatMap_singleton _ _
  · rfl

theorem quotesOn_concat (cs : List Chunk) {c : Chunk} {d : Date} (h : c.date = .ok d) (x : Date) :
    quotesOn (cs ++ [c]) x = quotesOn cs x
      ++ (if upTo (peak none (dated cs)) d = x then c.quoteRows else []) := by
  rw [quotesOn, dated_concat cs h, classAt_concat, List.flatMap_append]
  congr 1
  split
  · exact List.flatMap_singleton _ _
  · rfl

/-- A chunk without a date changes nothing. -/
theorem step_of_error (s : Fed) {c : Chunk} {e : PyErr} (h : c.date = .error e) :
    s.step c = s := by
  rw [step, c.feed_of_error s.roller h]

/-- A chunk with a date: the roll, then the insertion. -/
theorem step_of_ok (s : Fed) {c : Chunk} {d : Date} (h : c.date = .ok d) :
    s.step c = ⟨{ (s.roller.roll d).1 with writer := c.insert (s.roller.roll d).1.writer },
      s.saved ++ (s.roller.roll d).2.toList⟩ := by
  obtain ⟨n, hfeed⟩ := Chunk.feed_of_ok s.roller h
  rw [step, hfeed]

theorem partitioned_start : Partitioned [] start where
  current := rfl
  increasing := List.Pairwise.nil
  saved := by
    intro d
    constructor
    · intro hd
      exact absurd hd List.not_mem_nil
    · rintro ⟨-, e, he, -⟩
      exact absurd he List.not_mem_nil
  trade := fun d => Parts.rowsAt_empty d
  quote := fun d => Parts.rowsAt_empty d
  tradeMemory := rfl
  quoteMemory := rfl
  allTrades := rfl
  allQuotes := rfl

/-! ### The roll -/

/-- What a roller holds when it has rolled to `m` and not yet inserted the chunk. -/
structure Ready (cs : List Chunk) (m : Date) (s : Fed) : Prop where
  current : s.roller.currentDay = some m
  increasing : s.saved.Pairwise (fun a b => a < b)
  saved : ∀ d, d ∈ s.saved ↔ m ≠ d ∧ ∃ e ∈ classed none (dated cs), e.1 = d
  trade : ∀ d, s.roller.writer.hdb.trade.rowsAt d
    = if m = d then [] else storedRows Trade.time Trade.sym (tradesOn cs d)
  quote : ∀ d, s.roller.writer.hdb.quote.rowsAt d
    = if m = d then [] else storedRows Quote.time Quote.sym (quotesOn cs d)
  tradeMemory : s.roller.writer.trade = tradesOn cs m
  quoteMemory : s.roller.writer.quote = quotesOn cs m
  allTrades : s.roller.writer.storedTrades
    = ((dated cs).flatMap (fun e => e.2.tradeRows) : List Trade)
  allQuotes : s.roller.writer.storedQuotes
    = ((dated cs).flatMap (fun e => e.2.quoteRows) : List Quote)

theorem Partitioned.ready {cs : List Chunk} {s : Fed} (h : Partitioned cs s) {m : Date}
    (hm : s.roller.currentDay = some m) : Ready cs m s where
  current := hm
  increasing := h.increasing
  saved := by
    intro d
    rw [h.saved, hm]
    simp
  trade := by
    intro d
    rw [h.trade, hm]
    simp
  quote := by
    intro d
    rw [h.quote, hm]
    simp
  tradeMemory := by rw [h.tradeMemory, hm]; rfl
  quoteMemory := by rw [h.quoteMemory, hm]; rfl
  allTrades := h.allTrades
  allQuotes := h.allQuotes

/-- A table after its current date `cur` was saved: `f` is what each date has, and the new
date has nothing yet. -/
theorem rowsAt_saved {ρ : Type} {time : ρ → Int} {sym : ρ → Sym} {p : Parts Date ρ}
    {f : Date → List ρ} {cur d : Date} (hlt : cur < d)
    (hp : ∀ x, p.rowsAt x = if cur = x then [] else storedRows time sym (f x)) (hd : f d = [])
    (x : Date) : (saveTable time sym cur (f cur) p).2.rowsAt x
      = if d = x then [] else storedRows time sym (f x) := by
  rw [rowsAt_saveTable, hp]
  by_cases hx : x = cur
  · subst hx
    rw [if_neg hlt.ne', if_pos rfl]
    by_cases hf : f x = []
    · rw [if_neg (fun h => h.2 hf), hf]
      rfl
    · rw [if_pos ⟨rfl, hf⟩]
  · rw [if_neg (fun h => hx h.1), if_neg (fun h => hx h.symm)]
    by_cases hdx : d = x
    · subst hdx
      rw [if_pos rfl, hd]
      rfl
    · rw [if_neg hdx]

theorem ready_past {cs : List Chunk} {s : Fed} (h : Partitioned cs s) {cur d : Date}
    (hcur : s.roller.currentDay = some cur) (hlt : cur < d) :
    Ready cs d ⟨⟨s.roller.writer.savedown cur, some d⟩, s.saved ++ [cur]⟩ := by
  have hready := h.ready hcur
  have hpeak : peak none (dated cs) = some cur := by rw [← h.current, hcur]
  obtain ⟨hlast, hle⟩ := (peak_spec (dated cs)).2 cur hpeak
  have htrades : tradesOn cs d = [] := by rw [tradesOn, classAt_above hpeak hlt]; rfl
  have hquotes : quotesOn cs d = [] := by rw [quotesOn, classAt_above hpeak hlt]; rfl
  -- the partition that is written held nothing
  have hapartT : s.roller.writer.hdb.trade.rowsAt cur = [] := by
    rw [hready.trade, if_pos rfl]
  have hapartQ : s.roller.writer.hdb.quote.rowsAt cur = [] := by
    rw [hready.quote, if_pos rfl]
  constructor
  · rfl
  · refine List.pairwise_append.mpr ⟨h.increasing, List.pairwise_singleton _ _, ?_⟩
    intro x hx y hy
    rw [List.mem_singleton.mp hy]
    obtain ⟨hne, e, he, rfl⟩ := (hready.saved x).mp hx
    exact lt_of_le_of_ne (hle e he) (Ne.symm hne)
  · intro x
    show x ∈ s.saved ++ [cur] ↔ _
    rw [List.mem_append, List.mem_singleton, hready.saved]
    constructor
    · rintro (⟨-, e, he, rfl⟩ | rfl)
      · exact ⟨(lt_of_le_of_lt (hle e he) hlt).ne', e, he, rfl⟩
      · exact ⟨hlt.ne', hlast⟩
    · rintro ⟨-, hx⟩
      by_cases hxc : x = cur
      · exact Or.inr hxc
      · exact Or.inl ⟨Ne.symm hxc, hx⟩
  · intro x
    show (s.roller.writer.savedown cur).hdb.trade.rowsAt x = _
    rw [savedown_hdb_trade, hready.tradeMemory]
    exact rowsAt_saved hlt hready.trade htrades x
  · intro x
    show (s.roller.writer.savedown cur).hdb.quote.rowsAt x = _
    rw [savedown_hdb_quote, hready.quoteMemory]
    exact rowsAt_saved hlt hready.quote hquotes x
  · show (s.roller.writer.savedown cur).trade = _
    rw [savedown_trade, htrades]
  · show (s.roller.writer.savedown cur).quote = _
    rw [savedown_quote, hquotes]
  · have hkept := storedTrades_savedown s.roller.writer cur
    rw [hapartT] at hkept
    simpa [h.allTrades] using hkept
  · have hkept := storedQuotes_savedown s.roller.writer cur
    rw [hapartQ] at hkept
    simpa [h.allQuotes] using hkept

/-- **The roll** to a chunk's date makes the greatest date so far the current one. -/
theorem ready_roll {cs : List Chunk} {s : Fed} (h : Partitioned cs s) (d : Date) :
    Ready cs (upTo (peak none (dated cs)) d)
      ⟨(s.roller.roll d).1, s.saved ++ (s.roller.roll d).2.toList⟩ := by
  rw [← h.current]
  cases hc : s.roller.currentDay with
  | none =>
      have hnil : dated cs = [] := (peak_spec (dated cs)).1 (by rw [← h.current, hc])
      have htrades : ∀ x, tradesOn cs x = [] := fun x => by rw [tradesOn, hnil]; rfl
      have hquotes : ∀ x, quotesOn cs x = [] := fun x => by rw [quotesOn, hnil]; rfl
      have hpartsT : ∀ x, s.roller.writer.hdb.trade.rowsAt x = [] := by
        intro x
        rw [h.trade, htrades]
        split <;> rfl
      have hpartsQ : ∀ x, s.roller.writer.hdb.quote.rowsAt x = [] := by
        intro x
        rw [h.quote, hquotes]
        split <;> rfl
      rw [RdbRoller.roll_none hc, Option.toList_none, List.append_nil]
      constructor
      · rfl
      · exact h.increasing
      · intro x
        rw [h.saved, hnil]
        simp [classed]
      · intro x
        rw [htrades]
        refine (hpartsT x).trans ?_
        split <;> rfl
      · intro x
        rw [hquotes]
        refine (hpartsQ x).trans ?_
        split <;> rfl
      · rw [htrades]
        show s.roller.writer.trade = []
        rw [h.tradeMemory, hc]
        rfl
      · rw [hquotes]
        show s.roller.writer.quote = []
        rw [h.quoteMemory, hc]
        rfl
      · exact h.allTrades
      · exact h.allQuotes
  | some cur =>
      by_cases hlt : cur < d
      · rw [RdbRoller.roll_past hc hlt, upTo_of_lt hlt]
        exact ready_past h hc hlt
      · rw [RdbRoller.roll_within hc (not_lt.mp hlt), upTo_of_le (not_lt.mp hlt),
          Option.toList_none, List.append_nil]
        exact h.ready hc

/-! ### The insertion -/

theorem storedTrades_chunk (w : HdbWriter) (c : Chunk) :
    (c.insert w).storedTrades = w.storedTrades + (c.tradeRows : Multiset Trade) := by
  cases c with
  | trades cols => exact storedTrades_insert w cols
  | quotes cols => exact (add_zero _).symm

theorem storedQuotes_chunk (w : HdbWriter) (c : Chunk) :
    (c.insert w).storedQuotes = w.storedQuotes + (c.quoteRows : Multiset Quote) := by
  cases c with
  | trades cols => exact (add_zero _).symm
  | quotes cols => exact storedQuotes_insertQuote w cols

theorem Ready.insert {cs : List Chunk} {c : Chunk} {d : Date} {s : Fed}
    (h : Ready cs (upTo (peak none (dated cs)) d) s) (hd : c.date = .ok d) :
    Partitioned (cs ++ [c])
      ⟨{ s.roller with writer := c.insert s.roller.writer }, s.saved⟩ := by
  have hdated := dated_concat cs hd
  constructor
  · rw [hdated, peak_concat]
    exact h.current
  · exact h.increasing
  · intro x
    rw [hdated, classed_concat, h.current]
    refine (h.saved x).trans ?_
    constructor
    · rintro ⟨hne, e, he, hx⟩
      exact ⟨fun heq => hne (Option.some.inj heq), e, List.mem_append_left _ he, hx⟩
    · rintro ⟨hne, e, he, rfl⟩
      refine ⟨fun heq => hne (congrArg some heq), ?_⟩
      rcases List.mem_append.mp he with he | he
      · exact ⟨e, he, rfl⟩
      · rw [List.mem_singleton.mp he] at hne
        exact absurd rfl hne
  · intro x
    rw [tradesOn_concat cs hd, Chunk.insert_hdb, h.trade, h.current]
    by_cases hx : upTo (peak none (dated cs)) d = x <;> simp [hx]
  · intro x
    rw [quotesOn_concat cs hd, Chunk.insert_hdb, h.quote, h.current]
    by_cases hx : upTo (peak none (dated cs)) d = x <;> simp [hx]
  · rw [Chunk.insert_trade, h.tradeMemory, h.current]
    simp [tradesOn_concat cs hd]
  · rw [Chunk.insert_quote, h.quoteMemory, h.current]
    simp [quotesOn_concat cs hd]
  · rw [storedTrades_chunk, h.allTrades, hdated, List.flatMap_append, ← Multiset.coe_add]
    simp
  · rw [storedQuotes_chunk, h.allQuotes, hdated, List.flatMap_append, ← Multiset.coe_add]
    simp

/-- One chunk keeps the partition. -/
theorem partitioned_step {cs : List Chunk} {s : Fed} (h : Partitioned cs s) (c : Chunk) :
    Partitioned (cs ++ [c]) (s.step c) := by
  cases hd : c.date with
  | ok d =>
      rw [step_of_ok s hd]
      exact (ready_roll h d).insert hd
  | error e =>
      have hsame := dated_concat_error cs hd
      have htrades : tradesOn (cs ++ [c]) = tradesOn cs := by
        funext x
        rw [tradesOn, tradesOn, hsame]
      have hquotes : quotesOn (cs ++ [c]) = quotesOn cs := by
        funext x
        rw [quotesOn, quotesOn, hsame]
      rw [step_of_error s hd]
      constructor
      · rw [hsame]
        exact h.current
      · exact h.increasing
      · rw [hsame]
        exact h.saved
      · rw [htrades]
        exact h.trade
      · rw [hquotes]
        exact h.quote
      · rw [htrades]
        exact h.tradeMemory
      · rw [hquotes]
        exact h.quoteMemory
      · rw [hsame]
        exact h.allTrades
      · rw [hsame]
        exact h.allQuotes

/-- **The roller partitions chunks by the running maximum day.** After any sequence of trade and
quote chunks, with any times: the dates saved down are strictly increasing; each holds the rows
of the chunks fed while it was the greatest date so far, as the writer sorts them; memory holds
those of the greatest date of all; and every row is stored once. -/
theorem partitioned_run (cs : List Chunk) : Partitioned cs (run cs) := by
  induction cs using List.reverseRecOn with
  | nil => exact partitioned_start
  | append_singleton cs c ih =>
      have hrun : run (cs ++ [c]) = (run cs).step c := by
        rw [run, List.foldl_append]
        rfl
      rw [hrun]
      exact partitioned_step ih c

/-- A trade, and a quote, of a time and an id. -/
def tradeAt (ms id : Int) : Trade := ⟨ms, "BTCUSDT", "binance", id, 100, 1, ms, false⟩
def quoteAt (ms id : Int) : Quote := ⟨ms, "BTCUSDT", "binance", id, 99, 1, 101, 1⟩

/-- Trades of day 0, quotes that move on to day 1, and trades whose last row is back on day 0. -/
def backAgain : List Chunk :=
  [.trades [tradeAt 5 1, tradeAt 2 2], .quotes [quoteAt 0 7, quoteAt msPerDay 8],
    .trades [tradeAt msPerDay 3, tradeAt 9 4]]

/-- The late chunk stays with day 1. -/
theorem partitioned_backAgain : Partitioned backAgain (run backAgain)
    ∧ (run backAgain).saved = [0]
    ∧ ((run backAgain).roller.writer.hdb.trade.rowsAt 0).map Trade.tradeID = [2, 1]
    ∧ (run backAgain).roller.writer.trade.map Trade.tradeID = [3, 4] := by
  refine ⟨partitioned_run backAgain, ?_⟩
  decide +kernel

end Fed

end NanoTick
