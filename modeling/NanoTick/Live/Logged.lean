import NanoTick.Live.Feeding
import Mathlib.Tactic

set_option autoImplicit false

/-! # The log and the store

`Feeding.log` only records what the main thread inserts. `logged_exec` ties it to the store: after
any run the store holds, with multiplicity, the rows it was started with, without the partitions a
savedown has replaced since, and every row of the log.
-/

namespace NanoTick

open Python Runs Dedup

/-- A table after some rows were inserted. What it was started with is still there, except the
partitions in whose place a day was saved: these are before the current day. -/
structure Received {ρ : Type} (mem₀ : List ρ) (p₀ : Parts Date ρ) (cur : Option Date)
    (mem : List ρ) (p : Parts Date ρ) (rows : List ρ) : Prop where
  kept : ∀ d, (∀ c, cur = some c → c ≤ d) → p.rowsAt d = p₀.rowsAt d
  stored : ∃ q : Parts Date ρ,
    (∀ d, q.rowsAt d = p₀.rowsAt d ∨ q.rowsAt d = [] ∧ ∃ c, cur = some c ∧ d < c)
      ∧ (mem : Multiset ρ) + p.rows = (mem₀ : Multiset ρ) + q.rows + (rows : Multiset ρ)

namespace Received

variable {ρ : Type} {mem₀ mem rows : List ρ} {p₀ p : Parts Date ρ} {cur : Option Date}

theorem refl (mem : List ρ) (p : Parts Date ρ) : Received mem p none mem p [] where
  kept := fun _ _ => rfl
  stored := ⟨p, fun _ => Or.inl rfl, (add_zero _).symm⟩

/-- Rows inserted into memory. -/
theorem append (h : Received mem₀ p₀ cur mem p rows) (new : List ρ) :
    Received mem₀ p₀ cur (mem ++ new) p (rows ++ new) where
  kept := h.kept
  stored := by
    obtain ⟨q, hq, hrows⟩ := h.stored
    refine ⟨q, hq, ?_⟩
    rw [← Multiset.coe_add, ← Multiset.coe_add, add_right_comm, hrows, add_assoc]

/-- The first chunk sets the day. -/
theorem first (h : Received mem₀ p₀ none mem p rows) (day : Date) :
    Received mem₀ p₀ (some day) mem p rows where
  kept := fun d _ => h.kept d (fun _ hc => by cases hc)
  stored := by
    obtain ⟨q, hq, hrows⟩ := h.stored
    refine ⟨q, fun d => Or.inl ?_, hrows⟩
    rcases hq d with hd | ⟨-, c, hc, -⟩
    · exact hd
    · cases hc

/-- **A savedown** of the current day replaces the partition the table was started with. -/
theorem saveTable (time : ρ → Int) (sym : ρ → Sym) {c day : Date} (hlt : c < day)
    (h : Received mem₀ p₀ (some c) mem p rows) :
    Received mem₀ p₀ (some day) [] (saveTable time sym c mem p).2 rows where
  kept := by
    intro d hd
    have hle : day ≤ d := hd day rfl
    rw [rowsAt_saveTable, if_neg (fun heq => absurd heq.1 (lt_of_lt_of_le hlt hle).ne')]
    refine h.kept d (fun c' hc' => ?_)
    cases hc'
    exact le_trans hlt.le hle
  stored := by
    obtain ⟨q, hq, hrows⟩ := h.stored
    have hconserve := saveTable_conserves time sym c mem p
    have hlater : ∀ d, q.rowsAt d = p₀.rowsAt d
        ∨ q.rowsAt d = [] ∧ ∃ c', some day = some c' ∧ d < c' := by
      intro d
      refine (hq d).imp_right (fun hgone => ⟨hgone.1, day, rfl, ?_⟩)
      obtain ⟨-, c', hc', hlt'⟩ := hgone
      cases hc'
      exact lt_trans hlt' hlt
    by_cases hmem : mem = []
    · refine ⟨q, hlater, ?_⟩
      rw [if_pos hmem, add_zero] at hconserve
      rw [hconserve, ← hrows]
      exact zero_add _
    · -- the partition it writes over is the one of the start
      refine ⟨q.save c [], fun d => ?_, ?_⟩
      · by_cases hd : d = c
        · subst hd
          exact Or.inr ⟨Parts.rowsAt_save_self d [] q, day, rfl, hlt⟩
        · rw [Parts.rowsAt_save_ne hd]
          exact hlater d
      · have hcur : q.rowsAt c = p.rowsAt c := by
          have hp : p.rowsAt c = p₀.rowsAt c := h.kept c (fun c' hc' => by cases hc'; exact le_rfl)
          rcases hq c with hqc | ⟨-, c', hc', hlt'⟩
          · rw [hqc, hp]
          · cases hc'
            exact absurd hlt' (lt_irrefl c)
        have herase := Parts.rows_save c [] q
        rw [hcur, Multiset.coe_nil, add_zero] at herase
        rw [if_neg hmem, hrows, ← herase] at hconserve
        refine add_right_cancel (b := (p.rowsAt c : Multiset ρ)) ?_
        rw [Multiset.coe_nil, zero_add, hconserve]
        abel

end Received

/-! ## The roller -/

namespace RdbRoller

/-- **A roll** inserts nothing. -/
theorem received_roll {ρ : Type} (time : ρ → Int) (sym : ρ → Sym) (mem : HdbWriter → List ρ)
    (parts : Hdb → Parts Date ρ) (hmem : ∀ w dt, mem (HdbWriter.savedown w dt) = [])
    (hsaved : ∀ w dt, parts (HdbWriter.savedown w dt).hdb
      = (saveTable time sym dt (mem w) (parts w.hdb)).2)
    {r : RdbRoller} {mem₀ rows : List ρ} {p₀ : Parts Date ρ}
    (h : Received mem₀ p₀ r.currentDay (mem r.writer) (parts r.writer.hdb) rows) (day : Date) :
    Received mem₀ p₀ (r.roll day).1.currentDay (mem (r.roll day).1.writer)
      (parts (r.roll day).1.writer.hdb) rows := by
  cases hc : r.currentDay with
  | none =>
      -- nothing to save: a bridge may have inserted rows, which stay
      rw [hc] at h
      rw [roll_none hc]
      exact h.first day
  | some cur =>
      by_cases hlt : cur < day
      · rw [hc] at h
        rw [roll_past hc hlt]
        show Received mem₀ p₀ (some day) (mem (r.writer.savedown cur)) _ rows
        rw [hmem, hsaved]
        exact h.saveTable time sym hlt
      · rw [roll_within hc (not_lt.mp hlt)]
        exact h

end RdbRoller

/-! ## The main thread -/

/-- The trade rows as the store holds them; a bridge's are read off memory. -/
def Inserted.storedTrades : Inserted → List Trade
  | .bridge rows => rows
  | .feed rows => rows.map Trade.ofRaw
  | .quotes _ => []

/-- The quote rows as the store holds them. -/
def Inserted.storedQuotes : Inserted → List Quote
  | .quotes rows => rows.map Quote.ofRaw
  | _ => []

namespace Feeding

/-- The store's trades and quotes are those of the start and those of the log. -/
structure Logged (w : HdbWriter) (r : RdbRoller) (log : List Inserted) : Prop where
  trades : Received w.trade w.hdb.trade r.currentDay r.writer.trade r.writer.hdb.trade
    (log.flatMap Inserted.storedTrades)
  quotes : Received w.quote w.hdb.quote r.currentDay r.writer.quote r.writer.hdb.quote
    (log.flatMap Inserted.storedQuotes)

section

variable {w : HdbWriter} {r : RdbRoller} {log : List Inserted}

theorem logged_start (symbols : List Sym) (w : HdbWriter) :
    Logged w (start symbols w).handler.roller (start symbols w).log :=
  ⟨Received.refl _ _, Received.refl _ _⟩

/-- An entry without rows. -/
theorem Logged.snoc_nil (h : Logged w r log) {e : Inserted} (htrades : e.storedTrades = [])
    (hquotes : e.storedQuotes = []) : Logged w r (log ++ [e]) := by
  refine ⟨?_, ?_⟩
  · rw [List.flatMap_append, List.flatMap_singleton, htrades, List.append_nil]
    exact h.trades
  · rw [List.flatMap_append, List.flatMap_singleton, hquotes, List.append_nil]
    exact h.quotes

/-- Trades inserted past the roller. -/
theorem Logged.insert (h : Logged w r log) (cols : List Trade) {e : Inserted}
    (htrades : e.storedTrades = cols.map Trade.ofRaw) (hquotes : e.storedQuotes = []) :
    Logged w { r with writer := r.writer.insert cols } (log ++ [e]) := by
  refine ⟨?_, ?_⟩
  · rw [List.flatMap_append, List.flatMap_singleton, htrades]
    exact h.trades.append _
  · rw [List.flatMap_append, List.flatMap_singleton, hquotes, List.append_nil]
    exact h.quotes

theorem Logged.insertQuote (h : Logged w r log) (cols : List Quote) :
    Logged w { r with writer := r.writer.insertQuote cols } (log ++ [.quotes cols]) := by
  refine ⟨?_, ?_⟩
  · rw [List.flatMap_append, List.flatMap_singleton]
    show Received _ _ _ _ _ (_ ++ [])
    rw [List.append_nil]
    exact h.trades
  · rw [List.flatMap_append, List.flatMap_singleton]
    exact h.quotes.append _

theorem Logged.roll (h : Logged w r log) (day : Date) : Logged w (r.roll day).1 log where
  trades := RdbRoller.received_roll Trade.time Trade.sym HdbWriter.trade Hdb.trade
    savedown_trade savedown_hdb_trade h.trades day
  quotes := RdbRoller.received_roll Quote.time Quote.sym HdbWriter.quote Hdb.quote
    savedown_quote savedown_hdb_quote h.quotes day

variable {h h' : FeedHandler}

/-- **A bridge.** -/
theorem logged_bridge (hi : Logged w h.roller log) (sv : Services) (s : Sym) (target : Option Int)
    (hroller : h'.roller =
      { h.roller with writer := (bridge sv h.roller.writer s target).writer }) :
    Logged w h'.roller (log ++ [.bridge (newRows h h')]) := by
  obtain ⟨cols, hcols⟩ := bridge_writer sv h.roller.writer s target
  rw [hcols] at hroller
  have hrows : newRows h h' = cols.map Trade.ofRaw := by
    rw [newRows, hroller, insert_trade, List.drop_left]
  rw [hrows, hroller]
  exact hi.insert cols rfl rfl

/-- **A chunk of trades.** -/
theorem logged_feed (hi : Logged w h.roller log) {s : Sym} {group : List Tick}
    (hok : h.feedGroup s group = .ok h') :
    Logged w h'.roller (log ++ [.feed (h.freshRows s group)]) := by
  rcases (FeedHandler.feedGroup_cases hok).1 with ⟨hnil, hroller⟩ | ⟨-, day, -, hroller⟩
  · rw [hnil, hroller]
    exact hi.snoc_nil rfl rfl
  · rw [hroller]
    exact (hi.roll day).insert (h.freshRows s group) rfl rfl

/-- **A chunk of quotes.** -/
theorem logged_quotes (hi : Logged w h.roller log) {s : Sym} {group : List QuoteTick}
    (hok : h.applyQuoteGroup s group = .ok h') :
    Logged w h'.roller (log ++ [.quotes (h.freshQuotes s group)]) := by
  rcases (FeedHandler.applyQuoteGroup_cases hok).1 with ⟨hnil, hroller⟩ | ⟨-, day, -, hroller⟩
  · rw [hnil, hroller]
    exact hi.snoc_nil rfl rfl
  · rw [hroller]
    exact (hi.roll day).insertQuote (h.freshQuotes s group)

end

section

variable {w : HdbWriter} {f f' : Feeding}

/-- **One step.** What is logged is what the store receives. -/
theorem logged_step {a : Action} (hi : Logged w f.handler.roller f.log)
    (hf : step f a = some f') : Logged w f'.handler.roller f'.log := by
  cases a with
  | startSymbol sv =>
      obtain ⟨s, symbols, h₁, -, hok, rfl⟩ := startSymbol_step hf
      have hbridge : Logged w h₁.roller (f.log ++ [.bridge (newRows f.handler h₁)]) :=
        logged_bridge hi sv s none (by rw [FeedHandler.startSymbol_eq hok])
      rw [(h₁.flagAll_frame (symbols = [])).1]
      exact hbridge
  | connect =>
      obtain ⟨-, rfl⟩ := connect_step hf
      rw [f.handler.onConnect_frame.1]
      exact hi
  | batch records =>
      obtain ⟨-, rfl⟩ := batch_step hf
      exact hi
  | rebridge sv =>
      obtain ⟨g, groups, h₁, -, hok, rfl⟩ := rebridge_step hf
      have hquiet : Logged w f.handler.roller (f.log ++ [.bridge (newRows f.handler f.handler)]) :=
        hi.snoc_nil (List.drop_length) rfl
      rcases FeedHandler.rebridgeGroup_cases hok with ⟨rfl | rfl, -⟩ | ⟨-, _, b, -, -, -, rfl⟩
      · exact hquiet
      · exact hquiet
      · exact logged_bridge hi sv g.1 (some b) rfl
  | feed =>
      obtain ⟨g, groups, h₁, -, hok, rfl⟩ := feed_step hf
      exact logged_feed hi hok
  | quoteGroup =>
      obtain ⟨g, groups, h₁, -, hok, rfl⟩ := quoteGroup_step hf
      exact logged_quotes hi hok

/-- **A run.** -/
theorem logged_exec {as : List Action} (hi : Logged w f.handler.roller f.log)
    (hf : exec step f as = some f') : Logged w f'.handler.roller f'.log :=
  exec_invariant (fun _ _ _ => logged_step) hi hf

end

/-- The ids inserted are those of the rows as stored. -/
theorem insertedIds_eq (log : List Inserted) (s : Sym) :
    insertedIds log s = idsOf s (log.flatMap Inserted.storedTrades) := by
  induction log with
  | nil => rfl
  | cons e log ih =>
      have hcons : insertedIds (e :: log) s = idsOf s e.trades ++ insertedIds log s :=
        idsOf_append s e.trades _
      rw [hcons, ih, List.flatMap_cons, idsOf_append]
      congr 1
      cases e with
      | bridge rows => rfl
      | feed rows => exact (idsOf_ofRaw s rows).symm
      | quotes rows => rfl

end Feeding

end NanoTick
