import NanoTick.Backfill.Bridge
import NanoTick.Basic.Dedup
import NanoTick.Basic.Raising
import NanoTick.Store.Roller
import Mathlib.Tactic

set_option autoImplicit false

/-! # The live feed handler

`FeedHandler` (`resources/feedhandler.py`). The network thread only queues records; the main
thread bridges every symbol at startup, then drains the queue in batches, and deduplicates
each symbol's records of a batch against the highest id it has seen. A reconnect flags every
symbol: the first new trade of a flagged symbol bridges the gap below it over REST.

A callback or a call that raises ends the process; those are the errors here.
-/

namespace NanoTick

open Python Dedup

/-! ## Records -/

/-- A normalised trade record, as published on `ticks/`. -/
structure Tick where
  venue : String
  symbol : Sym
  tradeId : Int
  price : ℚ
  qty : ℚ
  eventTs : Int
  tradeTs : Int
  isBuyerMaker : Bool
  deriving DecidableEq, Repr

/-- A normalised quote record, as published on `quotes/`. -/
structure QuoteTick where
  venue : String
  symbol : Sym
  updateId : Int
  bid : ℚ
  bidQty : ℚ
  ask : ℚ
  askQty : ℚ
  recvTs : Int
  deriving DecidableEq, Repr

/-- A queued record. -/
inductive Record where
  | trade (t : Tick)
  | quote (q : QuoteTick)
  deriving DecidableEq, Repr

/-- One row of `parse_live_ticks`. -/
def Tick.parse (t : Tick) : Trade where
  time := toMillis t.tradeTs
  sym := t.symbol
  venue := t.venue
  tradeID := t.tradeId
  price := t.price
  qty := t.qty
  eventTime := toMillis t.eventTs
  buyerMaker := t.isBuyerMaker

/-- One row of `parse_live_quotes`. -/
def QuoteTick.parse (q : QuoteTick) : Quote where
  time := toMillis q.recvTs
  sym := q.symbol
  venue := q.venue
  updateID := q.updateId
  bid := q.bid
  bidSize := q.bidQty
  ask := q.ask
  askSize := q.askQty

/-- `parse_live_ticks`. -/
def parseLiveTicks (ticks : List Tick) : List Trade := ticks.map Tick.parse

/-- `parse_live_quotes`. -/
def parseLiveQuotes (quotes : List QuoteTick) : List Quote := quotes.map QuoteTick.parse

/-- The trades of a batch, in order. -/
def tradesOf (batch : List Record) : List Tick :=
  batch.filterMap (fun | .trade t => some t | .quote _ => none)

/-- The quotes of a batch, in order. -/
def quotesOf (batch : List Record) : List QuoteTick :=
  batch.filterMap (fun | .trade _ => none | .quote q => some q)

/-! ## The handler -/

/-- `QUEUE_MAXSIZE`. -/
def queueMaxsize : Nat := 200000

/-- `BATCH_MAX`. -/
def batchMax : Nat := 5000

/-- `FeedHandler`: a symbol missing from `_last_id` and one mapped to `None` read the same. -/
structure FeedHandler where
  symbols : List Sym
  roller : RdbRoller
  queue : List Record
  lastId : Sym → Option Int
  lastQuoteId : Sym → Option Int
  pendingRebridge : Finset Sym
  dropped : Nat
  stop : Bool
  connectedOnce : Bool

namespace FeedHandler

/-- A new handler over a writer. -/
def new (symbols : List Sym) (w : HdbWriter) : FeedHandler where
  symbols := symbols
  roller := ⟨w, none⟩
  queue := []
  lastId := fun _ => none
  lastQuoteId := fun _ => none
  pendingRebridge := ∅
  dropped := 0
  stop := false
  connectedOnce := false

/-! ### The network thread -/

/-- `_on_connect`: a reconnect flags every symbol. -/
def onConnect (h : FeedHandler) : FeedHandler :=
  if h.connectedOnce then { h with pendingRebridge := h.symbols.toFinset }
  else { h with connectedOnce := true }

/-- `_on_message`: `none` is a payload that is not a record; a full queue drops a record. -/
def onMessage (h : FeedHandler) (payload : Option Record) : FeedHandler :=
  match payload with
  | none => h
  | some r =>
      if h.queue.length < queueMaxsize then { h with queue := h.queue ++ [r] }
      else { h with dropped := h.dropped + 1 }

/-- `_request_stop`. -/
def requestStop (h : FeedHandler) : FeedHandler := { h with stop := true }

/-! ### The main thread -/

/-- `_by_symbol`: the records by symbol, symbols in order of first appearance. -/
def bySymbol {α : Type} (symbol : α → Sym) (items : List α) : List (Sym × List α) :=
  (items.map symbol).eraseDups.map
    (fun s => (s, items.filter (fun it => decide (symbol it = s))))

/-- `_drain`: as many records as a batch holds, in order. -/
def drain (h : FeedHandler) : List Record × FeedHandler :=
  (h.queue.take batchMax, { h with queue := h.queue.drop batchMax })

/-- The symbol's ids in a group above the highest id seen. -/
def newIds (h : FeedHandler) (sym : Sym) (trades : List Tick) : List Int :=
  (trades.map Tick.tradeId).filter (isAbove (h.lastId sym))

/-- `_maybe_rebridge`. -/
def maybeRebridge (sv : Services) (h : FeedHandler) (sym : Sym) (trades : List Tick) :
    Except PyErr FeedHandler :=
  match (h.newIds sym trades).min? with
  -- only stale records: the flag waits for the first new trade
  | none => .ok h
  | some firstNew =>
      let cleared := h.pendingRebridge.erase sym
      match h.lastId sym with
      -- no floor, so nothing to bridge from; the flag goes all the same
      | none => .ok { h with pendingRebridge := cleared }
      | some last =>
          if last + 1 < firstNew then
            let r := bridge sv h.roller.writer sym (some firstNew)
            match r.raised with
            | some e => .error e
            | none => .ok { h with
                roller := { h.roller with writer := r.writer }
                lastId := Function.update h.lastId sym (sv.maxStoredId r.writer sym)
                pendingRebridge := cleared }
          -- the first new trade follows the floor: what the group misses behind it stays missing
          else .ok { h with pendingRebridge := cleared }

/-- The re-bridge of one group, if its symbol is flagged. -/
def rebridgeGroup (sv : Services) (h : FeedHandler) (sym : Sym) (group : List Tick) :
    Except PyErr FeedHandler :=
  if sym ∈ h.pendingRebridge then maybeRebridge sv h sym group else .ok h

/-- The rest of one round of `_apply_trades`: dedup the group, feed what is fresh. -/
def feedGroup (h : FeedHandler) (sym : Sym) (group : List Tick) : Except PyErr FeedHandler :=
  let fresh := (dedup Tick.tradeId group (h.lastId sym)).1
  let lastId := Function.update h.lastId sym (dedup Tick.tradeId group (h.lastId sym)).2
  if fresh = [] then .ok { h with lastId := lastId }
  else do
    let (roller, _) ← h.roller.feed (parseLiveTicks fresh)
    return { h with roller := roller, lastId := lastId }

/-- One round of `_apply_trades`. -/
def applyGroup (sv : Services) (h : FeedHandler) (sym : Sym) (group : List Tick) :
    Except PyErr FeedHandler := do
  let h ← rebridgeGroup sv h sym group
  feedGroup h sym group

/-- `_apply_trades`. -/
def applyTrades (sv : Services) (h : FeedHandler) (trades : List Tick) :
    Except PyErr FeedHandler :=
  (bySymbol Tick.symbol trades).foldlM (fun h g => applyGroup sv h g.1 g.2) h

/-- One round of `_apply_quotes`. -/
def applyQuoteGroup (h : FeedHandler) (sym : Sym) (group : List QuoteTick) :
    Except PyErr FeedHandler :=
  let fresh := (dedup QuoteTick.updateId group (h.lastQuoteId sym)).1
  let lastQuoteId :=
    Function.update h.lastQuoteId sym (dedup QuoteTick.updateId group (h.lastQuoteId sym)).2
  if fresh = [] then .ok { h with lastQuoteId := lastQuoteId }
  else do
    let (roller, _) ← h.roller.feedQuote (parseLiveQuotes fresh)
    return { h with roller := roller, lastQuoteId := lastQuoteId }

/-- `_apply_quotes`. -/
def applyQuotes (h : FeedHandler) (quotes : List QuoteTick) : Except PyErr FeedHandler :=
  (bySymbol QuoteTick.symbol quotes).foldlM (fun h g => applyQuoteGroup h g.1 g.2) h

/-- The startup of one symbol in `run`: bridge to the tip, then read the resume points. -/
def startSymbol (sv : Services) (h : FeedHandler) (sym : Sym) : Except PyErr FeedHandler :=
  let r := bridge sv h.roller.writer sym none
  match r.raised with
  | some e => .error e
  | none => .ok { h with
      roller := { h.roller with writer := r.writer }
      lastId := Function.update h.lastId sym (sv.maxStoredId r.writer sym)
      lastQuoteId := Function.update h.lastQuoteId sym (sv.maxStoredQuoteId r.writer sym) }

/-- The end of the startup in `run`: the first live trade of each symbol closes its gap. -/
def flagAll (h : FeedHandler) : FeedHandler := { h with pendingRebridge := h.symbols.toFinset }

/-- `_shutdown`: flush the roller. -/
def shutdown (h : FeedHandler) : FeedHandler := { h with roller := h.roller.flush.1 }

/-! ## What each operation does -/

theorem mem_bySymbol {α : Type} {symbol : α → Sym} {items : List α} {g : Sym × List α} :
    g ∈ bySymbol symbol items
      ↔ (∃ it ∈ items, symbol it = g.1) ∧ g.2 = items.filter (fun it => decide (symbol it = g.1))
      := by
  rw [bySymbol, List.mem_map]
  constructor
  · rintro ⟨s, hs, rfl⟩
    exact ⟨List.mem_map.mp (List.mem_eraseDups.mp hs), rfl⟩
  · rintro ⟨hs, hg⟩
    exact ⟨g.1, List.mem_eraseDups.mpr (List.mem_map.mpr hs), Prod.ext rfl hg.symm⟩

/-- A record of a group is one of the batch, and of the group's symbol. -/
theorem of_mem_group {α : Type} {symbol : α → Sym} {items : List α} {g : Sym × List α} {it : α}
    (hg : g ∈ bySymbol symbol items) (hit : it ∈ g.2) : it ∈ items ∧ symbol it = g.1 := by
  obtain ⟨-, heq⟩ := mem_bySymbol.mp hg
  rw [heq] at hit
  exact ⟨(List.mem_filter.mp hit).1, of_decide_eq_true (List.mem_filter.mp hit).2⟩

/-- A connect only sets flags. -/
theorem onConnect_frame (h : FeedHandler) :
    h.onConnect.roller = h.roller ∧ h.onConnect.lastId = h.lastId
      ∧ h.onConnect.queue = h.queue := by
  unfold onConnect
  split
  · exact ⟨rfl, rfl, rfl⟩
  · exact ⟨rfl, rfl, rfl⟩

/-- The end of the startup only sets flags. -/
theorem flagAll_frame (p : Prop) [Decidable p] (h : FeedHandler) :
    (if p then h.flagAll else h).roller = h.roller
      ∧ (if p then h.flagAll else h).lastId = h.lastId
      ∧ (if p then h.flagAll else h).queue = h.queue := by
  split
  · exact ⟨rfl, rfl, rfl⟩
  · exact ⟨rfl, rfl, rfl⟩

/-- The handler after a re-bridge. -/
def afterRebridge (sv : Services) (h : FeedHandler) (sym : Sym) (firstNew : Int) : FeedHandler :=
  let w := (bridge sv h.roller.writer sym (some firstNew)).writer
  { h with
    roller := { h.roller with writer := w }
    lastId := Function.update h.lastId sym (sv.maxStoredId w sym)
    pendingRebridge := h.pendingRebridge.erase sym }

@[simp] theorem afterRebridge_writer (sv : Services) (h : FeedHandler) (sym : Sym) (b : Int) :
    (h.afterRebridge sv sym b).roller.writer = (bridge sv h.roller.writer sym (some b)).writer :=
  rfl

@[simp] theorem afterRebridge_lastId (sv : Services) (h : FeedHandler) (sym : Sym) (b : Int) :
    (h.afterRebridge sv sym b).lastId sym
      = sv.maxStoredId (bridge sv h.roller.writer sym (some b)).writer sym :=
  Function.update_self sym _ _

/-- **What the re-bridge of a group does.** Nothing, clear the flag, or bridge and clear the
flag; it bridges exactly when the symbol is flagged and its first new id jumps. -/
theorem rebridgeGroup_cases {sv : Services} {h h' : FeedHandler} {sym : Sym} {group : List Tick}
    (hok : rebridgeGroup sv h sym group = .ok h') :
    (h' = h ∨ h' = { h with pendingRebridge := h.pendingRebridge.erase sym })
        ∧ ¬(sym ∈ h.pendingRebridge ∧ ∃ last firstNew, h.lastId sym = some last
            ∧ (h.newIds sym group).min? = some firstNew ∧ last + 1 < firstNew)
      ∨ sym ∈ h.pendingRebridge ∧ ∃ last firstNew, h.lastId sym = some last
          ∧ (h.newIds sym group).min? = some firstNew ∧ last + 1 < firstNew
          ∧ h' = afterRebridge sv h sym firstNew := by
  unfold rebridgeGroup at hok
  by_cases hp : sym ∈ h.pendingRebridge
  · rw [if_pos hp] at hok
    unfold maybeRebridge at hok
    cases hmin : (h.newIds sym group).min? with
    | none =>
        rw [hmin] at hok
        cases hok
        refine Or.inl ⟨Or.inl rfl, ?_⟩
        rintro ⟨-, last, firstNew, -, hsome, -⟩
        cases hsome
    | some firstNew =>
        rw [hmin] at hok
        dsimp only at hok
        cases hlast : h.lastId sym with
        | none =>
            rw [hlast] at hok
            cases hok
            refine Or.inl ⟨Or.inr rfl, ?_⟩
            rintro ⟨-, last, -, hsome, -⟩
            cases hsome
        | some last =>
            rw [hlast] at hok
            dsimp only at hok
            by_cases hgap : last + 1 < firstNew
            · rw [if_pos hgap] at hok
              refine Or.inr ⟨hp, last, firstNew, rfl, rfl, hgap, ?_⟩
              cases hr : (bridge sv h.roller.writer sym (some firstNew)).raised with
              | some e =>
                  rw [hr] at hok
                  cases hok
              | none =>
                  rw [hr] at hok
                  exact (Except.ok.inj hok).symm
            · rw [if_neg hgap] at hok
              cases hok
              refine Or.inl ⟨Or.inr rfl, ?_⟩
              rintro ⟨-, l, f, hl, hf, hlt⟩
              cases hl
              cases hf
              exact hgap hlt
  · rw [if_neg hp] at hok
    cases hok
    exact Or.inl ⟨Or.inl rfl, fun hn => hp hn.1⟩

/-- The rows a group feeds to the roller. -/
def freshRows (h : FeedHandler) (sym : Sym) (group : List Tick) : List Trade :=
  parseLiveTicks (dedup Tick.tradeId group (h.lastId sym)).1

/-- The ids a group feeds: its ids above the floor. -/
theorem mem_freshRows {h : FeedHandler} {s : Sym} {g : List Tick} (hsym : ∀ t ∈ g, t.symbol = s)
    (s' : Sym) (k : Int) : (∃ r ∈ h.freshRows s g, r.sym = s' ∧ r.tradeID = k)
      ↔ s' = s ∧ (∃ t ∈ g, t.tradeId = k) ∧ isAbove (h.lastId s) k = true := by
  have hkeys := @key_mem_dedup _ Tick.tradeId g (h.lastId s) k
  rw [List.mem_map, List.mem_map] at hkeys
  constructor
  · rintro ⟨r, hr, hs, hk⟩
    obtain ⟨t, ht, rfl⟩ := List.mem_map.mp hr
    exact ⟨hs.symm.trans (hsym t (mem_of_mem_dedup ht).1), hkeys.mp ⟨t, ht, hk⟩⟩
  · rintro ⟨rfl, hk⟩
    obtain ⟨t, ht, hid⟩ := hkeys.mpr hk
    exact ⟨t.parse, List.mem_map_of_mem ht, hsym t (mem_of_mem_dedup ht).1, hid⟩

/-- **What the feed of a group does**: roll to the chunk's date and insert the fresh rows, if
there are any; raise the floor to every id of the group. -/
theorem feedGroup_cases {h h' : FeedHandler} {sym : Sym} {group : List Tick}
    (hok : feedGroup h sym group = .ok h') :
    (h.freshRows sym group = [] ∧ h'.roller = h.roller
      ∨ h.freshRows sym group ≠ [] ∧ ∃ day,
          RdbRoller.chunkDate ((h.freshRows sym group).map Trade.time) = .ok day
          ∧ h'.roller = h.roller.afterFeed day (h.freshRows sym group))
    ∧ h' = { h with
        roller := h'.roller
        lastId := Function.update h.lastId sym
          ((group.map Tick.tradeId).foldl raise (h.lastId sym)) } := by
  unfold feedGroup at hok
  dsimp only at hok
  rw [dedup_snd] at hok
  have hnil : h.freshRows sym group = [] ↔ (dedup Tick.tradeId group (h.lastId sym)).1 = [] :=
    List.map_eq_nil_iff
  by_cases hfresh : (dedup Tick.tradeId group (h.lastId sym)).1 = []
  · rw [if_pos hfresh] at hok
    cases hok
    exact ⟨Or.inl ⟨hnil.mpr hfresh, rfl⟩, rfl⟩
  · rw [if_neg hfresh] at hok
    cases hd : RdbRoller.chunkDate ((h.freshRows sym group).map Trade.time) with
    | error e =>
        rw [show parseLiveTicks _ = h.freshRows sym group from rfl,
          RdbRoller.feed_of_error _ hd] at hok
        cases hok
    | ok day =>
        rw [show parseLiveTicks _ = h.freshRows sym group from rfl,
          RdbRoller.feed_of_ok _ hd] at hok
        cases hok
        exact ⟨Or.inr ⟨fun hn => hfresh (hnil.mp hn), day, rfl, rfl⟩, rfl⟩

/-- The floor after a group: raised to every id of it. -/
theorem feedGroup_lastId {h h' : FeedHandler} {sym : Sym} {group : List Tick}
    (hok : feedGroup h sym group = .ok h') :
    h'.lastId sym = (group.map Tick.tradeId).foldl raise (h.lastId sym) := by
  rw [(feedGroup_cases hok).2]
  exact Function.update_self sym _ _

/-- The rows a group of quotes feeds to the roller. -/
def freshQuotes (h : FeedHandler) (sym : Sym) (group : List QuoteTick) : List Quote :=
  parseLiveQuotes (dedup QuoteTick.updateId group (h.lastQuoteId sym)).1

/-- **What a quote group does**: it touches no trade, and may roll the day. -/
theorem applyQuoteGroup_cases {h h' : FeedHandler} {sym : Sym} {group : List QuoteTick}
    (hok : applyQuoteGroup h sym group = .ok h') :
    (h.freshQuotes sym group = [] ∧ h'.roller = h.roller
      ∨ h.freshQuotes sym group ≠ [] ∧ ∃ day,
          RdbRoller.chunkDate ((h.freshQuotes sym group).map Quote.time) = .ok day
          ∧ h'.roller = h.roller.afterFeedQuote day (h.freshQuotes sym group))
    ∧ ∃ lastQuoteId, h' = { h with roller := h'.roller, lastQuoteId := lastQuoteId } := by
  unfold applyQuoteGroup at hok
  dsimp only at hok
  have hnil : h.freshQuotes sym group = []
      ↔ (dedup QuoteTick.updateId group (h.lastQuoteId sym)).1 = [] := List.map_eq_nil_iff
  by_cases hfresh : (dedup QuoteTick.updateId group (h.lastQuoteId sym)).1 = []
  · rw [if_pos hfresh] at hok
    cases hok
    exact ⟨Or.inl ⟨hnil.mpr hfresh, rfl⟩, _, rfl⟩
  · rw [if_neg hfresh] at hok
    cases hd : RdbRoller.chunkDate ((h.freshQuotes sym group).map Quote.time) with
    | error e =>
        rw [show parseLiveQuotes _ = h.freshQuotes sym group from rfl,
          RdbRoller.feedQuote_of_error _ hd] at hok
        cases hok
    | ok day =>
        rw [show parseLiveQuotes _ = h.freshQuotes sym group from rfl,
          RdbRoller.feedQuote_of_ok _ hd] at hok
        cases hok
        exact ⟨Or.inr ⟨fun hn => hfresh (hnil.mp hn), day, rfl, rfl⟩, _, rfl⟩

/-- **What the startup of a symbol does**, if its bridge does not raise. -/
theorem startSymbol_eq {sv : Services} {h h' : FeedHandler} {sym : Sym}
    (hok : startSymbol sv h sym = .ok h') :
    h' = { h with
      roller := { h.roller with writer := (bridge sv h.roller.writer sym none).writer }
      lastId := Function.update h.lastId sym
        (sv.maxStoredId (bridge sv h.roller.writer sym none).writer sym)
      lastQuoteId := Function.update h.lastQuoteId sym
        (sv.maxStoredQuoteId (bridge sv h.roller.writer sym none).writer sym) } := by
  unfold startSymbol at hok
  dsimp only at hok
  cases hr : (bridge sv h.roller.writer sym none).raised with
  | some e =>
      rw [hr] at hok
      cases hok
  | none =>
      rw [hr] at hok
      exact (Except.ok.inj hok).symm

/-- The symbol's floor after its startup is the resume point read back from the store. -/
theorem startSymbol_lastId {sv : Services} {h h' : FeedHandler} {sym : Sym}
    (hok : startSymbol sv h sym = .ok h') :
    h'.roller.writer = (bridge sv h.roller.writer sym none).writer
      ∧ h'.lastId sym = sv.maxStoredId h'.roller.writer sym := by
  rw [startSymbol_eq hok]
  exact ⟨rfl, Function.update_self sym _ _⟩

theorem applyGroup_eq_ok {sv : Services} {h h' : FeedHandler} {sym : Sym} {group : List Tick}
    (hok : applyGroup sv h sym group = .ok h') :
    ∃ h₁, rebridgeGroup sv h sym group = .ok h₁ ∧ feedGroup h₁ sym group = .ok h' :=
  Raising.bind_eq_ok.mp hok

end FeedHandler

end NanoTick
