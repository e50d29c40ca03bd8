import NanoTick.Basic.Runs
import NanoTick.Live.FeedHandler
import NanoTick.Store.Held
import Mathlib.Tactic

set_option autoImplicit false

/-! # What a run inserts

The main thread of the feed handler against any surroundings: batches of any records, connects
at any time, and at every bridge a REST of its own. A round of `_apply_trades` is two steps, the
re-bridge and the feed, so that what a re-bridge inserted counts even where the feed raises.

`Increasing` is the invariant when REST answers a request from id `f` with any ascending list of
ids from `f` on: the ids inserted for a symbol ascend, the floor is at or above all of them, and
they are still in the store, so that the resume point a bridge reads is too.
-/

namespace NanoTick

open Python Runs Dedup

/-! ## What a bridge inserts -/

/-- A request from id `f` is answered with ascending trades from `f` on, and the resume point of
the store is the true maximum. -/
structure Services.Honest (sv : Services) : Prop where
  resume : sv.maxStoredId = HdbWriter.trueMaxId
  ascending : ∀ s n f fetched, sv.fetchTrades s n f = .ok fetched →
    Paging.Ascending RestTrade.id fetched ∧ ∀ t ∈ fetched, f ≤ t.id

section

variable {sv : Services} (hsv : sv.Honest) (symbol : Sym) (target : Option Int)

include hsv

/-- The rows of a page, in ascending order, from the id asked for. -/
theorem ascending_page {n : Nat} {f : Int} {fetched : List RestTrade}
    (h : sv.fetchTrades symbol n f = .ok fetched) (p : RestTrade → Bool) :
    Paging.Ascending Trade.tradeID (parseRestTrades (fetched.filter p) symbol sv.venue)
      ∧ ∀ r ∈ parseRestTrades (fetched.filter p) symbol sv.venue,
          r.sym = symbol ∧ f ≤ r.tradeID := by
  obtain ⟨hasc, hge⟩ := hsv.ascending symbol n f fetched h
  refine ⟨List.pairwise_map.mpr (hasc.filter p), fun r hr => ?_⟩
  obtain ⟨t, ht, rfl⟩ := List.mem_map.mp hr
  exact ⟨rfl, hge t (List.mem_filter.mp ht).1⟩

/-- **The paging loop** inserts rows of its symbol, in ascending order from `start` on. -/
theorem bridgeLoop_inserts (from_ : Int) (rounds n : Nat) (start : Int) (w : HdbWriter)
    (inserted : Nat) : ∃ cols : List Trade,
      (bridgeLoop sv symbol target from_ rounds n start w inserted).writer
          = w.insert cols
        ∧ Paging.Ascending Trade.tradeID cols ∧ ∀ r ∈ cols, r.sym = symbol ∧ start ≤ r.tradeID := by
  have hnone : ∀ (w : HdbWriter) (start : Int), ∃ cols : List Trade, w = w.insert cols
      ∧ Paging.Ascending Trade.tradeID cols ∧ ∀ r ∈ cols, r.sym = symbol ∧ start ≤ r.tradeID :=
    fun w _ =>
      ⟨[], (insert_nil w).symm, List.Pairwise.nil, fun r hr => absurd hr List.not_mem_nil⟩
  induction rounds generalizing n start w inserted with
  | zero => exact hnone w start
  | succ rounds ih =>
      rw [bridgeLoop]
      split
      · cases hfetch : sv.fetchTrades symbol n start with
        | error e => exact hnone w start
        | ok fetched =>
            obtain ⟨hasc, hmem⟩ :=
              ascending_page hsv symbol hfetch (fun t => belowTarget target t.id)
            dsimp only
            cases hlast : (fetched.filter (fun t => belowTarget target t.id)).getLast? with
            | none => exact hnone w start
            | some last =>
                dsimp only
                split
                · exact ⟨_, rfl, hasc, hmem⟩
                · -- the next page starts above the last row of this one
                  obtain ⟨cols, hw, hasc', hmem'⟩ := ih (n + 1) (last.id + 1) (w.insert _) _
                  have hids := ((hsv.ascending symbol n start fetched hfetch).1).filter
                    (fun t => belowTarget target t.id)
                  have hle : ∀ r ∈ parseRestTrades
                      (fetched.filter (fun t => belowTarget target t.id)) symbol sv.venue,
                      r.tradeID ≤ last.id := by
                    intro r hr
                    obtain ⟨t, ht, rfl⟩ := List.mem_map.mp hr
                    exact hids.le_last hlast ht
                  refine ⟨_, hw.trans (insert_insert w _ cols), ?_, ?_⟩
                  · refine List.pairwise_append.mpr ⟨hasc, hasc', fun r hr r' hr' => ?_⟩
                    have hlast := (hmem' r' hr').2
                    have hr := hle r hr
                    omega
                  · intro r hr
                    rcases List.mem_append.mp hr with hr | hr
                    · exact hmem r hr
                    · refine ⟨(hmem' r hr).1, ?_⟩
                      have hstart : start ≤ last.id := by
                        have hin := List.mem_of_getLast? hlast
                        exact (hmem _ (List.mem_map_of_mem hin)).2
                      have := (hmem' r hr).2
                      omega
      · exact hnone w start

/-- **A bridge** inserts rows of its symbol, ascending and above every id stored for it. -/
theorem bridge_inserts_above (w : HdbWriter) : ∃ cols : List Trade,
    (bridge sv w symbol target).writer = w.insert cols
      ∧ Paging.Ascending Trade.tradeID cols
      ∧ ∀ r ∈ cols, r.sym = symbol ∧ ∀ k ∈ w.ids symbol, k < r.tradeID := by
  unfold bridge
  rw [hsv.resume]
  cases hfloor : w.trueMaxId symbol with
  | none =>
      exact ⟨[], (insert_nil w).symm, List.Pairwise.nil, fun r hr => absurd hr List.not_mem_nil⟩
  | some floor =>
      obtain ⟨cols, hw, hasc, hmem⟩ := bridgeLoop_inserts hsv symbol target (floor + 1)
        (sv.rounds symbol) 0 (floor + 1) w 0
      refine ⟨cols, hw, hasc, fun r hr => ⟨(hmem r hr).1, fun k hk => ?_⟩⟩
      have hle : k ≤ floor := (trueMaxId_eq_some.mp hfloor).2 k hk
      have hge : floor + 1 ≤ r.tradeID := (hmem r hr).2
      omega

end

/-! ## The main thread -/

/-- What the main thread gives to the store: the rows of a bridge, or a chunk it hands to the
roller. -/
inductive Inserted where
  | bridge (rows : List Trade)
  | feed (rows : List Trade)
  | quotes (rows : List Quote)

/-- The trade rows inserted. -/
def Inserted.trades : Inserted → List Trade
  | .bridge rows => rows
  | .feed rows => rows
  | .quotes _ => []

/-- The trade rows handed to the roller. -/
def Inserted.fed : Inserted → List Trade
  | .feed rows => rows
  | _ => []

/-- The quote rows handed to the roller. -/
def Inserted.fedQuotes : Inserted → List Quote
  | .quotes rows => rows
  | _ => []

/-- The ids of a symbol's rows. -/
def idsOf (s : Sym) (rows : List Trade) : List Int :=
  (rows.filter (fun r => decide (r.sym = s))).map Trade.tradeID

/-- The ids of a symbol's quote rows. -/
def quoteIdsOf (s : Sym) (rows : List Quote) : List Int :=
  (rows.filter (fun r => decide (r.sym = s))).map Quote.updateID

/-- The handler, and what of a batch it still has to apply; `bridged` is set between the
re-bridge and the feed of a group. `log` is only recorded. -/
structure Feeding where
  handler : FeedHandler
  starting : List Sym
  trades : List (Sym × List Tick)
  bridged : Bool
  quotes : List (Sym × List QuoteTick)
  log : List Inserted

namespace Feeding

/-- What can happen next: the startup of a symbol, a connect, a batch taken from the queue, the
two halves of a round of `_apply_trades`, a round of `_apply_quotes`. -/
inductive Action where
  | startSymbol (sv : Services)
  | connect
  | batch (records : List Record)
  | rebridge (sv : Services)
  | feed
  | quoteGroup

/-- What a bridge of the action asks is answered honestly. -/
def Action.Honest : Action → Prop
  | .startSymbol sv => sv.Honest
  | .rebridge sv => sv.Honest
  | _ => True

def start (symbols : List Sym) (w : HdbWriter) : Feeding where
  handler := FeedHandler.new symbols w
  starting := symbols
  trades := []
  bridged := false
  quotes := []
  log := []

/-- The rows a handler holds in memory past those of another. -/
def newRows (h h' : FeedHandler) : List Trade :=
  h'.roller.writer.trade.drop h.roller.writer.trade.length

/-- One step. A call that raises ends the process: there is no next state. -/
def step (f : Feeding) : Action → Option Feeding
  | .startSymbol sv =>
      match f.starting with
      | [] => none
      | s :: symbols =>
          match f.handler.startSymbol sv s with
          | .error _ => none
          | .ok h => some { f with
              handler := if symbols = [] then h.flagAll else h
              starting := symbols
              log := f.log ++ [.bridge (newRows f.handler h)] }
  | .connect => if f.starting = [] then some { f with handler := f.handler.onConnect } else none
  | .batch records =>
      -- a batch is taken when the last one is applied
      if f.starting = [] ∧ f.trades = [] ∧ f.quotes = [] then
        some { f with
          trades := FeedHandler.bySymbol Tick.symbol (tradesOf records)
          quotes := FeedHandler.bySymbol QuoteTick.symbol (quotesOf records) }
      else none
  | .rebridge sv =>
      match f.trades with
      | [] => none
      | g :: _ =>
          if f.bridged then none
          else
            match f.handler.rebridgeGroup sv g.1 g.2 with
            | .error _ => none
            | .ok h => some { f with
                handler := h
                bridged := true
                log := f.log ++ [.bridge (newRows f.handler h)] }
  | .feed =>
      match f.trades with
      | [] => none
      | g :: groups =>
          if f.bridged then
            match f.handler.feedGroup g.1 g.2 with
            | .error _ => none
            | .ok h => some { f with
                handler := h
                trades := groups
                bridged := false
                log := f.log ++ [.feed (f.handler.freshRows g.1 g.2)] }
          else none
  | .quoteGroup =>
      match f.quotes with
      | [] => none
      | g :: groups =>
          if f.trades = [] then
            match f.handler.applyQuoteGroup g.1 g.2 with
            | .error _ => none
            | .ok h => some { f with
                handler := h
                quotes := groups
                log := f.log ++ [.quotes (f.handler.freshQuotes g.1 g.2)] }
          else none

/-- The ids inserted for a symbol, by bridges and by the roller, in order. -/
def insertedIds (log : List Inserted) (s : Sym) : List Int :=
  idsOf s (log.flatMap Inserted.trades)

/-- The trade ids handed to the roller for a symbol. -/
def fedIds (log : List Inserted) (s : Sym) : List Int :=
  idsOf s (log.flatMap Inserted.fed)

/-- The quote ids handed to the roller for a symbol. -/
def fedQuoteIds (log : List Inserted) (s : Sym) : List Int :=
  quoteIdsOf s (log.flatMap Inserted.fedQuotes)

end Feeding

/-! ## The ids inserted ascend -/

theorem idsOf_append (s : Sym) (a b : List Trade) : idsOf s (a ++ b) = idsOf s a ++ idsOf s b := by
  rw [idsOf, List.filter_append, List.map_append]
  rfl

theorem mem_idsOf {s : Sym} {rows : List Trade} {k : Int} :
    k ∈ idsOf s rows ↔ ∃ r ∈ rows, r.sym = s ∧ r.tradeID = k := by
  simp only [idsOf, List.mem_map, List.mem_filter, decide_eq_true_eq, and_assoc]

/-- The times of stored rows do not matter to their ids. -/
theorem idsOf_ofRaw (s : Sym) (rows : List Trade) :
    idsOf s (rows.map Trade.ofRaw) = idsOf s rows := by
  rw [idsOf, List.filter_map, List.map_map]
  rfl

theorem idsOf_ascending {s : Sym} {rows : List Trade}
    (h : Paging.Ascending Trade.tradeID rows) : (idsOf s rows).Pairwise (· < ·) :=
  List.pairwise_map.mpr (h.filter _)

theorem idsOf_of_ne {s s' : Sym} {rows : List Trade} (h : ∀ r ∈ rows, r.sym = s') (hne : s ≠ s') :
    idsOf s rows = [] := by
  rw [idsOf, List.filter_eq_nil_iff.mpr]
  · rfl
  · intro r hr hs
    exact hne ((of_decide_eq_true hs).symm.trans (h r hr))

namespace Feeding

theorem insertedIds_snoc (log : List Inserted) (e : Inserted) (s : Sym) :
    insertedIds (log ++ [e]) s = insertedIds log s ++ idsOf s e.trades := by
  rw [insertedIds, List.flatMap_append, idsOf_append, List.flatMap_singleton]
  rfl

/-- The id is one of a row the roller holds. -/
def HeldId (r : RdbRoller) (s : Sym) (k : Int) : Prop :=
  ∃ x : Trade, r.HoldsTrade x ∧ x.sym = s ∧ x.tradeID = k

/-- What was inserted for a symbol so far, next to the handler. -/
structure Increasing (h : FeedHandler) (log : List Inserted) (s : Sym) : Prop where
  ascending : (insertedIds log s).Pairwise (· < ·)
  below : ∀ k ∈ insertedIds log s, ∃ m, h.lastId s = some m ∧ k ≤ m
  held : ∀ k ∈ insertedIds log s, HeldId h.roller s k

theorem increasing_start (symbols : List Sym) (w : HdbWriter) (s : Sym) :
    Increasing (FeedHandler.new symbols w) [] s where
  ascending := List.Pairwise.nil
  below := fun _ hk => absurd hk List.not_mem_nil
  held := fun _ hk => absurd hk List.not_mem_nil

variable {h h' : FeedHandler} {log : List Inserted} {s : Sym}

/-- **One insertion.** Rows that ascend above everything inserted before, that the roller then
holds, and a floor at or above all of them. -/
theorem Increasing.insert (hi : Increasing h log s) {e : Inserted}
    (hasc : (idsOf s e.trades).Pairwise (· < ·))
    (hnew : ∀ j ∈ insertedIds log s, ∀ k ∈ idsOf s e.trades, j < k)
    (hkeep : ∀ x, h.roller.HoldsTrade x → h'.roller.HoldsTrade x)
    (hheld : ∀ k ∈ idsOf s e.trades, HeldId h'.roller s k)
    (hbelow : ∀ k ∈ insertedIds log s ++ idsOf s e.trades, ∃ m, h'.lastId s = some m ∧ k ≤ m) :
    Increasing h' (log ++ [e]) s := by
  refine ⟨?_, ?_, ?_⟩
  · rw [insertedIds_snoc]
    exact List.pairwise_append.mpr ⟨hi.ascending, hasc, hnew⟩
  · rw [insertedIds_snoc]
    exact hbelow
  · intro k hk
    rw [insertedIds_snoc] at hk
    rcases List.mem_append.mp hk with hk | hk
    · obtain ⟨x, hx, hs, hid⟩ := hi.held k hk
      exact ⟨x, hkeep x hx, hs, hid⟩
    · exact hheld k hk

/-- Nothing inserted for the symbol, and its floor where it was. -/
theorem Increasing.frame (hi : Increasing h log s) {e : Inserted} (hnil : idsOf s e.trades = [])
    (hkeep : ∀ x, h.roller.HoldsTrade x → h'.roller.HoldsTrade x)
    (hlast : h'.lastId s = h.lastId s) : Increasing h' (log ++ [e]) s := by
  refine hi.insert ?_ ?_ hkeep ?_ ?_ <;> rw [hnil]
  · exact List.Pairwise.nil
  · exact fun _ _ k hk => absurd hk List.not_mem_nil
  · exact fun k hk => absurd hk List.not_mem_nil
  · rw [List.append_nil, hlast]
    exact hi.below

/-- **A bridge**, and the floor read back from the store after it. -/
theorem increasing_bridge (hi : Increasing h log s) {sv : Services} (hsv : sv.Honest) (s' : Sym)
    (target : Option Int)
    (hroller : h'.roller =
      { h.roller with writer := (bridge sv h.roller.writer s' target).writer })
    (hlast : h'.lastId = Function.update h.lastId s' (h'.roller.writer.trueMaxId s')) :
    Increasing h' (log ++ [.bridge (newRows h h')]) s := by
  obtain ⟨cols, hw, hasc, hmem⟩ := bridge_inserts_above hsv s' target h.roller.writer
  rw [hw] at hroller
  have hrows : newRows h h' = cols.map Trade.ofRaw := by
    rw [newRows, hroller, insert_trade, List.drop_left]
  have hids : idsOf s (newRows h h') = idsOf s cols := by rw [hrows, idsOf_ofRaw]
  have hheld : ∀ x, h.roller.HoldsTrade x → h'.roller.HoldsTrade x := by
    rw [hroller]
    exact (RdbRoller.holdsTrade_insert cols).1
  have hcols : ∀ k ∈ idsOf s cols, HeldId h'.roller s k := by
    intro k hk
    obtain ⟨r, hr, hs, hid⟩ := mem_idsOf.mp hk
    refine ⟨r.ofRaw, ?_, hs, hid⟩
    rw [hroller]
    exact (RdbRoller.holdsTrade_insert cols).2 r hr
  by_cases hs : s = s'
  · subst hs
    refine hi.insert (e := .bridge (newRows h h')) ?_ ?_ hheld ?_ ?_ <;>
      rw [show idsOf s (Inserted.bridge (newRows h h')).trades = idsOf s cols from hids]
    · exact idsOf_ascending hasc
    · -- what was inserted before is still stored, so the bridge starts above it
      intro j hj k hk
      obtain ⟨x, hx, rfl, rfl⟩ := hi.held j hj
      obtain ⟨r, hr, -, rfl⟩ := mem_idsOf.mp hk
      exact (hmem r hr).2 x.tradeID hx.mem_ids
    · exact hcols
    · intro k hk
      have hstored : k ∈ h'.roller.writer.ids s := by
        have hid : HeldId h'.roller s k := by
          rcases List.mem_append.mp hk with hk | hk
          · obtain ⟨x, hx, hxs, hid⟩ := hi.held k hk
            exact ⟨x, hheld x hx, hxs, hid⟩
          · exact hcols k hk
        obtain ⟨x, hx, rfl, rfl⟩ := hid
        exact hx.mem_ids
      rw [hlast, Function.update_self]
      cases hmax : h'.roller.writer.trueMaxId s with
      | none => exact absurd hstored (trueMaxId_eq_none.mp hmax k)
      | some m => exact ⟨m, rfl, (trueMaxId_eq_some.mp hmax).2 k hstored⟩
  · refine hi.frame (e := .bridge (newRows h h')) ?_ hheld ?_
    · exact hids.trans (idsOf_of_ne (fun r hr => (hmem r hr).1) hs)
    · rw [hlast, Function.update_of_ne hs]

/-- What leaves the roller and the floors alone. -/
theorem Increasing.congr (hi : Increasing h log s) (hroller : h'.roller = h.roller)
    (hlast : h'.lastId = h.lastId) : Increasing h' log s := by
  refine ⟨hi.ascending, ?_, ?_⟩
  · rw [hlast]
    exact hi.below
  · rw [hroller]
    exact hi.held

theorem increasing_startSymbol (hi : Increasing h log s) {sv : Services} (hsv : sv.Honest)
    {s' : Sym} (hok : h.startSymbol sv s' = .ok h') :
    Increasing h' (log ++ [.bridge (newRows h h')]) s := by
  have heq := FeedHandler.startSymbol_eq hok
  have hroller : h'.roller
      = { h.roller with writer := (bridge sv h.roller.writer s' none).writer } := by
    rw [heq]
  refine increasing_bridge hi hsv s' none hroller ?_
  rw [hroller]
  conv_lhs => rw [heq]
  rw [hsv.resume]

/-- **A re-bridge**, or none: then no row is inserted. -/
theorem increasing_rebridge (hi : Increasing h log s) {sv : Services} (hsv : sv.Honest) {s' : Sym}
    {group : List Tick}
    (hok : h.rebridgeGroup sv s' group = .ok h') :
    Increasing h' (log ++ [.bridge (newRows h h')]) s := by
  have hquiet : h'.roller = h.roller → h'.lastId = h.lastId →
      Increasing h' (log ++ [.bridge (newRows h h')]) s := by
    intro hroller hlast
    have hnil : newRows h h' = [] := by rw [newRows, hroller, List.drop_length]
    rw [hnil]
    refine hi.frame (e := .bridge []) rfl ?_ (by rw [hlast])
    rw [hroller]
    exact fun x hx => hx
  rcases FeedHandler.rebridgeGroup_cases hok with ⟨rfl | rfl, -⟩ | ⟨-, _, b, -, -, -, rfl⟩
  · exact hquiet rfl rfl
  · exact hquiet rfl rfl
  · refine increasing_bridge hi hsv s' (some b) rfl ?_
    show Function.update h.lastId s' (sv.maxStoredId _ s') = _
    rw [hsv.resume]
    rfl

/-- **The feed of a group** inserts its ids above the floor, and raises the floor to all of
them. -/
theorem increasing_feed (hi : Increasing h log s) {s' : Sym} {group : List Tick}
    (hsym : ∀ t ∈ group, t.symbol = s') (hok : h.feedGroup s' group = .ok h') :
    Increasing h' (log ++ [.feed (h.freshRows s' group)]) s := by
  obtain ⟨hcases, heq⟩ := FeedHandler.feedGroup_cases hok
  have hkeep : (∀ x, h.roller.HoldsTrade x → h'.roller.HoldsTrade x)
      ∧ ∀ x ∈ h.freshRows s' group, h'.roller.HoldsTrade x.ofRaw := by
    rcases hcases with ⟨hnil, hroller⟩ | ⟨-, day, -, hroller⟩
    · rw [hroller, hnil]
      exact ⟨fun x hx => hx, fun x hx => absurd hx List.not_mem_nil⟩
    · rw [hroller]
      exact ⟨(RdbRoller.holdsTrade_afterFeed day _).1, (RdbRoller.holdsTrade_afterFeed day _).2.1⟩
  have hrows : ∀ r ∈ h.freshRows s' group, r.sym = s' ∧ (∃ t ∈ group, t.tradeId = r.tradeID)
      ∧ isAbove (h.lastId s') r.tradeID = true := by
    intro r hr
    have hrsym : r.sym = s' := by
      obtain ⟨t, ht, rfl⟩ := List.mem_map.mp hr
      exact hsym t (mem_of_mem_dedup ht).1
    exact ⟨hrsym, ((FeedHandler.mem_freshRows hsym s' r.tradeID).mp ⟨r, hr, hrsym, rfl⟩).2⟩
  by_cases hs : s = s'
  · subst hs
    have hlast := FeedHandler.feedGroup_lastId hok
    have hraised : ∀ k, isAbove (h'.lastId s) k = true →
        isAbove (h.lastId s) k = true ∧ ∀ j ∈ group.map Tick.tradeId, j < k := by
      intro k hk
      rw [hlast] at hk
      exact isAbove_foldl_raise.mp hk
    refine hi.insert (e := .feed (h.freshRows s group)) ?_ ?_ hkeep.1 ?_ ?_
    · have hasc : Paging.Ascending Trade.tradeID (h.freshRows s group) :=
        List.pairwise_map.mpr (ascending_dedup group (h.lastId s))
      exact idsOf_ascending hasc
    · intro j hj k hk
      obtain ⟨m, hm, hle⟩ := hi.below j hj
      obtain ⟨r, hr, -, rfl⟩ := mem_idsOf.mp hk
      have habove := (hrows r hr).2.2
      rw [hm, isAbove_some] at habove
      exact lt_of_le_of_lt hle habove
    · intro k hk
      obtain ⟨r, hr, hrs, hid⟩ := mem_idsOf.mp hk
      exact ⟨r.ofRaw, hkeep.2 r hr, hrs, hid⟩
    · -- an id that is not above the raised floor is at or below it
      intro k hk
      have hnot : isAbove (h'.lastId s) k = false := by
        rw [Bool.eq_false_iff]
        intro habove
        obtain ⟨hold, hall⟩ := hraised k habove
        rcases List.mem_append.mp hk with hk | hk
        · obtain ⟨m, hm, hle⟩ := hi.below k hk
          rw [hm, isAbove_some] at hold
          exact absurd hle (not_le.mpr hold)
        · obtain ⟨r, hr, -, rfl⟩ := mem_idsOf.mp hk
          obtain ⟨t, ht, hid⟩ := (hrows r hr).2.1
          exact lt_irrefl _ (hall r.tradeID (List.mem_map.mpr ⟨t, ht, hid⟩))
      cases hm : h'.lastId s with
      | none =>
          rw [hm] at hnot
          cases hnot
      | some m =>
          rw [hm] at hnot
          exact ⟨m, rfl, not_lt.mp (of_decide_eq_false hnot)⟩
  · refine hi.frame (e := .feed (h.freshRows s' group)) ?_ hkeep.1 ?_
    · exact idsOf_of_ne (fun r hr => (hrows r hr).1) hs
    · rw [heq]
      exact Function.update_of_ne hs _ _

/-- Quotes may roll the day; they insert no trade. -/
theorem increasing_quoteGroup (hi : Increasing h log s) {s' : Sym} {group : List QuoteTick}
    (hok : h.applyQuoteGroup s' group = .ok h') :
    Increasing h' (log ++ [.quotes (h.freshQuotes s' group)]) s := by
  obtain ⟨hcases, lastQuoteId, heq⟩ := FeedHandler.applyQuoteGroup_cases hok
  refine hi.frame (e := .quotes (h.freshQuotes s' group)) rfl ?_ (by rw [heq])
  rcases hcases with ⟨-, hroller⟩ | ⟨-, day, -, hroller⟩
  · rw [hroller]
    exact fun x hx => hx
  · rw [hroller]
    exact (RdbRoller.holdsQuote_afterFeedQuote day _).2.2

/-! ### Steps -/

section

variable {f f' : Feeding}

theorem startSymbol_step {sv : Services} (hf : step f (.startSymbol sv) = some f') :
    ∃ s symbols h₁, f.starting = s :: symbols
      ∧ f.handler.startSymbol sv s = .ok h₁
      ∧ f' = { f with
          handler := if symbols = [] then h₁.flagAll else h₁
          starting := symbols
          log := f.log ++ [.bridge (newRows f.handler h₁)] } := by
  dsimp only [step] at hf
  split at hf
  · cases hf
  · rename_i s symbols hstarting
    split at hf
    · cases hf
    · rename_i h₁ hok
      exact ⟨s, symbols, h₁, hstarting, hok, (Option.some.inj hf).symm⟩

theorem connect_step (hf : step f .connect = some f') :
    f.starting = [] ∧ f' = { f with handler := f.handler.onConnect } := by
  dsimp only [step] at hf
  obtain ⟨hstarted, hf⟩ := Option.ite_none_right_eq_some.mp hf
  exact ⟨hstarted, (Option.some.inj hf).symm⟩

theorem batch_step {records : List Record} (hf : step f (.batch records) = some f') :
    (f.starting = [] ∧ f.trades = [] ∧ f.quotes = []) ∧ f' = { f with
      trades := FeedHandler.bySymbol Tick.symbol (tradesOf records)
      quotes := FeedHandler.bySymbol QuoteTick.symbol (quotesOf records) } := by
  dsimp only [step] at hf
  obtain ⟨hidle, hf⟩ := Option.ite_none_right_eq_some.mp hf
  exact ⟨hidle, (Option.some.inj hf).symm⟩

theorem rebridge_step {sv : Services} (hf : step f (.rebridge sv) = some f') :
    ∃ g groups h₁, f.trades = g :: groups
      ∧ f.handler.rebridgeGroup sv g.1 g.2 = .ok h₁
      ∧ f' = { f with
          handler := h₁
          bridged := true
          log := f.log ++ [.bridge (newRows f.handler h₁)] } := by
  dsimp only [step] at hf
  split at hf
  · cases hf
  · rename_i g groups htrades
    split at hf
    · cases hf
    · split at hf
      · cases hf
      · rename_i h₁ hok
        exact ⟨g, groups, h₁, htrades, hok, (Option.some.inj hf).symm⟩

theorem feed_step (hf : step f .feed = some f') :
    ∃ g groups h₁, f.trades = g :: groups ∧ f.handler.feedGroup g.1 g.2 = .ok h₁
      ∧ f' = { f with
          handler := h₁
          trades := groups
          bridged := false
          log := f.log ++ [.feed (f.handler.freshRows g.1 g.2)] } := by
  dsimp only [step] at hf
  split at hf
  · cases hf
  · rename_i g groups htrades
    split at hf
    · split at hf
      · cases hf
      · rename_i h₁ hok
        exact ⟨g, groups, h₁, htrades, hok, (Option.some.inj hf).symm⟩
    · cases hf

theorem quoteGroup_step (hf : step f .quoteGroup = some f') :
    ∃ g groups h₁, f.quotes = g :: groups ∧ f.handler.applyQuoteGroup g.1 g.2 = .ok h₁
      ∧ f' = { f with
          handler := h₁
          quotes := groups
          log := f.log ++ [.quotes (f.handler.freshQuotes g.1 g.2)] } := by
  dsimp only [step] at hf
  split at hf
  · cases hf
  · rename_i g groups hquotes
    split at hf
    · split at hf
      · cases hf
      · rename_i h₁ hok
        exact ⟨g, groups, h₁, hquotes, hok, (Option.some.inj hf).symm⟩
    · cases hf

/-- The invariant of a run: the groups under way are by symbol, and every symbol's insertions
ascend. -/
structure Inv (f : Feeding) : Prop where
  groups : ∀ g ∈ f.trades, ∀ t ∈ g.2, t.symbol = g.1
  increasing : ∀ s, Increasing f.handler f.log s

theorem inv_start (symbols : List Sym) (w : HdbWriter) : Inv (start symbols w) where
  groups := fun _ h => absurd h List.not_mem_nil
  increasing := increasing_start symbols w

theorem inv_step {a : Action} (hi : Inv f) (ha : a.Honest) (hf : step f a = some f') :
    Inv f' := by
  cases a with
  | startSymbol sv =>
      obtain ⟨s, symbols, h₁, -, hok, rfl⟩ := startSymbol_step hf
      refine ⟨hi.groups, fun q => ?_⟩
      obtain ⟨hroller, hlast, -⟩ := h₁.flagAll_frame (symbols = [])
      exact (increasing_startSymbol (hi.increasing q) ha hok).congr hroller hlast
  | connect =>
      obtain ⟨-, rfl⟩ := connect_step hf
      obtain ⟨hroller, hlast, -⟩ := f.handler.onConnect_frame
      exact ⟨hi.groups, fun q => (hi.increasing q).congr hroller hlast⟩
  | batch records =>
      obtain ⟨-, rfl⟩ := batch_step hf
      refine ⟨fun g hg t ht => ?_, hi.increasing⟩
      exact (FeedHandler.of_mem_group hg ht).2
  | rebridge sv =>
      obtain ⟨g, groups, h₁, -, hok, rfl⟩ := rebridge_step hf
      exact ⟨hi.groups, fun q => increasing_rebridge (hi.increasing q) ha hok⟩
  | feed =>
      obtain ⟨g, groups, h₁, htrades, hok, rfl⟩ := feed_step hf
      have hsym := hi.groups g (htrades ▸ List.mem_cons_self)
      refine ⟨fun g' hg' => hi.groups g' ?_, fun q => increasing_feed (hi.increasing q) hsym hok⟩
      rw [htrades]
      exact List.mem_cons_of_mem g hg'
  | quoteGroup =>
      obtain ⟨g, groups, h₁, -, hok, rfl⟩ := quoteGroup_step hf
      exact ⟨hi.groups, fun q => increasing_quoteGroup (hi.increasing q) hok⟩

/-- The invariant along a run. -/
theorem inv_exec {as : List Action} (hi : Inv f) (has : ∀ a ∈ as, a.Honest)
    (hf : exec step f as = some f') : Inv f' := by
  have hall : Always step Inv f as :=
    always_of_allSteps (fun _ _ _ hi ha h => inv_step hi ha h) hi (allSteps_of_forall has f)
  exact hall.last hf

end

end Feeding

end NanoTick
