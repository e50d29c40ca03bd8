import NanoTick.Basic.Runs
import NanoTick.Live.FeedHandler
import NanoTick.Store.StoredIds
import Mathlib.Tactic

set_option autoImplicit false

/-! # The live link

The feed handler together with what it is connected to. The exchange numbers each symbol's
trades 0, 1, 2, ...; REST serves every one published so far, and each is published to the
broker in order. The broker delivers in order while connected; between a disconnect and the
reconnect callback it may drop any message it still holds, and the handler's own queue may be
full. The main thread drains batches and applies them one group at a time, so that callbacks
of the network thread fall anywhere between two groups.

A bridge is one step here: the pages it read before a publication are the same after it, so
its last request decides what it inserts.
-/

namespace NanoTick

open Python

/-- The exchange: its trades by symbol and id, and how REST pages them. -/
structure Exchange where
  venue : String
  page : Nat
  page_pos : 0 < page
  trade : Sym → Nat → RestTrade
  id_trade : ∀ s n, (trade s n).id = n

namespace Exchange

/-- The trades of a symbol REST serves once `n` of them are published. -/
def served (ex : Exchange) (s : Sym) (n : Nat) : Server where
  trades := (List.range n).map (ex.trade s)
  ascending := by
    refine List.pairwise_map.mpr (List.pairwise_lt_range.imp ?_)
    intro i j hij
    rw [ex.id_trade, ex.id_trade]
    exact_mod_cast hij

/-- REST, and a store whose resume point is the true maximum. -/
def services (ex : Exchange) (published : Sym → Nat) : Services where
  venue := ex.venue
  page := ex.page
  fetchTrades := fun s _ f =>
    .ok (Paging.page RestTrade.id ex.page f (ex.served s (published s)).trades)
  rounds := fun s => published s + 1
  maxStoredId := HdbWriter.trueMaxId
  maxStoredQuoteId := HdbWriter.maxStoredQuoteId

@[simp] theorem services_maxStoredId (ex : Exchange) (published : Sym → Nat) (w : HdbWriter)
    (s : Sym) : (ex.services published).maxStoredId w s = w.trueMaxId s := rfl

theorem serves (ex : Exchange) (published : Sym → Nat) (s : Sym) :
    Serves (ex.services published) s (ex.served s (published s)) where
  fetch := fun _ _ => rfl
  page_pos := ex.page_pos
  rounds := by
    show ((List.range (published s)).map (ex.trade s)).length < published s + 1
    rw [List.length_map, List.length_range]
    exact Nat.lt_succ_self _

end Exchange

/-- The handler and its surroundings. `lossAt s` is set while a loss of a trade of `s` waits
for the first batch with a trade published after it: the number of trades published then. -/
structure Link where
  handler : FeedHandler
  starting : List Sym
  published : Sym → Nat
  broker : List Record
  connected : Bool
  trades : List (Sym × List Tick)
  quotes : List (Sym × List QuoteTick)
  lossAt : Sym → Option Nat

/-- What can happen next. A delivery that is not acknowledged will be made again. -/
inductive LinkAction where
  | publishTrade (t : Tick)
  | publishQuote (q : QuoteTick)
  | disconnect
  | brokerDrop (i : Nat)
  | connect
  | deliver (acked : Bool)
  | startSymbol
  | drain
  | group
  | quoteGroup
  deriving DecidableEq

namespace Link

/-- The loss marks after the record `r` is lost. -/
def lose (l : Link) : Record → Sym → Option Nat
  | .trade t => Function.update l.lossAt t.symbol (some (l.published t.symbol))
  | .quote _ => l.lossAt

/-- The loss marks after a group is applied: a trade published after the loss lifts them. -/
def settle (l : Link) (g : Sym × List Tick) : Sym → Option Nat :=
  if (l.lossAt g.1).all (fun n => g.2.any (fun t => decide ((n : Int) ≤ t.tradeId))) then
    Function.update l.lossAt g.1 none
  else l.lossAt

/-- One step. A call that raises ends the process: there is no next state. -/
def step (ex : Exchange) (l : Link) : LinkAction → Option Link
  | .publishTrade t =>
      -- ids are handed out in order, without gaps
      if t.tradeId = l.published t.symbol then
        some { l with
          published := Function.update l.published t.symbol (l.published t.symbol + 1)
          broker := l.broker ++ [.trade t] }
      else none
  | .publishQuote q => some { l with broker := l.broker ++ [.quote q] }
  | .disconnect => if l.connected then some { l with connected := false } else none
  | .brokerDrop i =>
      match l.broker[i]? with
      | none => none
      | some r =>
          -- only between a disconnect and the reconnect callback
          if l.connected then none
          else some { l with broker := l.broker.eraseIdx i, lossAt := l.lose r }
  | .connect =>
      if l.connected = false ∧ l.starting = [] then
        some { l with handler := l.handler.onConnect, connected := true }
      else none
  | .deliver acked =>
      match l.broker with
      | [] => none
      | r :: rest =>
          if l.connected then
            some { l with
              handler := l.handler.onMessage (some r)
              -- QoS 1: without the acknowledgement the message comes again
              broker := if acked then rest else l.broker
              lossAt :=
                if acked ∧ ¬ l.handler.queue.length < queueMaxsize then l.lose r else l.lossAt }
          else none
  | .startSymbol =>
      match l.starting with
      | [] => none
      | s :: rest =>
          match FeedHandler.startSymbol (ex.services l.published) l.handler s with
          | .error _ => none
          | .ok h =>
              some { l with handler := if rest = [] then h.flagAll else h, starting := rest }
  | .drain =>
      -- a batch is drained when the last one is applied, trades before quotes
      if l.starting = [] ∧ l.trades = [] ∧ l.quotes = [] ∧ l.handler.queue ≠ [] then
        some { l with
          handler := l.handler.drain.2
          trades := FeedHandler.bySymbol Tick.symbol (tradesOf l.handler.drain.1)
          quotes := FeedHandler.bySymbol QuoteTick.symbol (quotesOf l.handler.drain.1) }
      else none
  | .group =>
      match l.trades with
      | [] => none
      | g :: rest =>
          match FeedHandler.applyGroup (ex.services l.published) l.handler g.1 g.2 with
          | .error _ => none
          | .ok h => some { l with handler := h, trades := rest, lossAt := l.settle g }
  | .quoteGroup =>
      match l.quotes with
      | [] => none
      | g :: rest =>
          if l.trades = [] then
            match FeedHandler.applyQuoteGroup l.handler g.1 g.2 with
            | .error _ => none
            | .ok h => some { l with handler := h, quotes := rest }
          else none

/-- What a feed handler starts from: a store, the trades published so far, and what the broker
still holds from an earlier session. Every id stored or held was published. -/
structure Origin where
  writer : HdbWriter
  published : Sym → Nat
  backlog : List Record
  stored_published : ∀ r ∈ writer.storedTrades, 0 ≤ r.tradeID ∧ r.tradeID < (published r.sym : Int)
  backlog_published : ∀ t, .trade t ∈ backlog →
    0 ≤ t.tradeId ∧ t.tradeId < (published t.symbol : Int)

/-- The start of `run`: every symbol is still to be bridged. -/
def start (o : Origin) (symbols : List Sym) : Link where
  handler := FeedHandler.new symbols o.writer
  starting := symbols
  published := o.published
  broker := o.backlog
  connected := false
  trades := []
  quotes := []
  lossAt := fun _ => none

/-- The writer's ids of a symbol. -/
abbrev ids (l : Link) (s : Sym) : Multiset Int := l.handler.roller.writer.ids s

/-- Every id above the startup floor `f`, up to the highest seen, is stored. -/
def GapFree (l : Link) (s : Sym) (f : Int) : Prop :=
  ∀ last, l.handler.lastId s = some last → ∀ k, f < k → k ≤ last → k ∈ l.ids s

/-- No loss of a trade of `s` waits for a trade published after it. -/
def Settled (l : Link) (s : Sym) : Prop := l.lossAt s = none

/-- The id `k` is in the re-bridge of a group: the symbol is flagged, the store holds some id
of it, and `k` lies below every new id of the group. -/
def Bridged (h : FeedHandler) (s : Sym) (g : List Tick) (last k : Int) : Prop :=
  s ∈ h.pendingRebridge ∧ h.roller.writer.trueMaxId s ≠ none
    ∧ ∀ t ∈ g, last < t.tradeId → k < t.tradeId

/-- Every id between the highest seen and the group's highest is in the group, or in its
re-bridge. -/
def Covers (h : FeedHandler) (s : Sym) (g : List Tick) : Prop :=
  ∀ last, h.lastId s = some last → ∀ k, last < k → (∃ t ∈ g, k ≤ t.tradeId) →
    (∃ t ∈ g, t.tradeId = k) ∨ Bridged h s g last k

/-- The step applies no group of `s` over a hole: the condition on the state before it. -/
def Closes (s : Sym) (l : Link) : LinkAction → Prop
  | .group => ∀ g ∈ l.trades.head?, g.1 = s → Covers l.handler s g.2
  | _ => True

end Link

end NanoTick
