import NanoTick.Live.OddRecords
import Mathlib.Tactic

set_option autoImplicit false

/-! # The records the ingest publishes

The records of `normalize_trade` and `normalize_quote` carry integer ids and times, a string for a
symbol and floats for prices. On these the handler of raw payloads does what the handler of typed
records does (`applyTrades_published`, `applyQuotes_published`): `FeedHandler` is `RawHandler` on
what the ingest publishes.
-/

namespace NanoTick

open Python Raising Grouping FirstOfKey

/-! ## Ids -/

/-- An integer id as it is compared. -/
def intKey (k : Int) : SortKey := .num k

theorem intKey_lt {j k : Int} : intKey j < intKey k ↔ j < k := by
  rw [intKey, intKey, SortKey.num_lt_num, Int.cast_lt]

theorem intKey_le {j k : Int} : intKey j ≤ intKey k ↔ j ≤ k := by
  rw [← not_lt, intKey_lt, not_lt]

theorem toInt_int (o : Outside) (k : Int) : o.int (.num (.rat k)) = .ok k := by
  simp [Outside.int, Json.toInt]

theorem aboveLast_intKey (last : Option Int) (k : Int) :
    aboveLast (last.map intKey) (intKey k) = .ok (Dedup.isAbove last k) := by
  cases last with
  | none => rfl
  | some l =>
      have halike : SortKey.alike (intKey k) (intKey l) = true := rfl
      rw [Option.map_some, aboveLast, SortKey.gt_of_alike halike, Dedup.isAbove, Option.all_some]
      exact congrArg Except.ok (decide_eq_decide.mpr intKey_lt)

/-! ## Published records -/

/-- Typed records as payloads of one side: the id and the symbol they carry, and the row they are
parsed to when `ok` holds of them. -/
structure Published {o : Outside} {key : String} (x : Side o key) (α : Type) where
  payload : α → Payload o key
  id : α → Int
  symbol : α → Sym
  row : α → x.Row
  ok : α → Prop
  payload_id : ∀ a, (payload a).id = intKey (id a)
  payload_symbol : ∀ a, (payload a).symbol = .ok (.str (symbol a))
  parse_payload : ∀ a, ok a → x.parse (payload a) = .ok (row a)

namespace Published

variable {o : Outside} {key : String} {x : Side o key} {α : Type} (p : Published x α)

/-- The loop of `_dedup` on published records. -/
theorem keepFresh_published (last : Option Int) (l : List α) :
    keepFresh (last.map intKey) (l.map p.payload)
      = .ok ((Dedup.keepAbove p.id last l).1.map p.payload,
          (Dedup.keepAbove p.id last l).2.map intKey) := by
  induction l generalizing last with
  | nil => rfl
  | cons a t ih =>
      rw [List.map_cons, keepFresh, p.payload_id, aboveLast_intKey, Dedup.keepAbove]
      cases Dedup.isAbove last (p.id a) with
      | true =>
          refine bind_eq_ok.mpr ⟨true, rfl, ?_⟩
          rw [if_pos rfl, if_pos rfl]
          exact bind_eq_ok.mpr ⟨_, ih (some (p.id a)), rfl⟩
      | false => exact bind_eq_ok.mpr ⟨false, rfl, ih last⟩

/-- **`_dedup` on published records** is the dedup of the typed ones. -/
theorem dedup_published (last : Option Int) (l : List α) :
    dedupById (l.map p.payload) (last.map intKey)
      = .ok ((Dedup.dedup p.id l last).1.map p.payload,
          (Dedup.dedup p.id l last).2.map intKey) := by
  have hpair : ((l.map p.payload).map Payload.id).Pairwise
      (fun a b => SortKey.alike a b = true) := by
    rw [List.map_map]
    refine List.pairwise_map.mpr (List.pairwise_of_forall_mem_list (fun a _ b _ => ?_))
    rw [Function.comp_apply, Function.comp_apply, p.payload_id, p.payload_id]
    rfl
  have hsort : sortOn Payload.id (l.map p.payload) = (sortOn p.id l).map p.payload := by
    refine sortOn_map p.id Payload.id p.payload (fun a b => ?_) l
    rw [p.payload_id, p.payload_id, intKey_le]
  refine bind_eq_ok.mpr ⟨_, if_pos hpair, ?_⟩
  rw [hsort, keepFresh_published]
  rfl

theorem isOf_payload (a : α) (s : Sym) :
    (p.payload a).isOf (.str s) = decide (p.symbol a = s) := by
  rw [Payload.isOf, p.payload_symbol, returned]
  refine decide_eq_decide.mpr ?_
  rw [List.mem_singleton, HashKey.str.injEq, eq_comm]

/-- **`_by_symbol` on published records** groups as it does the typed ones. -/
theorem groupBySymbol_published (l : List α) : groupBySymbol (l.map p.payload)
    = .ok ((FeedHandler.bySymbol p.symbol l).map
        (fun g => (HashKey.str g.1, g.2.map p.payload))) := by
  have hsymbols : (l.map p.payload).mapM Payload.symbol
      = .ok ((l.map p.symbol).map HashKey.str) := by
    rw [List.map_map]
    exact mapM_map_eq_ok (fun a _ => p.payload_symbol a)
  refine bind_eq_ok.mpr ⟨_, hsymbols, congrArg Except.ok ?_⟩
  rw [eraseDups_map (fun s t h => HashKey.str.inj h), FeedHandler.bySymbol, List.map_map,
    List.map_map]
  refine List.map_congr_left (fun s _ => Prod.ext rfl ?_)
  rw [Function.comp_apply, Function.comp_apply, List.filter_map]
  refine congrArg (List.map p.payload) (List.filter_congr (fun a _ => ?_))
  rw [Function.comp_apply, isOf_payload]

/-- The floors after a round. -/
def lastAfter (last : HashKey → Option SortKey) (s : Sym) (group : List α) (floor : Option Int) :
    HashKey → Option SortKey :=
  Function.update last (.str s) ((Dedup.dedup p.id group floor).2.map intKey)

/-- The rows a round hands on. -/
def fresh (group : List α) (floor : Option Int) : List x.Row :=
  (Dedup.dedup p.id group floor).1.map p.row

/-- **A round on published records.** -/
theorem applyGroup_published {a : Applied x} {s : Sym} {floor : Option Int} {group : List α}
    (hfloor : a.last (.str s) = floor.map intKey) (hok : ∀ t ∈ group, p.ok t) :
    x.applyGroup a (.str s) (group.map p.payload)
      = if (Dedup.dedup p.id group floor).1 = [] then
          .ok ⟨a.roller, p.lastAfter a.last s group floor, a.handed⟩
        else do
          let roller ← x.feed a.roller (p.fresh group floor)
          return ⟨roller, p.lastAfter a.last s group floor, a.handed ++ p.fresh group floor⟩ := by
  have hparse : ((Dedup.dedup p.id group floor).1.map p.payload).mapM x.parse
      = .ok (p.fresh group floor) :=
    mapM_map_eq_ok (fun t ht => p.parse_payload t (hok t (Dedup.mem_of_mem_dedup ht).1))
  have hdedup : x.applyGroup a (.str s) (group.map p.payload)
      = if (Dedup.dedup p.id group floor).1.map p.payload = [] then
          .ok ⟨a.roller, p.lastAfter a.last s group floor, a.handed⟩
        else do
          let cols ← ((Dedup.dedup p.id group floor).1.map p.payload).mapM x.parse
          let roller ← x.feed a.roller cols
          return ⟨roller, p.lastAfter a.last s group floor, a.handed ++ cols⟩ := by
    unfold Side.applyGroup
    rw [hfloor, dedup_published]
    rfl
  rw [hdedup, hparse]
  by_cases hnil : (Dedup.dedup p.id group floor).1 = []
  · rw [if_pos hnil, if_pos (List.map_eq_nil_iff.mpr hnil)]
  · rw [if_neg hnil, if_neg (fun h => hnil (List.map_eq_nil_iff.mp h))]
    rfl

/-- **A batch of published records**, group by group. -/
theorem applyAll_published (a : Applied x) (l : List α) : x.applyAll a (l.map p.payload)
    = (FeedHandler.bySymbol p.symbol l).foldlM
        (fun a g => x.applyGroup a (.str g.1) (g.2.map p.payload)) a := by
  unfold Side.applyAll
  rw [groupBySymbol_published]
  exact List.foldlM_map

end Published

/-! ## Trades and quotes -/

/-- `float` returns the number as it is. -/
def IsFloat (q : ℚ) : Prop := q.den = 1 → floatOfInt q.num = .ok (.rat q)

theorem isFloat_of_lt {n : Int} (h : n.natAbs < 2 ^ 53) : IsFloat n := fun _ => by
  rw [Rat.num_intCast]
  exact floatOfInt_of_lt h

theorem float_of_isFloat (o : Outside) {q : ℚ} (h : IsFloat q) :
    o.float (.num (.rat q)) = .ok (.rat q) := by
  by_cases hden : q.den = 1
  · exact (if_pos hden).trans (h hden)
  · exact if_neg hden

/-- A field that is there and converts. -/
theorem field_eq_ok {β : Type} {j v : Json} {k : String} {convert : Json → Except PyErr β} {b : β}
    (hv : j.index k = .ok v) (hb : convert v = .ok b) : field j k convert = .ok b :=
  bind_eq_ok.mpr ⟨v, hv, hb⟩

/-- The record of `normalize_trade`. -/
def Tick.json (t : Tick) : Json :=
  .obj [("venue", .str t.venue), ("symbol", .str t.symbol), ("trade_id", .num (.rat t.tradeId)),
    ("price", .num (.rat t.price)), ("qty", .num (.rat t.qty)),
    ("event_ts", .num (.rat t.eventTs)), ("trade_ts", .num (.rat t.tradeTs)),
    ("is_buyer_maker", .bool t.isBuyerMaker)]

/-- The record of `normalize_quote`. -/
def QuoteTick.json (q : QuoteTick) : Json :=
  .obj [("venue", .str q.venue), ("symbol", .str q.symbol), ("update_id", .num (.rat q.updateId)),
    ("bid", .num (.rat q.bid)), ("bid_qty", .num (.rat q.bidQty)), ("ask", .num (.rat q.ask)),
    ("ask_qty", .num (.rat q.askQty)), ("recv_ts", .num (.rat q.recvTs))]

/-- The columns of a published trade. -/
def Tick.row (t : Tick) : TickRow where
  time := toMillis t.tradeTs
  eventTime := toMillis t.eventTs
  sym := .str t.symbol
  venue := .str t.venue
  tradeID := t.tradeId
  price := .rat t.price
  qty := .rat t.qty
  buyerMaker := t.isBuyerMaker

/-- The columns of a published quote. -/
def QuoteTick.row (q : QuoteTick) : QuoteTickRow where
  time := toMillis q.recvTs
  sym := .str q.symbol
  venue := .str q.venue
  updateID := q.updateId
  bid := .rat q.bid
  bidSize := .rat q.bidQty
  ask := .rat q.ask
  askSize := .rat q.askQty

/-- The published trade, as the network thread lets it through. -/
def Tick.payload (o : Outside) (t : Tick) : Payload o "trade_id" where
  record := t.json
  id := intKey t.tradeId
  accepted := ⟨.num (.rat t.tradeId), t.tradeId, rfl, toInt_int o t.tradeId, rfl⟩

/-- The published quote, as the network thread lets it through. -/
def QuoteTick.payload (o : Outside) (q : QuoteTick) : Payload o "update_id" where
  record := q.json
  id := intKey q.updateId
  accepted := ⟨.num (.rat q.updateId), q.updateId, rfl, toInt_int o q.updateId, rfl⟩

/-- Trades and quotes whose prices and sizes are floats and of whose columns pykx makes the table
of their rows. -/
structure TakesPublished (o : Outside) (tickOk : Tick → Prop) (quoteOk : QuoteTick → Prop) :
    Prop where
  price : ∀ t, tickOk t → IsFloat t.price
  qty : ∀ t, tickOk t → IsFloat t.qty
  table : ∀ ticks, (∀ t ∈ ticks, tickOk t)
    → o.table (ticks.map Tick.row) = .ok (parseLiveTicks ticks)
  bid : ∀ q, quoteOk q → IsFloat q.bid
  bidQty : ∀ q, quoteOk q → IsFloat q.bidQty
  ask : ∀ q, quoteOk q → IsFloat q.ask
  askQty : ∀ q, quoteOk q → IsFloat q.askQty
  quoteTable : ∀ quotes, (∀ q ∈ quotes, quoteOk q)
    → o.quoteTable (quotes.map QuoteTick.row) = .ok (parseLiveQuotes quotes)

section

variable {o : Outside} {tickOk : Tick → Prop} {quoteOk : QuoteTick → Prop}
  (ht : TakesPublished o tickOk quoteOk)

include ht

theorem parseLiveTick_published {t : Tick} (hok : tickOk t) :
    parseLiveTick o (t.payload o) = .ok t.row := by
  have htrade := field_eq_ok (j := t.json) (k := "trade_ts") rfl (toInt_int o t.tradeTs)
  have hevent := field_eq_ok (j := t.json) (k := "event_ts") rfl (toInt_int o t.eventTs)
  have hid := field_eq_ok (j := t.json) (k := "trade_id") rfl (toInt_int o t.tradeId)
  have hprice := field_eq_ok (j := t.json) (k := "price") rfl
    (float_of_isFloat o (ht.price t hok))
  have hqty := field_eq_ok (j := t.json) (k := "qty") rfl (float_of_isFloat o (ht.qty t hok))
  refine bind_eq_ok.mpr ⟨_, htrade, bind_eq_ok.mpr ⟨_, hevent, ?_⟩⟩
  refine bind_eq_ok.mpr ⟨.str t.symbol, rfl, bind_eq_ok.mpr ⟨.str t.venue, rfl, ?_⟩⟩
  refine bind_eq_ok.mpr ⟨_, hid, bind_eq_ok.mpr ⟨_, hprice, bind_eq_ok.mpr ⟨_, hqty, ?_⟩⟩⟩
  exact bind_eq_ok.mpr ⟨.bool t.isBuyerMaker, rfl, rfl⟩

theorem parseLiveQuote_published {q : QuoteTick} (hok : quoteOk q) :
    parseLiveQuote o (q.payload o) = .ok q.row := by
  have hrecv := field_eq_ok (j := q.json) (k := "recv_ts") rfl (toInt_int o q.recvTs)
  have hid := field_eq_ok (j := q.json) (k := "update_id") rfl (toInt_int o q.updateId)
  have hbid := field_eq_ok (j := q.json) (k := "bid") rfl (float_of_isFloat o (ht.bid q hok))
  have hbidQty := field_eq_ok (j := q.json) (k := "bid_qty") rfl
    (float_of_isFloat o (ht.bidQty q hok))
  have hask := field_eq_ok (j := q.json) (k := "ask") rfl (float_of_isFloat o (ht.ask q hok))
  have haskQty := field_eq_ok (j := q.json) (k := "ask_qty") rfl
    (float_of_isFloat o (ht.askQty q hok))
  refine bind_eq_ok.mpr ⟨_, hrecv, bind_eq_ok.mpr ⟨.str q.symbol, rfl, ?_⟩⟩
  refine bind_eq_ok.mpr ⟨.str q.venue, rfl, bind_eq_ok.mpr ⟨_, hid, ?_⟩⟩
  refine bind_eq_ok.mpr ⟨_, hbid, bind_eq_ok.mpr ⟨_, hbidQty, ?_⟩⟩
  exact bind_eq_ok.mpr ⟨_, hask, bind_eq_ok.mpr ⟨_, haskQty, rfl⟩⟩

/-- Trades as payloads. -/
def publishedTicks : Published (tradeSide o) Tick where
  payload := Tick.payload o
  id := Tick.tradeId
  symbol := Tick.symbol
  row := Tick.row
  ok := tickOk
  payload_id _ := rfl
  payload_symbol _ := rfl
  parse_payload _ hok := parseLiveTick_published ht hok

/-- Quotes as payloads. -/
def publishedQuotes : Published (quoteSide o) QuoteTick where
  payload := QuoteTick.payload o
  id := QuoteTick.updateId
  symbol := QuoteTick.symbol
  row := QuoteTick.row
  ok := quoteOk
  payload_id _ := rfl
  payload_symbol _ := rfl
  parse_payload _ hok := parseLiveQuote_published ht hok

/-- The roller takes the columns of published trades as it takes their rows. -/
theorem feed_published (r : RdbRoller) {ticks : List Tick} (hok : ∀ t ∈ ticks, tickOk t) :
    Agree (fun r' res => r' = res.1) ((tradeSide o).feed r (ticks.map Tick.row))
      (r.feed (parseLiveTicks ticks)) := by
  have htimes : (ticks.map Tick.row).map TickRow.time
      = (parseLiveTicks ticks).map Trade.time := by
    rw [parseLiveTicks, List.map_map, List.map_map]
    rfl
  exact Side.feed_agrees htimes (ht.table ticks hok)
    (fun _ hday => ⟨_, RdbRoller.feed_of_ok r hday⟩) (fun _ hday => RdbRoller.feed_of_error r hday)

/-- The roller takes the columns of published quotes as it takes their rows. -/
theorem feedQuote_published (r : RdbRoller) {quotes : List QuoteTick}
    (hok : ∀ q ∈ quotes, quoteOk q) :
    Agree (fun r' res => r' = res.1) ((quoteSide o).feed r (quotes.map QuoteTick.row))
      (r.feedQuote (parseLiveQuotes quotes)) := by
  have htimes : (quotes.map QuoteTick.row).map QuoteTickRow.time
      = (parseLiveQuotes quotes).map Quote.time := by
    rw [parseLiveQuotes, List.map_map, List.map_map]
    rfl
  exact Side.feed_agrees htimes (ht.quoteTable quotes hok)
    (fun _ hday => ⟨_, RdbRoller.feedQuote_of_ok r hday⟩)
    (fun _ hday => RdbRoller.feedQuote_of_error r hday)

end

/-! ## The two handlers -/

/-- The floors of typed ids are those of the ids as they are compared. -/
def SameFloors (last : HashKey → Option SortKey) (floor : Sym → Option Int) : Prop :=
  ∀ s, last (.str s) = (floor s).map intKey

theorem SameFloors.update {last : HashKey → Option SortKey} {floor : Sym → Option Int}
    (h : SameFloors last floor) (s : Sym) (m : Option Int) :
    SameFloors (Function.update last (.str s) (m.map intKey)) (Function.update floor s m) := by
  intro s'
  by_cases hs : s' = s
  · rw [hs, Function.update_self, Function.update_self]
  · rw [Function.update_of_ne (fun heq => hs (HashKey.str.inj heq)), Function.update_of_ne hs]
    exact h s'

/-- A handler of raw payloads in the state of a handler of typed records that has no re-bridge
pending. -/
structure Mirrors {o : Outside} (g : RawHandler o) (h : FeedHandler) : Prop where
  roller : g.roller = h.roller
  lastId : SameFloors g.lastId h.lastId
  lastQuoteId : SameFloors g.lastQuoteId h.lastQuoteId
  pending : h.pendingRebridge = ∅

/-- The same during `_apply_trades`: the quote floors do not move. -/
structure MirrorsTrades {o : Outside} (q : Sym → Option Int) (a : Applied (tradeSide o))
    (h : FeedHandler) : Prop where
  roller : a.roller = h.roller
  lastId : SameFloors a.last h.lastId
  lastQuoteId : h.lastQuoteId = q
  pending : h.pendingRebridge = ∅

/-- The same during `_apply_quotes`: the trade floors do not move. -/
structure MirrorsQuotes {o : Outside} (l : Sym → Option Int) (a : Applied (quoteSide o))
    (h : FeedHandler) : Prop where
  roller : a.roller = h.roller
  lastQuoteId : SameFloors a.last h.lastQuoteId
  lastId : h.lastId = l
  pending : h.pendingRebridge = ∅

section

variable {o : Outside} {tickOk : Tick → Prop} {quoteOk : QuoteTick → Prop}
  (ht : TakesPublished o tickOk quoteOk)

include ht

/-- One round of `_apply_trades`. -/
theorem applyGroup_agrees {q : Sym → Option Int} {a : Applied (tradeSide o)} {h : FeedHandler}
    {s : Sym} {group : List Tick} (sv : Services) (hm : MirrorsTrades q a h)
    (hok : ∀ t ∈ group, tickOk t) :
    Agree (MirrorsTrades q) ((tradeSide o).applyGroup a (.str s) (group.map (Tick.payload o)))
      (h.applyGroup sv s group) := by
  have hquiet : FeedHandler.rebridgeGroup sv h s group = .ok h :=
    if_neg (by rw [hm.pending]; exact Finset.notMem_empty s)
  have hround := (publishedTicks ht).applyGroup_published (hm.lastId s) hok
  have hlast := hm.lastId.update s (Dedup.dedup Tick.tradeId group (h.lastId s)).2
  rw [show Tick.payload o = (publishedTicks ht).payload from rfl, hround,
    FeedHandler.applyGroup, hquiet]
  change Agree _ _ (h.feedGroup s group)
  unfold FeedHandler.feedGroup
  dsimp only
  change Agree _ (if (Dedup.dedup Tick.tradeId group (h.lastId s)).1 = [] then _ else _) _
  split
  · exact .ok ⟨hm.roller, hlast, hm.lastQuoteId, hm.pending⟩
  · rw [hm.roller]
    refine (feed_published ht h.roller (fun t hmem => hok t
      (Dedup.mem_of_mem_dedup hmem).1)).bind (fun r res hr => ?_)
    exact .ok ⟨hr, hlast, hm.lastQuoteId, hm.pending⟩

/-- One round of `_apply_quotes`. -/
theorem applyQuoteGroup_agrees {l : Sym → Option Int} {a : Applied (quoteSide o)}
    {h : FeedHandler} {s : Sym} {group : List QuoteTick} (hm : MirrorsQuotes l a h)
    (hok : ∀ q ∈ group, quoteOk q) :
    Agree (MirrorsQuotes l)
      ((quoteSide o).applyGroup a (.str s) (group.map (QuoteTick.payload o)))
      (h.applyQuoteGroup s group) := by
  have hround := (publishedQuotes ht).applyGroup_published (hm.lastQuoteId s) hok
  have hlast := hm.lastQuoteId.update s
    (Dedup.dedup QuoteTick.updateId group (h.lastQuoteId s)).2
  rw [show QuoteTick.payload o = (publishedQuotes ht).payload from rfl, hround]
  unfold FeedHandler.applyQuoteGroup
  dsimp only
  change Agree _
    (if (Dedup.dedup QuoteTick.updateId group (h.lastQuoteId s)).1 = [] then _ else _) _
  split
  · exact .ok ⟨hm.roller, hlast, hm.lastId, hm.pending⟩
  · rw [hm.roller]
    refine (feedQuote_published ht h.roller (fun q hmem => hok q
      (Dedup.mem_of_mem_dedup hmem).1)).bind (fun r res hr => ?_)
    exact .ok ⟨hr, hlast, hm.lastId, hm.pending⟩

/-- **`_apply_trades` on published trades**: the handler of raw payloads raises what the handler of
typed records raises, and otherwise both are in the same state again. -/
theorem applyTrades_published (sv : Services) {g : RawHandler o} {h : FeedHandler}
    (hm : Mirrors g h) {ticks : List Tick} (hok : ∀ t ∈ ticks, tickOk t) :
    Agree (fun r h' => Mirrors r.1 h') (g.applyTrades (ticks.map (Tick.payload o)))
      (h.applyTrades sv ticks) := by
  have hfold : Agree (MirrorsTrades h.lastQuoteId)
      ((tradeSide o).applyAll ⟨g.roller, g.lastId, []⟩ (ticks.map (Tick.payload o)))
      (h.applyTrades sv ticks) := by
    have hgroups := (publishedTicks ht).applyAll_published ⟨g.roller, g.lastId, []⟩ ticks
    have hstart : MirrorsTrades (o := o) h.lastQuoteId ⟨g.roller, g.lastId, []⟩ h :=
      ⟨hm.roller, hm.lastId, rfl, hm.pending⟩
    have hround : ∀ a h', ∀ gr ∈ FeedHandler.bySymbol Tick.symbol ticks,
        MirrorsTrades h.lastQuoteId a h' → Agree (MirrorsTrades h.lastQuoteId)
          ((tradeSide o).applyGroup a (.str gr.1) (gr.2.map (Tick.payload o)))
          (h'.applyGroup sv gr.1 gr.2) := by
      intro a h' gr hgr hm'
      refine applyGroup_agrees ht sv hm' (fun t hmem => ?_)
      exact hok t (FeedHandler.of_mem_group hgr hmem).1
    rw [show Tick.payload o = (publishedTicks ht).payload from rfl, hgroups]
    exact Agree.foldlM hround hstart
  rw [← bind_pure (h.applyTrades sv ticks)]
  refine hfold.bind (fun a h' hm' => .ok ⟨hm'.roller, hm'.lastId, ?_, hm'.pending⟩)
  rw [hm'.lastQuoteId]
  exact hm.lastQuoteId

/-- **`_apply_quotes` on published quotes.** -/
theorem applyQuotes_published {g : RawHandler o} {h : FeedHandler} (hm : Mirrors g h)
    {quotes : List QuoteTick} (hok : ∀ q ∈ quotes, quoteOk q) :
    Agree (fun r h' => Mirrors r.1 h') (g.applyQuotes (quotes.map (QuoteTick.payload o)))
      (h.applyQuotes quotes) := by
  have hfold : Agree (MirrorsQuotes h.lastId)
      ((quoteSide o).applyAll ⟨g.roller, g.lastQuoteId, []⟩ (quotes.map (QuoteTick.payload o)))
      (h.applyQuotes quotes) := by
    have hgroups := (publishedQuotes ht).applyAll_published ⟨g.roller, g.lastQuoteId, []⟩ quotes
    have hstart : MirrorsQuotes (o := o) h.lastId ⟨g.roller, g.lastQuoteId, []⟩ h :=
      ⟨hm.roller, hm.lastQuoteId, rfl, hm.pending⟩
    have hround : ∀ a h', ∀ gr ∈ FeedHandler.bySymbol QuoteTick.symbol quotes,
        MirrorsQuotes h.lastId a h' → Agree (MirrorsQuotes h.lastId)
          ((quoteSide o).applyGroup a (.str gr.1) (gr.2.map (QuoteTick.payload o)))
          (h'.applyQuoteGroup gr.1 gr.2) := by
      intro a h' gr hgr hm'
      refine applyQuoteGroup_agrees ht hm' (fun q hmem => ?_)
      exact hok q (FeedHandler.of_mem_group hgr hmem).1
    rw [show QuoteTick.payload o = (publishedQuotes ht).payload from rfl, hgroups]
    exact Agree.foldlM hround hstart
  rw [← bind_pure (h.applyQuotes quotes)]
  refine hfold.bind (fun a h' hm' => .ok ⟨hm'.roller, ?_, hm'.lastQuoteId, hm'.pending⟩)
  rw [hm'.lastId]
  exact hm.lastId

end

end NanoTick
