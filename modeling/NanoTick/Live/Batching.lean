import NanoTick.Live.Logged
import Mathlib.Tactic

set_option autoImplicit false

/-! # Batch boundaries

Where the main thread cuts the delivered records into batches depends on thread timing. What it
hands to the roller does not, as long as a symbol's ids above the floor come first in ascending
order: for quotes always, for trades while no re-bridge is pending.
-/

namespace NanoTick

open Python Runs Dedup

namespace Feeding

/-- The trades of a symbol among some records. -/
def ticksOf (s : Sym) (records : List Record) : List Tick :=
  (tradesOf records).filter (fun t => decide (t.symbol = s))

/-- The quotes of a symbol among some records. -/
def quoteTicksOf (s : Sym) (records : List Record) : List QuoteTick :=
  (quotesOf records).filter (fun q => decide (q.symbol = s))

/-- The records an action delivers. -/
def Action.records : Action → List Record
  | .batch records => records
  | _ => []

/-- The records some actions deliver. -/
def deliveredBy (as : List Action) : List Record := as.flatMap Action.records

/-- Between two batches, after the startup. -/
def AtBoundary (f : Feeding) : Prop := f.starting = [] ∧ f.trades = [] ∧ f.quotes = []

/-! ## The groups of a symbol -/

/-- The items of the groups of a symbol. -/
def waiting {α : Type} (s : Sym) (groups : List (Sym × List α)) : List α :=
  (groups.filter (fun g => decide (g.1 = s))).flatMap (·.2)

theorem waiting_cons_self {α : Type} (s : Sym) (items : List α) (groups : List (Sym × List α)) :
    waiting s ((s, items) :: groups) = items ++ waiting s groups := by
  simp [waiting]

theorem waiting_cons_of_ne {α : Type} {s s' : Sym} (h : s ≠ s') (items : List α)
    (groups : List (Sym × List α)) : waiting s ((s', items) :: groups) = waiting s groups := by
  simp [waiting, Ne.symm h]

/-- **The groups of a batch** hold the symbol's items in the order of the batch. -/
theorem waiting_bySymbol {α : Type} (symbol : α → Sym) (s : Sym) (items : List α) :
    waiting s (FeedHandler.bySymbol symbol items)
      = items.filter (fun it => decide (symbol it = s)) := by
  have hkeys : ∀ ks : List Sym, ks.Nodup →
      waiting s (ks.map (fun k => (k, items.filter (fun it => decide (symbol it = k)))))
        = if s ∈ ks then items.filter (fun it => decide (symbol it = s)) else [] := by
    intro ks hks
    induction ks with
    | nil => rfl
    | cons k ks ih =>
        obtain ⟨hk, hnodup⟩ := List.nodup_cons.mp hks
        rw [List.map_cons]
        by_cases hs : s = k
        · subst hs
          rw [waiting_cons_self, ih hnodup, if_neg hk, if_pos List.mem_cons_self, List.append_nil]
        · rw [waiting_cons_of_ne hs, ih hnodup]
          simp [hs]
  rw [FeedHandler.bySymbol, hkeys _ (Grouping.nodup_eraseDups _)]
  split
  · rfl
  · rename_i hnot
    refine (List.filter_eq_nil_iff.mpr (fun it hit hs => hnot ?_)).symm
    rw [List.mem_eraseDups, ← of_decide_eq_true hs]
    exact List.mem_map_of_mem hit

/-! ## Trades -/

/-- The trades of a symbol on their way to the roller. -/
def tradeStream (s : Sym) (f : Feeding) : Stream Tick where
  pending := waiting s f.trades
  handed := fedIds f.log s
  floor := f.handler.lastId s

/-- The quotes of a symbol on their way to the roller. -/
def quoteStream (s : Sym) (f : Feeding) : Stream QuoteTick where
  pending := waiting s f.quotes
  handed := fedQuoteIds f.log s
  floor := f.handler.lastQuoteId s

theorem fedIds_snoc (log : List Inserted) (e : Inserted) (s : Sym) :
    fedIds (log ++ [e]) s = fedIds log s ++ idsOf s e.fed := by
  rw [fedIds, List.flatMap_append, idsOf_append, List.flatMap_singleton]
  rfl

theorem fedQuoteIds_snoc (log : List Inserted) (e : Inserted) (s : Sym) :
    fedQuoteIds (log ++ [e]) s = fedQuoteIds log s ++ quoteIdsOf s e.fedQuotes := by
  rw [fedQuoteIds, List.flatMap_append, List.flatMap_singleton, quoteIdsOf, List.filter_append,
    List.map_append]
  rfl

/-- The ids a group of a symbol hands to the roller. -/
theorem idsOf_freshRows {h : FeedHandler} {s : Sym} {group : List Tick}
    (hsym : ∀ t ∈ group, t.symbol = s) : idsOf s (h.freshRows s group)
      = (dedup Tick.tradeId group (h.lastId s)).1.map Tick.tradeId := by
  have hall : ∀ r ∈ h.freshRows s group, decide (r.sym = s) = true := by
    intro r hr
    obtain ⟨t, ht, rfl⟩ := List.mem_map.mp hr
    exact decide_eq_true (hsym t (mem_of_mem_dedup ht).1)
  rw [idsOf, List.filter_eq_self.mpr hall, FeedHandler.freshRows, parseLiveTicks, List.map_map]
  rfl

theorem quoteIdsOf_freshQuotes {h : FeedHandler} {s : Sym} {group : List QuoteTick}
    (hsym : ∀ q ∈ group, q.symbol = s) : quoteIdsOf s (h.freshQuotes s group)
      = (dedup QuoteTick.updateId group (h.lastQuoteId s)).1.map QuoteTick.updateId := by
  have hall : ∀ r ∈ h.freshQuotes s group, decide (r.sym = s) = true := by
    intro r hr
    obtain ⟨q, hq, rfl⟩ := List.mem_map.mp hr
    exact decide_eq_true (hsym q (mem_of_mem_dedup hq).1)
  rw [quoteIdsOf, List.filter_eq_self.mpr hall, FeedHandler.freshQuotes, parseLiveQuotes,
    List.map_map]
  rfl

/-! ### One step -/

section

variable {f f' : Feeding} {s : Sym} {a : Action}

/-- The groups under way are by symbol, and the startup is over. -/
structure Running (f : Feeding) : Prop where
  started : f.starting = []
  trades : ∀ g ∈ f.trades, ∀ t ∈ g.2, t.symbol = g.1
  quotes : ∀ g ∈ f.quotes, ∀ q ∈ g.2, q.symbol = g.1

theorem running_step (hr : Running f) (hf : step f a = some f') : Running f' := by
  cases a with
  | startSymbol sv =>
      obtain ⟨q, symbols, h₁, hstarting, -, rfl⟩ := startSymbol_step hf
      rw [hr.started] at hstarting
      cases hstarting
  | connect =>
      obtain ⟨-, rfl⟩ := connect_step hf
      exact ⟨hr.started, hr.trades, hr.quotes⟩
  | batch records =>
      obtain ⟨-, rfl⟩ := batch_step hf
      refine ⟨hr.started, fun g hg t ht => ?_, fun g hg q hq => ?_⟩
      · exact (FeedHandler.of_mem_group hg ht).2
      · exact (FeedHandler.of_mem_group hg hq).2
  | rebridge sv =>
      obtain ⟨g, groups, h₁, -, -, rfl⟩ := rebridge_step hf
      exact ⟨hr.started, hr.trades, hr.quotes⟩
  | feed =>
      obtain ⟨g, groups, h₁, htrades, -, rfl⟩ := feed_step hf
      refine ⟨hr.started, fun g' hg' => hr.trades g' ?_, hr.quotes⟩
      rw [htrades]
      exact List.mem_cons_of_mem g hg'
  | quoteGroup =>
      obtain ⟨g, groups, h₁, hquotes, -, rfl⟩ := quoteGroup_step hf
      refine ⟨hr.started, hr.trades, fun g' hg' => hr.quotes g' ?_⟩
      rw [hquotes]
      exact List.mem_cons_of_mem g hg'

/-- A re-bridge reads and writes no quote, and leaves the symbols that are not flagged. -/
theorem rebridgeGroup_frame {sv : Services} {h h' : FeedHandler} {s' : Sym} {group : List Tick}
    (hok : h.rebridgeGroup sv s' group = .ok h') (hs : s ∉ h.pendingRebridge) :
    h'.lastQuoteId = h.lastQuoteId ∧ h'.lastId s = h.lastId s := by
  rcases FeedHandler.rebridgeGroup_cases hok with ⟨rfl | rfl, -⟩ | ⟨hpending, _, b, -, -, -, rfl⟩
  · exact ⟨rfl, rfl⟩
  · exact ⟨rfl, rfl⟩
  · have hne : s ≠ s' := fun heq => hs (heq ▸ hpending)
    exact ⟨rfl, Function.update_of_ne hne _ _⟩

/-- A group is taken: the one of the symbol as a batch, another one without a trace. -/
theorem takes_group {α : Type} {key : α → Int} {x y : Stream α} {s' : Sym} {group : List α}
    {groups : List (Sym × List α)} (hx : x.pending = waiting s ((s', group) :: groups))
    (hy : y.pending = waiting s groups)
    (hself : s = s' → y.handed = x.handed ++ (dedup key group x.floor).1.map key
      ∧ y.floor = (group.map key).foldl raise x.floor)
    (hother : s ≠ s' → y.handed = x.handed ∧ y.floor = x.floor) : Takes key x y [] := by
  by_cases heq : s = s'
  · obtain ⟨hhanded, hfloor⟩ := hself heq
    subst heq
    rw [waiting_cons_self, ← hy] at hx
    exact Takes.batch hx hhanded hfloor
  · obtain ⟨hhanded, hfloor⟩ := hother heq
    rw [waiting_cons_of_ne heq, ← hy] at hx
    exact Takes.rest hx.symm hhanded hfloor

/-- **Trades, one step** with no re-bridge pending for the symbol. -/
theorem takes_trades (hr : Running f) (hs : s ∉ f.handler.pendingRebridge)
    (hf : step f a = some f') :
    Takes Tick.tradeId (tradeStream s f) (tradeStream s f') (ticksOf s a.records) := by
  cases a with
  | startSymbol sv =>
      obtain ⟨q, symbols, h₁, hstarting, -, rfl⟩ := startSymbol_step hf
      rw [hr.started] at hstarting
      cases hstarting
  | connect =>
      obtain ⟨-, rfl⟩ := connect_step hf
      refine Takes.rest rfl rfl ?_
      show f.handler.onConnect.lastId s = f.handler.lastId s
      rw [f.handler.onConnect_frame.2.1]
  | batch records =>
      obtain ⟨⟨-, htrades, -⟩, rfl⟩ := batch_step hf
      refine Takes.arrive ?_ rfl rfl
      show waiting s (FeedHandler.bySymbol Tick.symbol (tradesOf records))
        = waiting s f.trades ++ ticksOf s records
      rw [waiting_bySymbol, htrades]
      rfl
  | rebridge sv =>
      obtain ⟨g, groups, h₁, -, hok, rfl⟩ := rebridge_step hf
      refine Takes.rest rfl ?_ (rebridgeGroup_frame hok hs).2
      exact (fedIds_snoc f.log _ s).trans (List.append_nil _)
  | feed =>
      obtain ⟨⟨s', group⟩, groups, h₁, htrades, hok, rfl⟩ := feed_step hf
      have hsym : ∀ t ∈ group, t.symbol = s' := hr.trades _ (htrades ▸ List.mem_cons_self)
      refine takes_group (congrArg (waiting s) htrades) rfl ?_ ?_
      · rintro rfl
        refine ⟨?_, FeedHandler.feedGroup_lastId hok⟩
        exact (fedIds_snoc f.log _ s).trans (congrArg _ (idsOf_freshRows hsym))
      · intro hne
        have hrows : ∀ r ∈ f.handler.freshRows s' group, r.sym = s' := by
          intro r hr
          obtain ⟨t, ht, rfl⟩ := List.mem_map.mp hr
          exact hsym t (mem_of_mem_dedup ht).1
        refine ⟨?_, ?_⟩
        · exact (fedIds_snoc f.log _ s).trans
            ((congrArg _ (idsOf_of_ne hrows hne)).trans (List.append_nil _))
        · show h₁.lastId s = f.handler.lastId s
          rw [(FeedHandler.feedGroup_cases hok).2]
          exact Function.update_of_ne hne _ _
  | quoteGroup =>
      obtain ⟨g, groups, h₁, -, hok, rfl⟩ := quoteGroup_step hf
      obtain ⟨-, lastQuoteId, heq⟩ := FeedHandler.applyQuoteGroup_cases hok
      refine Takes.rest rfl ?_ ?_
      · exact (fedIds_snoc f.log _ s).trans (List.append_nil _)
      · show h₁.lastId s = f.handler.lastId s
        rw [heq]

/-- The floor of a quote group's symbol, and of the others. -/
theorem applyQuoteGroup_lastQuoteId {h h' : FeedHandler} {s' : Sym} {group : List QuoteTick}
    (hok : h.applyQuoteGroup s' group = .ok h') : h'.lastQuoteId
      = Function.update h.lastQuoteId s'
          ((group.map QuoteTick.updateId).foldl raise (h.lastQuoteId s')) := by
  unfold FeedHandler.applyQuoteGroup at hok
  dsimp only at hok
  rw [dedup_snd] at hok
  split at hok
  · cases hok
    rfl
  · cases hfeed : h.roller.feedQuote
        (parseLiveQuotes (dedup QuoteTick.updateId group (h.lastQuoteId s')).1) with
    | error e =>
        rw [hfeed] at hok
        cases hok
    | ok r =>
        rw [hfeed] at hok
        cases hok
        rfl

/-- **Quotes, one step.** -/
theorem takes_quotes (hr : Running f) (hf : step f a = some f') :
    Takes QuoteTick.updateId (quoteStream s f) (quoteStream s f')
      (quoteTicksOf s a.records) := by
  have hquiet : ∀ {e : Inserted}, e.fedQuotes = [] →
      fedQuoteIds (f.log ++ [e]) s = fedQuoteIds f.log s := by
    intro e he
    rw [fedQuoteIds_snoc, he]
    exact List.append_nil _
  cases a with
  | startSymbol sv =>
      obtain ⟨q, symbols, h₁, hstarting, -, rfl⟩ := startSymbol_step hf
      rw [hr.started] at hstarting
      cases hstarting
  | connect =>
      obtain ⟨-, rfl⟩ := connect_step hf
      refine Takes.rest rfl rfl ?_
      show f.handler.onConnect.lastQuoteId s = f.handler.lastQuoteId s
      unfold FeedHandler.onConnect
      split
      · rfl
      · rfl
  | batch records =>
      obtain ⟨⟨-, -, hquotes⟩, rfl⟩ := batch_step hf
      refine Takes.arrive ?_ rfl rfl
      show waiting s (FeedHandler.bySymbol QuoteTick.symbol (quotesOf records))
        = waiting s f.quotes ++ quoteTicksOf s records
      rw [waiting_bySymbol, hquotes]
      rfl
  | rebridge sv =>
      obtain ⟨g, groups, h₁, -, hok, rfl⟩ := rebridge_step hf
      refine Takes.rest rfl (hquiet rfl) ?_
      show h₁.lastQuoteId s = f.handler.lastQuoteId s
      rcases FeedHandler.rebridgeGroup_cases hok with ⟨rfl | rfl, -⟩ | ⟨-, _, b, -, -, -, rfl⟩
      · rfl
      · rfl
      · rfl
  | feed =>
      obtain ⟨g, groups, h₁, -, hok, rfl⟩ := feed_step hf
      refine Takes.rest rfl (hquiet rfl) ?_
      show h₁.lastQuoteId s = f.handler.lastQuoteId s
      rw [(FeedHandler.feedGroup_cases hok).2]
  | quoteGroup =>
      obtain ⟨⟨s', group⟩, groups, h₁, hquotes, hok, rfl⟩ := quoteGroup_step hf
      have hsym : ∀ q ∈ group, q.symbol = s' := hr.quotes _ (hquotes ▸ List.mem_cons_self)
      have hlast := applyQuoteGroup_lastQuoteId hok
      refine takes_group (congrArg (waiting s) hquotes) rfl ?_ ?_
      · rintro rfl
        refine ⟨?_, ?_⟩
        · exact (fedQuoteIds_snoc f.log _ s).trans (congrArg _ (quoteIdsOf_freshQuotes hsym))
        · show h₁.lastQuoteId s = _
          rw [hlast, Function.update_self]
          rfl
      · intro hne
        have hrows : quoteIdsOf s (f.handler.freshQuotes s' group) = [] := by
          rw [quoteIdsOf, List.filter_eq_nil_iff.mpr]
          · rfl
          · intro r hr hrs
            obtain ⟨q, hq, rfl⟩ := List.mem_map.mp hr
            exact hne ((of_decide_eq_true hrs).symm.trans (hsym q (mem_of_mem_dedup hq).1))
        refine ⟨?_, ?_⟩
        · exact (fedQuoteIds_snoc f.log _ s).trans
            ((congrArg _ hrows).trans (List.append_nil _))
        · show h₁.lastQuoteId s = f.handler.lastQuoteId s
          rw [hlast, Function.update_of_ne hne]

/-! ### A run -/

theorem ticksOf_append (s : Sym) (a b : List Record) :
    ticksOf s (a ++ b) = ticksOf s a ++ ticksOf s b := by
  rw [ticksOf, tradesOf, List.filterMap_append, List.filter_append]
  rfl

theorem quoteTicksOf_append (s : Sym) (a b : List Record) :
    quoteTicksOf s (a ++ b) = quoteTicksOf s a ++ quoteTicksOf s b := by
  rw [quoteTicksOf, quotesOf, List.filterMap_append, List.filter_append]
  rfl

theorem takes_trades_run {as : List Action} (hr : Running f)
    (hpending : Always step (fun g => s ∉ g.handler.pendingRebridge) f as)
    (hf : exec step f as = some f') :
    Takes Tick.tradeId (tradeStream s f) (tradeStream s f') (ticksOf s (deliveredBy as)) := by
  induction as generalizing f with
  | nil =>
      cases hf
      exact Takes.rest rfl rfl rfl
  | cons a as ih =>
      obtain ⟨g, hfg, hg⟩ := exec_cons_eq_some.mp hf
      rw [deliveredBy, List.flatMap_cons, ticksOf_append]
      exact (takes_trades hr hpending.1 hfg).trans
        (ih (running_step hr hfg) (hpending.2 g hfg) hg)

theorem takes_quotes_run {as : List Action} (hr : Running f) (hf : exec step f as = some f') :
    Takes QuoteTick.updateId (quoteStream s f) (quoteStream s f')
      (quoteTicksOf s (deliveredBy as)) := by
  induction as generalizing f with
  | nil =>
      cases hf
      exact Takes.rest rfl rfl rfl
  | cons a as ih =>
      obtain ⟨g, hfg, hg⟩ := exec_cons_eq_some.mp hf
      rw [deliveredBy, List.flatMap_cons, quoteTicksOf_append]
      exact (takes_quotes hr hfg).trans (ih (running_step hr hfg) hg)

theorem AtBoundary.running (hf : AtBoundary f) : Running f := by
  obtain ⟨hstarted, htrades, hquotes⟩ := hf
  refine ⟨hstarted, ?_, ?_⟩
  · rw [htrades]
    exact fun g hg => absurd hg List.not_mem_nil
  · rw [hquotes]
    exact fun g hg => absurd hg List.not_mem_nil

theorem AtBoundary.waiting_trades (hf : AtBoundary f) (s : Sym) :
    (tradeStream s f).pending = [] := by
  show waiting s f.trades = []
  rw [hf.2.1]
  rfl

theorem AtBoundary.waiting_quotes (hf : AtBoundary f) (s : Sym) :
    (quoteStream s f).pending = [] := by
  show waiting s f.quotes = []
  rw [hf.2.2]
  rfl

/-- What the roller is handed between two batch boundaries does not depend on the batches in
between: each id above the floor, once, if these come first in ascending order. For trades no
re-bridge may be pending. -/
structure Uncut (s : Sym) (f f' : Feeding) (as : List Action) : Prop where
  trades : Always step (fun g => s ∉ g.handler.pendingRebridge) f as →
    (firsts (f.handler.lastId s) ((ticksOf s (deliveredBy as)).map Tick.tradeId)).Pairwise (· < ·) →
    fedIds f'.log s = fedIds f.log s
      ++ firsts (f.handler.lastId s) ((ticksOf s (deliveredBy as)).map Tick.tradeId)
  quotes :
    (firsts (f.handler.lastQuoteId s)
      ((quoteTicksOf s (deliveredBy as)).map QuoteTick.updateId)).Pairwise (· < ·) →
    fedQuoteIds f'.log s = fedQuoteIds f.log s
      ++ firsts (f.handler.lastQuoteId s)
          ((quoteTicksOf s (deliveredBy as)).map QuoteTick.updateId)

theorem uncut {as : List Action} (hf : AtBoundary f) (hf' : AtBoundary f')
    (hrun : exec step f as = some f') : Uncut s f f' as where
  trades := fun hpending hasc =>
    (takes_trades_run hf.running hpending hrun).handed_eq (hf.waiting_trades s)
      (hf'.waiting_trades s) hasc
  quotes := fun hasc =>
    (takes_quotes_run hf.running hrun).handed_eq (hf.waiting_quotes s) (hf'.waiting_quotes s) hasc

/-- **Within one run** the ids inserted for a symbol strictly ascend, what is inserted is what the
store receives, and between any two batch boundaries of the run the cut does not matter. -/
theorem once_uncut {symbols : List Sym} {w : HdbWriter} {as bs : List Action}
    (has : ∀ a ∈ as, a.Honest) (hbs : ∀ a ∈ bs, a.Honest)
    (hf : exec step (start symbols w) as = some f) (hrun : exec step f bs = some f') (s : Sym) :
    (insertedIds f'.log s).Pairwise (· < ·)
      ∧ insertedIds f'.log s = idsOf s (f'.log.flatMap Inserted.storedTrades)
      ∧ Logged w f'.handler.roller f'.log
      ∧ (AtBoundary f → AtBoundary f' → Uncut s f f' bs) := by
  refine ⟨?_, insertedIds_eq f'.log s, ?_, fun hb hb' => uncut hb hb' hrun⟩
  · have hi : Inv f := inv_exec (inv_start symbols w) has hf
    exact ((inv_exec hi hbs hrun).increasing s).ascending
  · exact logged_exec (logged_exec (logged_start symbols w) hf) hrun

end

/-- REST that answers the first request of a bridge with the one trade asked for. -/
def nextTrade : Services where
  venue := "binance"
  page := tradesLimit
  fetchTrades := fun _ n f => .ok (if n = 0 then [⟨f, 1000 * f, 100, 1, false⟩] else [])
  rounds := fun _ => 1
  maxStoredId := HdbWriter.trueMaxId
  maxStoredQuoteId := HdbWriter.maxStoredQuoteId

theorem nextTrade_honest : nextTrade.Honest where
  resume := rfl
  ascending := by
    intro s n f fetched h
    cases h
    split
    · exact ⟨List.pairwise_singleton _ _, fun t ht => by rw [List.mem_singleton.mp ht]⟩
    · exact ⟨List.Pairwise.nil, fun t ht => absurd ht List.not_mem_nil⟩

/-- The trade of an id, as published. -/
def secondTick (id : Int) : Record :=
  .trade ⟨"binance", "BTCUSDT", id, 100, 1, 1000 * id, 1000 * id, false⟩

/-- A store that holds trade 0. -/
def zeroStored : HdbWriter :=
  HdbWriter.fresh { Hdb.empty with
    trade := Parts.save 0 [⟨ms2ts 0, "BTCUSDT", "binance", 0, 100, 1, 0, false⟩] ∅ }

/-- The startup bridge brings trade 1, the first batch bridges trade 2 and brings trade 5, the
second one, out of order and with a redelivery, brings the trades 6 and 7. -/
theorem once_uncut_run : ∃ f f',
    exec step (start ["BTCUSDT"] zeroStored)
        [.startSymbol nextTrade, .batch [secondTick 5], .rebridge nextTrade, .feed] = some f
      ∧ exec step f
          [.batch [secondTick 7, secondTick 5, secondTick 6], .rebridge nextTrade, .feed] = some f'
      ∧ insertedIds f'.log "BTCUSDT" = [1, 2, 5, 6, 7]
      ∧ (insertedIds f'.log "BTCUSDT").Pairwise (· < ·)
      ∧ insertedIds f'.log "BTCUSDT" = idsOf "BTCUSDT" (f'.log.flatMap Inserted.storedTrades)
      ∧ Logged zeroStored f'.handler.roller f'.log
      ∧ (AtBoundary f → AtBoundary f' → Uncut "BTCUSDT" f f'
          [.batch [secondTick 7, secondTick 5, secondTick 6], .rebridge nextTrade, .feed]) := by
  have hfirst : (exec step (start ["BTCUSDT"] zeroStored)
      [.startSymbol nextTrade, .batch [secondTick 5], .rebridge nextTrade, .feed]).any
      (fun f => (exec step f
        [.batch [secondTick 7, secondTick 5, secondTick 6], .rebridge nextTrade, .feed]).any
        (fun f' => decide (insertedIds f'.log "BTCUSDT" = [1, 2, 5, 6, 7]))) = true := by
    decide +kernel
  obtain ⟨f, hf, hrest⟩ := (Option.any_eq_true _ _).mp hfirst
  obtain ⟨f', hf', hids⟩ := (Option.any_eq_true _ _).mp hrest
  refine ⟨f, f', hf, hf', of_decide_eq_true hids, once_uncut ?_ ?_ hf hf' "BTCUSDT"⟩
  · simp [Action.Honest, nextTrade_honest]
  · simp [Action.Honest, nextTrade_honest]

end Feeding

end NanoTick
