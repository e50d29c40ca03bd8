import NanoTick.Live.Feeding
import Mathlib.Tactic

set_option autoImplicit false

/-! # What is lost at shutdown

`FeedHandler.run` as one process: the startup bridges, the network loop, the batches, and a stop
flag that a signal can set at any time. The loop looks at the flag between two batches; once it
is set, `_shutdown` stops the network loop and flushes the roller.

`kept_iff` says which runs keep everything that was accepted or bridged: those whose flush finds
no new record in the queue, and a current day if a bridge inserted anything.
-/

namespace NanoTick

open Python Runs Dedup

/-- Where `run` stands: bridging, at the head of its loop, in `queue.get`, applying a batch,
past the loop, past `loop_stop`, returned. -/
inductive RunAt where
  | starting
  | head
  | waiting
  | applying
  | stopping
  | stopped
  | returned
  deriving DecidableEq

/-- The network loop runs from `loop_start` to `loop_stop`. -/
def RunAt.online : RunAt → Bool
  | .head | .waiting | .applying | .stopping => true
  | _ => false

/-- The process; `accepted` are the records `_on_message` put into the queue, `rejected` those the
dedup turned away. Both are only recorded. -/
structure Process where
  main : Feeding
  at_ : RunAt
  accepted : List Record
  rejected : List Record

namespace Process

inductive Action where
  | requestStop
  | startSymbol (sv : Services)
  | serve
  | connect
  | message (payload : Option Record)
  | check
  | timeout
  | drain
  | rebridge (sv : Services)
  | feed
  | quoteGroup
  | applied
  | loopStop
  | flush

def start (symbols : List Sym) (w : HdbWriter) : Process :=
  ⟨Feeding.start symbols w, .starting, [], []⟩

/-- The main thread's next call. -/
def call (p : Process) (a : Feeding.Action) (rejected : List Record) : Option Process :=
  (p.main.step a).map (fun f => { p with main := f, rejected := p.rejected ++ rejected })

/-- The trades of the next group that the dedup turns away. -/
def staleTrades (f : Feeding) : List Record :=
  match f.trades with
  | [] => []
  | g :: _ =>
      (g.2.filter (fun t => decide (t ∉ (dedup Tick.tradeId g.2 (f.handler.lastId g.1)).1))).map
        Record.trade

/-- The quotes of the next group that the dedup turns away. -/
def staleQuotes (f : Feeding) : List Record :=
  match f.quotes with
  | [] => []
  | g :: _ =>
      (g.2.filter (fun q =>
        decide (q ∉ (dedup QuoteTick.updateId g.2 (f.handler.lastQuoteId g.1)).1))).map Record.quote

/-- One step. -/
def step (p : Process) : Action → Option Process
  | .requestStop =>
      some { p with main := { p.main with handler := p.main.handler.requestStop } }
  | .startSymbol sv => if p.at_ = .starting then p.call (.startSymbol sv) [] else none
  | .serve =>
      if p.at_ = .starting ∧ p.main.starting = [] then some { p with at_ := .head } else none
  | .connect => if p.at_.online then p.call .connect [] else none
  | .message payload =>
      if p.at_.online then
        let h := p.main.handler.onMessage payload
        some { p with
          main := { p.main with handler := h }
          accepted := p.accepted ++ h.queue.drop p.main.handler.queue.length }
      else none
  | .check =>
      if p.at_ = .head then
        some { p with at_ := if p.main.handler.stop then .stopping else .waiting }
      else none
  | .timeout =>
      if p.at_ = .waiting ∧ p.main.handler.queue = [] then some { p with at_ := .head } else none
  | .drain =>
      if p.at_ = .waiting ∧ p.main.handler.queue ≠ [] then
        let (batch, h) := p.main.handler.drain
        (Feeding.step { p.main with handler := h } (.batch batch)).map
          (fun f => { p with main := f, at_ := .applying })
      else none
  | .rebridge sv => if p.at_ = .applying then p.call (.rebridge sv) [] else none
  | .feed => if p.at_ = .applying then p.call .feed (staleTrades p.main) else none
  | .quoteGroup => if p.at_ = .applying then p.call .quoteGroup (staleQuotes p.main) else none
  | .applied =>
      if p.at_ = .applying ∧ p.main.trades = [] ∧ p.main.quotes = [] then
        some { p with at_ := .head }
      else none
  | .loopStop => if p.at_ = .stopping then some { p with at_ := .stopped } else none
  | .flush =>
      if p.at_ = .stopped then
        some { p with
          main := { p.main with handler := p.main.handler.shutdown }
          at_ := .returned }
      else none

/-! ## What is to be kept -/

/-- The rows that bridges inserted. -/
def bridgedRows (log : List Inserted) : List Trade :=
  log.flatMap (fun | .bridge rows => rows | _ => [])

/-- The record's row is in a partition. -/
def Saved (hdb : Hdb) : Record → Prop
  | .trade t => ∃ d, t.parse.ofRaw ∈ hdb.trade.rowsAt d
  | .quote q => ∃ d, q.parse.ofRaw ∈ hdb.quote.rowsAt d

/-- The record's row is in a partition once the roller is flushed. -/
def Survives (r : RdbRoller) : Record → Prop
  | .trade t =>
      NanoTick.Survives r.writer.trade r.writer.hdb.trade r.currentDay t.parse.ofRaw
  | .quote q =>
      NanoTick.Survives r.writer.quote r.writer.hdb.quote r.currentDay q.parse.ofRaw

/-- When `run` has returned, every accepted record that the dedup did not turn away is in a
partition, and so is every row a bridge inserted. -/
def Kept (p : Process) : Prop :=
  p.at_ = .returned →
    (∀ r ∈ p.accepted, r ∈ p.rejected ∨ Saved p.main.handler.roller.writer.hdb r)
      ∧ ∀ x ∈ bridgedRows p.main.log, ∃ d, x ∈ p.main.handler.roller.writer.hdb.trade.rowsAt d

/-- The flush finds no new record in the queue, and without a current day no row of a bridge that
is in memory only. -/
def Clean (p : Process) : Action → Prop
  | .flush =>
      (∀ r ∈ p.main.handler.queue, r ∈ p.rejected ∨ Survives p.main.handler.roller r)
        ∧ (p.main.handler.roller.currentDay = none →
          ∀ x ∈ bridgedRows p.main.log, ∃ d, x ∈ p.main.handler.roller.writer.hdb.trade.rowsAt d)
  | _ => True

theorem saved_flush (r : RdbRoller) (rec : Record) :
    Saved r.flush.1.writer.hdb rec ↔ Survives r rec := by
  cases rec with
  | trade t => exact r.flush_trade _
  | quote q => exact r.flush_quote _

/-! ## Where an accepted record is -/

/-- The record is in a group still to be applied. -/
def UnderWay (f : Feeding) : Record → Prop
  | .trade t => ∃ g ∈ f.trades, t ∈ g.2
  | .quote q => ∃ g ∈ f.quotes, q ∈ g.2

/-- The roller holds the record's row and has a current day. -/
def Filed (r : RdbRoller) (rec : Record) : Prop :=
  r.currentDay ≠ none ∧
    match rec with
    | .trade t => r.HoldsTrade t.parse.ofRaw
    | .quote q => r.HoldsQuote q.parse.ofRaw

/-- The roller after a call holds what it held, and has a day if it had one. -/
structure Keeps (r r' : RdbRoller) : Prop where
  trade : ∀ x, r.HoldsTrade x → r'.HoldsTrade x
  quote : ∀ x, r.HoldsQuote x → r'.HoldsQuote x
  day : r.currentDay ≠ none → r'.currentDay ≠ none

theorem Keeps.refl (r : RdbRoller) : Keeps r r := ⟨fun _ h => h, fun _ h => h, fun h => h⟩

theorem Keeps.filed {r r' : RdbRoller} (h : Keeps r r') {rec : Record} (hr : Filed r rec) :
    Filed r' rec := by
  cases rec with
  | trade t => exact ⟨h.day hr.1, h.trade _ hr.2⟩
  | quote q => exact ⟨h.day hr.1, h.quote _ hr.2⟩

/-- What a call of the main thread does to the records and rows it has to account for. -/
structure Advances (f f' : Feeding) (rejected : List Record) : Prop where
  queue : f'.handler.queue = f.handler.queue
  keeps : Keeps f.handler.roller f'.handler.roller
  bridged : ∀ x ∈ bridgedRows f'.log, x ∈ bridgedRows f.log ∨ f'.handler.roller.HoldsTrade x
  trades : f.trades = [] → f'.trades = []
  quotes : f.quotes = [] → f'.quotes = []
  underWay : ∀ r, UnderWay f r → UnderWay f' r ∨ r ∈ rejected ∨ Filed f'.handler.roller r

theorem bridgedRows_snoc (log : List Inserted) (e : Inserted) :
    bridgedRows (log ++ [e]) = bridgedRows log ++ bridgedRows [e] := List.flatMap_append

/-- Rows a call of `bridge` added are held, and what was. -/
theorem keeps_bridge {h h' : FeedHandler} (sv : Services) (s : Sym) (target : Option Int)
    (hroller : h'.roller =
      { h.roller with writer := (bridge sv h.roller.writer s target).writer }) :
    Keeps h.roller h'.roller
      ∧ ∀ x ∈ Feeding.newRows h h', h'.roller.HoldsTrade x := by
  obtain ⟨cols, hcols⟩ := bridge_writer sv h.roller.writer s target
  rw [hcols] at hroller
  have hrows : Feeding.newRows h h' = cols.map Trade.ofRaw := by
    rw [Feeding.newRows, hroller, insert_trade, List.drop_left]
  rw [hrows, hroller]
  obtain ⟨hkeep, hnew⟩ := h.roller.holdsTrade_insert cols
  refine ⟨⟨hkeep, fun _ hx => hx, fun hday => hday⟩, fun x hx => ?_⟩
  obtain ⟨r, hr, rfl⟩ := List.mem_map.mp hx
  exact hnew r hr

/-- A record under way is in a later group, or its own group turns it away or lets it through. -/
theorem mem_groups_cases {α : Type} [DecidableEq α] {g : Sym × List α}
    {groups : List (Sym × List α)} {it : α} (fresh : List α) (h : ∃ g' ∈ g :: groups, it ∈ g'.2) :
    (∃ g' ∈ groups, it ∈ g'.2) ∨ it ∈ g.2.filter (fun x => decide (x ∉ fresh)) ∨ it ∈ fresh := by
  obtain ⟨g', hg', hit⟩ := h
  rcases List.mem_cons.mp hg' with rfl | hg'
  · right
    by_cases hfresh : it ∈ fresh
    · exact Or.inr hfresh
    · exact Or.inl (List.mem_filter.mpr ⟨hit, decide_eq_true hfresh⟩)
  · exact Or.inl ⟨g', hg', hit⟩

section

variable {f f' : Feeding}

theorem advances_startSymbol {sv : Services} (hf : f.step (.startSymbol sv) = some f') :
    Advances f f' [] := by
  obtain ⟨s, symbols, h₁, -, hok, rfl⟩ := Feeding.startSymbol_step hf
  obtain ⟨hroller, -, hqueue⟩ := h₁.flagAll_frame (symbols = [])
  have heq := FeedHandler.startSymbol_eq hok
  have hroller₁ : h₁.roller
      = { f.handler.roller with writer := (bridge sv f.handler.roller.writer s none).writer } := by
    rw [heq]
  obtain ⟨hkeeps, hnew⟩ := keeps_bridge sv s none hroller₁
  refine ⟨hqueue.trans (by rw [heq]), ?_, ?_, fun h => h, fun h => h, fun r h => Or.inl h⟩
  · rw [hroller]
    exact hkeeps
  · intro x hx
    rw [bridgedRows_snoc, List.mem_append] at hx
    rw [hroller]
    exact hx.imp_right (fun hx => hnew x (by simpa [bridgedRows] using hx))

theorem advances_connect (hf : f.step .connect = some f') : Advances f f' [] := by
  obtain ⟨-, rfl⟩ := Feeding.connect_step hf
  obtain ⟨hroller, -, hqueue⟩ := f.handler.onConnect_frame
  refine ⟨hqueue, ?_, fun x hx => Or.inl hx, fun h => h, fun h => h, fun r h => Or.inl h⟩
  rw [hroller]
  exact Keeps.refl _

theorem advances_rebridge {sv : Services} (hf : f.step (.rebridge sv) = some f') :
    Advances f f' [] := by
  obtain ⟨g, groups, h₁, -, hok, rfl⟩ := Feeding.rebridge_step hf
  have hspec : h₁.queue = f.handler.queue ∧ Keeps f.handler.roller h₁.roller
      ∧ ∀ x ∈ Feeding.newRows f.handler h₁, h₁.roller.HoldsTrade x := by
    rcases FeedHandler.rebridgeGroup_cases hok with ⟨rfl | rfl, -⟩ | ⟨-, _, b, -, -, -, rfl⟩
    · refine ⟨rfl, Keeps.refl _, fun x hx => ?_⟩
      rw [Feeding.newRows, List.drop_length] at hx
      exact absurd hx List.not_mem_nil
    · refine ⟨rfl, Keeps.refl _, fun x hx => ?_⟩
      rw [Feeding.newRows, List.drop_length] at hx
      exact absurd hx List.not_mem_nil
    · have hroller : (f.handler.afterRebridge sv g.1 b).roller = { f.handler.roller with
          writer := (bridge sv f.handler.roller.writer g.1 (some b)).writer } := rfl
      exact ⟨rfl, keeps_bridge sv g.1 (some b) hroller⟩
  obtain ⟨hqueue, hkeeps, hnew⟩ := hspec
  refine ⟨hqueue, hkeeps, fun x hx => ?_, fun h => h, fun h => h, fun r h => Or.inl h⟩
  rw [bridgedRows_snoc, List.mem_append] at hx
  exact hx.imp_right (fun hx => hnew x (by simpa [bridgedRows] using hx))

/-- **The feed of a group**: each trade of it is turned away or handed to the roller. -/
theorem advances_feed (hf : f.step .feed = some f') : Advances f f' (staleTrades f) := by
  obtain ⟨g, groups, h₁, htrades, hok, rfl⟩ := Feeding.feed_step hf
  obtain ⟨hcases, heq⟩ := FeedHandler.feedGroup_cases hok
  have hspec : Keeps f.handler.roller h₁.roller
      ∧ ∀ x ∈ f.handler.freshRows g.1 g.2,
          h₁.roller.currentDay ≠ none ∧ h₁.roller.HoldsTrade x.ofRaw := by
    rcases hcases with ⟨hnil, hroller⟩ | ⟨-, day, -, hroller⟩
    · rw [hroller, hnil]
      exact ⟨Keeps.refl _, fun x hx => absurd hx List.not_mem_nil⟩
    · rw [hroller]
      obtain ⟨hold, hnew, hquote⟩ := f.handler.roller.holdsTrade_afterFeed day
        (f.handler.freshRows g.1 g.2)
      have hday := f.handler.roller.currentDay_roll day
      exact ⟨⟨hold, hquote, fun _ => hday⟩, fun x hx => ⟨hday, hnew x hx⟩⟩
  obtain ⟨hkeeps, hnew⟩ := hspec
  refine ⟨by rw [heq], hkeeps, fun x hx => ?_, fun h => ?_, fun h => h, fun r hr => ?_⟩
  · rw [bridgedRows_snoc, List.mem_append] at hx
    exact hx.imp_right (fun hx => absurd hx List.not_mem_nil)
  · rw [h] at htrades
    cases htrades
  · cases r with
    | quote q => exact Or.inl hr
    | trade t =>
        have hgroups : ∃ g' ∈ g :: groups, t ∈ g'.2 := htrades ▸ hr
        rcases mem_groups_cases (dedup Tick.tradeId g.2 (f.handler.lastId g.1)).1 hgroups
          with hlater | hstale | hfresh
        · exact Or.inl hlater
        · right
          left
          rw [staleTrades, htrades]
          exact List.mem_map_of_mem hstale
        · exact Or.inr (Or.inr (hnew t.parse (List.mem_map_of_mem hfresh)))

theorem advances_quoteGroup (hf : f.step .quoteGroup = some f') :
    Advances f f' (staleQuotes f) := by
  obtain ⟨g, groups, h₁, hquotes, hok, rfl⟩ := Feeding.quoteGroup_step hf
  obtain ⟨hcases, lastQuoteId, heq⟩ := FeedHandler.applyQuoteGroup_cases hok
  have hspec : Keeps f.handler.roller h₁.roller
      ∧ ∀ x ∈ f.handler.freshQuotes g.1 g.2,
          h₁.roller.currentDay ≠ none ∧ h₁.roller.HoldsQuote x.ofRaw := by
    rcases hcases with ⟨hnil, hroller⟩ | ⟨-, day, -, hroller⟩
    · rw [hroller, hnil]
      exact ⟨Keeps.refl _, fun x hx => absurd hx List.not_mem_nil⟩
    · rw [hroller]
      obtain ⟨hold, hnew, htrade⟩ := f.handler.roller.holdsQuote_afterFeedQuote day
        (f.handler.freshQuotes g.1 g.2)
      have hday := f.handler.roller.currentDay_roll day
      exact ⟨⟨htrade, hold, fun _ => hday⟩, fun x hx => ⟨hday, hnew x hx⟩⟩
  obtain ⟨hkeeps, hnew⟩ := hspec
  refine ⟨by rw [heq], hkeeps, fun x hx => ?_, fun h => h, fun h => ?_, fun r hr => ?_⟩
  · rw [bridgedRows_snoc, List.mem_append] at hx
    exact hx.imp_right (fun hx => absurd hx List.not_mem_nil)
  · rw [h] at hquotes
    cases hquotes
  · cases r with
    | trade t => exact Or.inl hr
    | quote q =>
        have hgroups : ∃ g' ∈ g :: groups, q ∈ g'.2 := hquotes ▸ hr
        rcases mem_groups_cases (dedup QuoteTick.updateId g.2 (f.handler.lastQuoteId g.1)).1 hgroups
          with hlater | hstale | hfresh
        · exact Or.inl hlater
        · right
          left
          rw [staleQuotes, hquotes]
          exact List.mem_map_of_mem hstale
        · exact Or.inr (Or.inr (hnew q.parse (List.mem_map_of_mem hfresh)))

end

/-! ## The invariant -/

/-- Until the flush every accepted record is somewhere, and every bridged row is held. -/
structure Accounted (p : Process) : Prop where
  accepted : ∀ r ∈ p.accepted, r ∈ p.main.handler.queue ∨ UnderWay p.main r ∨ r ∈ p.rejected
    ∨ Filed p.main.handler.roller r
  queued : ∀ r ∈ p.main.handler.queue, r ∈ p.accepted
  bridged : ∀ x ∈ bridgedRows p.main.log, p.main.handler.roller.HoldsTrade x
  idle : p.at_ ≠ .applying → p.main.trades = [] ∧ p.main.quotes = []

theorem accounted_start (symbols : List Sym) (w : HdbWriter) : Accounted (start symbols w) where
  accepted := fun _ h => absurd h List.not_mem_nil
  queued := fun _ h => absurd h List.not_mem_nil
  bridged := fun _ h => absurd h List.not_mem_nil
  idle := fun _ => ⟨rfl, rfl⟩

section

variable {p p' : Process}

theorem call_eq {a : Feeding.Action} {rejected : List Record}
    (hp : p.call a rejected = some p') : ∃ f, p.main.step a = some f
      ∧ p' = { p with main := f, rejected := p.rejected ++ rejected } := by
  obtain ⟨f, hf, heq⟩ := Option.map_eq_some_iff.mp hp
  exact ⟨f, hf, heq.symm⟩

/-- **A call of the main thread** keeps the account. -/
theorem accounted_call {f : Feeding} {rejected : List Record} (hi : Accounted p)
    (hf : Advances p.main f rejected) :
    Accounted { p with main := f, rejected := p.rejected ++ rejected } where
  accepted := by
    intro r hr
    show r ∈ f.handler.queue ∨ UnderWay f r ∨ r ∈ p.rejected ++ rejected
      ∨ Filed f.handler.roller r
    rw [hf.queue, List.mem_append]
    rcases hi.accepted r hr with h | h | h | h
    · exact Or.inl h
    · rcases hf.underWay r h with h | h | h
      · exact Or.inr (Or.inl h)
      · exact Or.inr (Or.inr (Or.inl (Or.inr h)))
      · exact Or.inr (Or.inr (Or.inr h))
    · exact Or.inr (Or.inr (Or.inl (Or.inl h)))
    · exact Or.inr (Or.inr (Or.inr (hf.keeps.filed h)))
  queued := by
    intro r hr
    have hr : r ∈ f.handler.queue := hr
    rw [hf.queue] at hr
    exact hi.queued r hr
  bridged := by
    intro x hx
    rcases hf.bridged x hx with hx | hx
    · exact hf.keeps.trade x (hi.bridged x hx)
    · exact hx
  idle := fun hat => ⟨hf.trades (hi.idle hat).1, hf.quotes (hi.idle hat).2⟩

/-- Nothing but where `run` stands changes. -/
theorem Accounted.goto (hi : Accounted p) {pc : RunAt}
    (hidle : pc ≠ .applying → p.main.trades = [] ∧ p.main.quotes = []) :
    Accounted { p with at_ := pc } :=
  ⟨hi.accepted, hi.queued, hi.bridged, hidle⟩

/-- **A message**: it is queued and counted, or neither. -/
theorem accounted_message (hi : Accounted p) (payload : Option Record) : Accounted { p with
    main := { p.main with handler := p.main.handler.onMessage payload }
    accepted := p.accepted ++
      (p.main.handler.onMessage payload).queue.drop p.main.handler.queue.length } := by
  have hspec : (p.main.handler.onMessage payload).roller = p.main.handler.roller
      ∧ ∃ new, (p.main.handler.onMessage payload).queue = p.main.handler.queue ++ new := by
    unfold FeedHandler.onMessage
    cases payload with
    | none => exact ⟨rfl, [], (List.append_nil _).symm⟩
    | some r =>
        dsimp only
        split
        · exact ⟨rfl, [r], rfl⟩
        · exact ⟨rfl, [], (List.append_nil _).symm⟩
  obtain ⟨hroller, new, hqueue⟩ := hspec
  have hdrop : (p.main.handler.onMessage payload).queue.drop p.main.handler.queue.length = new := by
    rw [hqueue, List.drop_left]
  rw [hdrop]
  refine ⟨fun r hr => ?_, fun r hr => ?_, fun x hx => ?_, hi.idle⟩
  · show r ∈ (p.main.handler.onMessage payload).queue ∨ UnderWay p.main r ∨ r ∈ p.rejected
      ∨ Filed (p.main.handler.onMessage payload).roller r
    rw [hqueue, hroller, List.mem_append]
    rcases List.mem_append.mp hr with hr | hr
    · exact (hi.accepted r hr).imp_left Or.inl
    · exact Or.inl (Or.inr hr)
  · have hr : r ∈ (p.main.handler.onMessage payload).queue := hr
    rw [hqueue] at hr
    rcases List.mem_append.mp hr with hr | hr
    · exact List.mem_append_left _ (hi.queued r hr)
    · exact List.mem_append_right _ hr
  · show (p.main.handler.onMessage payload).roller.HoldsTrade x
    rw [hroller]
    exact hi.bridged x hx

/-- A record of a batch is in one of its groups. -/
theorem mem_groups {α : Type} {symbol : α → Sym} {items : List α} {it : α} (h : it ∈ items) :
    ∃ g ∈ FeedHandler.bySymbol symbol items, it ∈ g.2 :=
  ⟨(symbol it, items.filter (fun x => decide (symbol x = symbol it))),
    FeedHandler.mem_bySymbol.mpr ⟨⟨it, h, rfl⟩, rfl⟩,
    List.mem_filter.mpr ⟨h, decide_eq_true rfl⟩⟩

/-- **A batch**: what leaves the queue is under way. -/
theorem accounted_drain (hi : Accounted p) {f : Feeding}
    (hf : Feeding.step { p.main with handler := p.main.handler.drain.2 }
      (.batch p.main.handler.drain.1) = some f) :
    Accounted { p with main := f, at_ := .applying } := by
  obtain ⟨⟨-, htrades, hquotes⟩, rfl⟩ := Feeding.batch_step hf
  refine ⟨fun r hr => ?_, fun r hr => ?_, hi.bridged, fun h => absurd rfl h⟩
  · rcases hi.accepted r hr with h | h | h | h
    · have hsplit :
          r ∈ p.main.handler.queue.take batchMax ++ p.main.handler.queue.drop batchMax := by
        rwa [List.take_append_drop]
      rcases List.mem_append.mp hsplit with h | h
      · right
        left
        cases r with
        | trade t => exact mem_groups (List.mem_filterMap.mpr ⟨_, h, rfl⟩)
        | quote q => exact mem_groups (List.mem_filterMap.mpr ⟨_, h, rfl⟩)
      · exact Or.inl h
    · -- nothing was under way before
      exfalso
      cases r with
      | trade t =>
          obtain ⟨g, hg, -⟩ := h
          have htrades : p.main.trades = [] := htrades
          rw [htrades] at hg
          exact List.not_mem_nil hg
      | quote q =>
          obtain ⟨g, hg, -⟩ := h
          have hquotes : p.main.quotes = [] := hquotes
          rw [hquotes] at hg
          exact List.not_mem_nil hg
    · exact Or.inr (Or.inr (Or.inl h))
    · exact Or.inr (Or.inr (Or.inr h))
  · exact hi.queued r (List.mem_of_mem_drop hr)

/-- **The flush** keeps everything exactly when it is clean. -/
theorem kept_flush (hi : Accounted p) (hat : p.at_ = .stopped) :
    Kept { p with main := { p.main with handler := p.main.handler.shutdown }, at_ := .returned }
      ↔ Clean p .flush := by
  obtain ⟨htrades, hquotes⟩ := hi.idle (by rw [hat]; nofun)
  have hnone : ∀ r, ¬ UnderWay p.main r := by
    rintro (t | q) ⟨g, hg, -⟩
    · rw [htrades] at hg
      exact List.not_mem_nil hg
    · rw [hquotes] at hg
      exact List.not_mem_nil hg
  constructor
  · intro hkept
    obtain ⟨haccepted, hbridged⟩ := hkept rfl
    refine ⟨fun r hr => ?_, fun hday x hx => ?_⟩
    · exact (haccepted r (hi.queued r hr)).imp_right (saved_flush _ r).mp
    · have hsurvives := (RdbRoller.flush_trade _ x).mp (hbridged x hx)
      rw [hday] at hsurvives
      exact hsurvives
  · rintro ⟨hqueue, hday⟩ -
    refine ⟨fun r hr => ?_, fun x hx => (RdbRoller.flush_trade _ x).mpr ?_⟩
    · rcases hi.accepted r hr with h | h | h | h
      · exact (hqueue r h).imp_right (saved_flush _ r).mpr
      · exact absurd h (hnone r)
      · exact Or.inl h
      · right
        refine (saved_flush _ r).mpr ?_
        cases r with
        | trade t => exact Held.survives h.2 h.1
        | quote q => exact Held.survives h.2 h.1
    · cases hcur : p.main.handler.roller.currentDay with
      | none => exact hday hcur x hx
      | some cur =>
          have hheld := hi.bridged x hx
          rw [← hcur]
          exact Held.survives hheld (by rw [hcur]; nofun)

/-! ## Steps -/

/-- Before the flush the account is kept; after it the process only remembers. -/
def Sound (p : Process) : Prop := p.at_ ≠ .returned → Accounted p

/-- **What a step does**: keep the account short of the return, flush, or set the stop flag. -/
theorem step_cases {a : Action} (hp : step p a = some p') :
    (a ≠ .flush ∧ p.at_ ≠ .returned ∧ p'.at_ ≠ .returned ∧ (Accounted p → Accounted p'))
      ∨ (a = .flush ∧ p.at_ = .stopped ∧ p' = { p with
          main := { p.main with handler := p.main.handler.shutdown }, at_ := .returned })
      ∨ (a = .requestStop ∧ p' = { p with
          main := { p.main with handler := p.main.handler.requestStop } }) := by
  cases a with
  | requestStop =>
      cases hp
      exact Or.inr (Or.inr ⟨rfl, rfl⟩)
  | startSymbol sv =>
      obtain ⟨hat, hp⟩ := Option.ite_none_right_eq_some.mp hp
      obtain ⟨f, hf, rfl⟩ := call_eq hp
      have hne : p.at_ ≠ .returned := by rw [hat]; nofun
      exact Or.inl ⟨nofun, hne, hne, fun hi => accounted_call hi (advances_startSymbol hf)⟩
  | serve =>
      obtain ⟨⟨hat, -⟩, hp⟩ := Option.ite_none_right_eq_some.mp hp
      cases hp
      exact Or.inl ⟨nofun, by rw [hat]; nofun, nofun,
        fun hi => hi.goto (fun _ => hi.idle (by rw [hat]; nofun))⟩
  | connect =>
      obtain ⟨hat, hp⟩ := Option.ite_none_right_eq_some.mp hp
      obtain ⟨f, hf, rfl⟩ := call_eq hp
      have hne : p.at_ ≠ .returned := fun h => by rw [h] at hat; cases hat
      exact Or.inl ⟨nofun, hne, hne, fun hi => accounted_call hi (advances_connect hf)⟩
  | message payload =>
      obtain ⟨hat, hp⟩ := Option.ite_none_right_eq_some.mp hp
      cases hp
      have hne : p.at_ ≠ .returned := fun h => by rw [h] at hat; cases hat
      exact Or.inl ⟨nofun, hne, hne, fun hi => accounted_message hi payload⟩
  | check =>
      obtain ⟨hat, hp⟩ := Option.ite_none_right_eq_some.mp hp
      cases hp
      refine Or.inl ⟨nofun, by rw [hat]; nofun, ?_,
        fun hi => hi.goto (fun _ => hi.idle (by rw [hat]; nofun))⟩
      dsimp only
      split
      · nofun
      · nofun
  | timeout =>
      obtain ⟨⟨hat, -⟩, hp⟩ := Option.ite_none_right_eq_some.mp hp
      cases hp
      exact Or.inl ⟨nofun, by rw [hat]; nofun, nofun,
        fun hi => hi.goto (fun _ => hi.idle (by rw [hat]; nofun))⟩
  | drain =>
      obtain ⟨⟨hat, -⟩, hp⟩ := Option.ite_none_right_eq_some.mp hp
      obtain ⟨f, hf, rfl⟩ := Option.map_eq_some_iff.mp hp
      exact Or.inl ⟨nofun, by rw [hat]; nofun, nofun, fun hi => accounted_drain hi hf⟩
  | rebridge sv =>
      obtain ⟨hat, hp⟩ := Option.ite_none_right_eq_some.mp hp
      obtain ⟨f, hf, rfl⟩ := call_eq hp
      have hne : p.at_ ≠ .returned := by rw [hat]; nofun
      exact Or.inl ⟨nofun, hne, hne, fun hi => accounted_call hi (advances_rebridge hf)⟩
  | feed =>
      obtain ⟨hat, hp⟩ := Option.ite_none_right_eq_some.mp hp
      obtain ⟨f, hf, rfl⟩ := call_eq hp
      have hne : p.at_ ≠ .returned := by rw [hat]; nofun
      exact Or.inl ⟨nofun, hne, hne, fun hi => accounted_call hi (advances_feed hf)⟩
  | quoteGroup =>
      obtain ⟨hat, hp⟩ := Option.ite_none_right_eq_some.mp hp
      obtain ⟨f, hf, rfl⟩ := call_eq hp
      have hne : p.at_ ≠ .returned := by rw [hat]; nofun
      exact Or.inl ⟨nofun, hne, hne, fun hi => accounted_call hi (advances_quoteGroup hf)⟩
  | applied =>
      obtain ⟨⟨hat, hidle⟩, hp⟩ := Option.ite_none_right_eq_some.mp hp
      cases hp
      exact Or.inl ⟨nofun, by rw [hat]; nofun, nofun, fun hi => hi.goto (fun _ => hidle)⟩
  | loopStop =>
      obtain ⟨hat, hp⟩ := Option.ite_none_right_eq_some.mp hp
      cases hp
      exact Or.inl ⟨nofun, by rw [hat]; nofun, nofun,
        fun hi => hi.goto (fun _ => hi.idle (by rw [hat]; nofun))⟩
  | flush =>
      obtain ⟨hat, hp⟩ := Option.ite_none_right_eq_some.mp hp
      exact Or.inr (Or.inl ⟨rfl, hat, (Option.some.inj hp).symm⟩)

theorem sound_step {a : Action} (hi : Sound p) (hp : step p a = some p') : Sound p' := by
  rcases step_cases hp with ⟨-, hne, -, hkeep⟩ | ⟨-, -, rfl⟩ | ⟨-, rfl⟩
  · exact fun _ => hkeep (hi hne)
  · exact fun h => absurd rfl h
  · intro h
    have hi := hi h
    exact ⟨hi.accepted, hi.queued, hi.bridged, hi.idle⟩

theorem kept_step {a : Action} (hi : Sound p) (hkept : Kept p) (hp : step p a = some p') :
    Kept p' ↔ Clean p a := by
  rcases step_cases hp with ⟨hne, -, hne', -⟩ | ⟨rfl, hat, rfl⟩ | ⟨rfl, rfl⟩
  · have hclean : Clean p a := by
      cases a with
      | flush => exact absurd rfl hne
      | _ => trivial
    exact ⟨fun _ => hclean, fun _ h => absurd h hne'⟩
  · exact kept_flush (hi (by rw [hat]; nofun)) hat
  · exact ⟨fun _ => trivial, fun _ => hkept⟩

/-- **Shutdown.** -/
theorem kept_iff (symbols : List Sym) (w : HdbWriter) (as : List Action) :
    Always step Kept (start symbols w) as ↔ AllSteps step Clean (start symbols w) as := by
  have hall : AllSteps step (fun (_ : Process) (_ : Action) => True) (start symbols w) as :=
    allSteps_of_forall (p := fun _ => True) (fun _ _ => trivial) _
  refine always_iff_allSteps (I := Sound) (fun s a t hi _ ht => sound_step hi ht)
    (fun s a t hi hkept _ ht => kept_step hi hkept ht) (fun _ => accounted_start symbols w) ?_ hall
  exact fun h => nomatch h

end

/-- A store and a REST without a trade of the symbol. -/
def nothingStored : Services where
  venue := "binance"
  page := tradesLimit
  fetchTrades := fun _ _ _ => .ok []
  rounds := fun _ => 1
  maxStoredId := HdbWriter.maxStoredId
  maxStoredQuoteId := HdbWriter.maxStoredQuoteId

def lateQuote : QuoteTick := ⟨"binance", "BTCUSDT", 1, 100, 1, 101, 1, 1000⟩

/-- The signal comes while the loop waits for a record, and a quote right after it. -/
def stoppedRun : List Action :=
  [.startSymbol nothingStored, .serve, .connect, .check, .timeout, .requestStop,
    .message (some (.quote lateQuote)), .check, .loopStop, .flush]

theorem exec_stoppedRun : ∃ p, exec step (start ["BTCUSDT"] (HdbWriter.fresh Hdb.empty)) stoppedRun
      = some p
    ∧ p.at_ = .returned ∧ p.accepted = [.quote lateQuote] ∧ p.rejected = []
    ∧ p.main.handler.roller.writer.hdb.quote = ∅ := by
  exact ⟨_, rfl, rfl, rfl, rfl, rfl⟩

/-- The quote was accepted and is nowhere. -/
theorem lost_at_shutdown : ¬ ∀ (symbols : List Sym) (w : HdbWriter) (as : List Action),
    Always step Kept (start symbols w) as := by
  intro hall
  obtain ⟨p, hp, hat, haccepted, hrejected, hhdb⟩ := exec_stoppedRun
  have hkept : Kept p := (hall _ _ stoppedRun).last hp
  rcases (hkept hat).1 (.quote lateQuote) (by rw [haccepted]; exact List.mem_cons_self) with h | h
  · rw [hrejected] at h
    exact List.not_mem_nil h
  · obtain ⟨d, hd⟩ := h
    rw [hhdb] at hd
    exact List.not_mem_nil hd

end Process

end NanoTick
