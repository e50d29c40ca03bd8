import NanoTick.Live.Link
import Mathlib.Tactic

set_option autoImplicit false

/-! # Records in flight, and the steps of the link

One inversion lemma for each action of the link, the invariant on the records between the
exchange and the store (`Flight`), and `step_cases`: the network thread and the surroundings
touch neither the store nor the floors.
-/

namespace NanoTick

open Python

namespace Link

/-! ## Records in flight -/

/-- The trade was published. -/
def Issued (published : Sym → Nat) (t : Tick) : Prop :=
  0 ≤ t.tradeId ∧ t.tradeId < published t.symbol

/-- Every trade under way was published, and the groups of a batch are by symbol. While symbols
are still to be bridged there is no batch. -/
structure Flight (l : Link) : Prop where
  broker : ∀ t, .trade t ∈ l.broker → Issued l.published t
  queue : ∀ t, .trade t ∈ l.handler.queue → Issued l.published t
  groups : ∀ g ∈ l.trades, ∀ t ∈ g.2, t.symbol = g.1 ∧ Issued l.published t
  quiet : l.starting ≠ [] → l.trades = [] ∧ l.quotes = []

theorem flight_start (o : Origin) (symbols : List Sym) : (start o symbols).Flight where
  broker := o.backlog_published
  queue := fun _ h => absurd h List.not_mem_nil
  groups := fun _ h => absurd h List.not_mem_nil
  quiet := fun _ => ⟨rfl, rfl⟩

theorem Issued.mono {p p' : Sym → Nat} {t : Tick} (h : Issued p t)
    (hle : ∀ s, p s ≤ p' s) : Issued p' t :=
  ⟨h.1, lt_of_lt_of_le h.2 (by exact_mod_cast hle t.symbol)⟩

theorem le_update_succ (p : Sym → Nat) (s q : Sym) : p q ≤ Function.update p s (p s + 1) q := by
  by_cases hq : q = s
  · subst hq
    rw [Function.update_self]
    omega
  · rw [Function.update_of_ne hq]

theorem mem_onMessage {h : FeedHandler} {r r' : Record}
    (hr : r' ∈ (h.onMessage (some r)).queue) : r' ∈ h.queue ∨ r' = r := by
  unfold FeedHandler.onMessage at hr
  dsimp only at hr
  split at hr
  · rcases List.mem_append.mp hr with hr | hr
    · exact Or.inl hr
    · exact Or.inr (List.mem_singleton.mp hr)
  · exact Or.inl hr

theorem mem_tradesOf {batch : List Record} {t : Tick} (h : t ∈ tradesOf batch) :
    .trade t ∈ batch := by
  obtain ⟨r, hr, heq⟩ := List.mem_filterMap.mp h
  cases r with
  | trade u =>
      cases heq
      exact hr
  | quote q => cases heq

/-- The handler's calls on the main thread leave its queue. -/
theorem applyGroup_queue {sv : Services} {h h' : FeedHandler} {s : Sym} {g : List Tick}
    (hok : h.applyGroup sv s g = .ok h') : h'.queue = h.queue := by
  obtain ⟨h₁, hbridge, hfeed⟩ := FeedHandler.applyGroup_eq_ok hok
  rw [(FeedHandler.feedGroup_cases hfeed).2]
  rcases FeedHandler.rebridgeGroup_cases hbridge with ⟨rfl | rfl, -⟩ | ⟨-, _, _, -, -, -, rfl⟩
  · rfl
  · rfl
  · rfl

/-! ## Steps -/

/-- A step of the surroundings: the store and the floors stay. -/
structure Around (l l' : Link) : Prop where
  roller : l'.handler.roller = l.handler.roller
  lastId : l'.handler.lastId = l.handler.lastId
  starting : l'.starting = l.starting
  published : ∀ q, l.published q ≤ l'.published q

theorem around_onMessage (h : FeedHandler) (r : Record) :
    (h.onMessage (some r)).roller = h.roller ∧ (h.onMessage (some r)).lastId = h.lastId := by
  unfold FeedHandler.onMessage
  dsimp only
  split
  · exact ⟨rfl, rfl⟩
  · exact ⟨rfl, rfl⟩

section

variable {ex : Exchange} {l l' : Link}

theorem publishTrade_eq {t : Tick} (h : step ex l (.publishTrade t) = some l') :
    t.tradeId = l.published t.symbol ∧ l' = { l with
      published := Function.update l.published t.symbol (l.published t.symbol + 1)
      broker := l.broker ++ [.trade t] } := by
  dsimp only [step] at h
  obtain ⟨hid, h⟩ := Option.ite_none_right_eq_some.mp h
  exact ⟨hid, (Option.some.inj h).symm⟩

theorem disconnect_eq (h : step ex l .disconnect = some l') :
    l' = { l with connected := false } := by
  dsimp only [step] at h
  exact (Option.some.inj (Option.ite_none_right_eq_some.mp h).2).symm

theorem brokerDrop_eq {i : Nat} (h : step ex l (.brokerDrop i) = some l') :
    ∃ r, l.broker[i]? = some r ∧ l.connected = false
      ∧ l' = { l with broker := l.broker.eraseIdx i, lossAt := l.lose r } := by
  dsimp only [step] at h
  split at h
  · cases h
  · rename_i r hr
    split at h
    · cases h
    · rename_i hc
      exact ⟨r, hr, Bool.eq_false_iff.mpr hc, (Option.some.inj h).symm⟩

theorem connect_eq (h : step ex l .connect = some l') :
    (l.connected = false ∧ l.starting = [])
      ∧ l' = { l with handler := l.handler.onConnect, connected := true } := by
  dsimp only [step] at h
  obtain ⟨hc, h⟩ := Option.ite_none_right_eq_some.mp h
  exact ⟨hc, (Option.some.inj h).symm⟩

theorem deliver_eq {acked : Bool} (h : step ex l (.deliver acked) = some l') :
    ∃ r rest, l.broker = r :: rest ∧ l' = { l with
      handler := l.handler.onMessage (some r)
      broker := if acked then rest else l.broker
      lossAt :=
        if acked ∧ ¬ l.handler.queue.length < queueMaxsize then l.lose r else l.lossAt } := by
  dsimp only [step] at h
  split at h
  · cases h
  · rename_i r rest hbroker
    split at h
    · exact ⟨r, rest, hbroker, (Option.some.inj h).symm⟩
    · cases h

theorem startSymbol_step (h : step ex l .startSymbol = some l') :
    ∃ q rest h₁, l.starting = q :: rest
      ∧ l.handler.startSymbol (ex.services l.published) q = .ok h₁
      ∧ l' = { l with handler := if rest = [] then h₁.flagAll else h₁, starting := rest } := by
  dsimp only [step] at h
  split at h
  · cases h
  · rename_i q rest hstarting
    split at h
    · cases h
    · rename_i h₁ hok
      exact ⟨q, rest, h₁, hstarting, hok, (Option.some.inj h).symm⟩

theorem drain_eq (h : step ex l .drain = some l') :
    l.starting = [] ∧ l' = { l with
      handler := l.handler.drain.2
      trades := FeedHandler.bySymbol Tick.symbol (tradesOf l.handler.drain.1)
      quotes := FeedHandler.bySymbol QuoteTick.symbol (quotesOf l.handler.drain.1) } := by
  dsimp only [step] at h
  obtain ⟨hguard, h⟩ := Option.ite_none_right_eq_some.mp h
  exact ⟨hguard.1, (Option.some.inj h).symm⟩

theorem group_eq (h : step ex l .group = some l') :
    ∃ g rest h₁, l.trades = g :: rest
      ∧ l.handler.applyGroup (ex.services l.published) g.1 g.2 = .ok h₁
      ∧ l' = { l with handler := h₁, trades := rest, lossAt := l.settle g } := by
  dsimp only [step] at h
  split at h
  · cases h
  · rename_i g rest htrades
    split at h
    · cases h
    · rename_i h₁ hok
      exact ⟨g, rest, h₁, htrades, hok, (Option.some.inj h).symm⟩

theorem quoteGroup_eq (h : step ex l .quoteGroup = some l') :
    ∃ g rest h₁, l.quotes = g :: rest ∧ l.handler.applyQuoteGroup g.1 g.2 = .ok h₁
      ∧ l' = { l with handler := h₁, quotes := rest } := by
  dsimp only [step] at h
  split at h
  · cases h
  · rename_i g rest hquotes
    split at h
    · split at h
      · cases h
      · rename_i h₁ hok
        exact ⟨g, rest, h₁, hquotes, hok, (Option.some.inj h).symm⟩
    · cases h

/-- **What a step does** to the store and the floors: only the main thread touches them. -/
theorem step_cases {a : LinkAction} (h : step ex l a = some l') :
    (a ≠ .group ∧ Around l l') ∨ a = .startSymbol ∨ a = .group ∨ a = .quoteGroup := by
  cases a with
  | publishTrade t =>
      obtain ⟨-, rfl⟩ := publishTrade_eq h
      exact Or.inl ⟨by simp, rfl, rfl, rfl, le_update_succ l.published t.symbol⟩
  | publishQuote q =>
      cases h
      exact Or.inl ⟨by simp, rfl, rfl, rfl, fun _ => le_refl _⟩
  | disconnect =>
      rw [disconnect_eq h]
      exact Or.inl ⟨by simp, rfl, rfl, rfl, fun _ => le_refl _⟩
  | brokerDrop i =>
      obtain ⟨r, -, -, rfl⟩ := brokerDrop_eq h
      exact Or.inl ⟨by simp, rfl, rfl, rfl, fun _ => le_refl _⟩
  | connect =>
      obtain ⟨-, rfl⟩ := connect_eq h
      obtain ⟨hroller, hlast, -⟩ := l.handler.onConnect_frame
      exact Or.inl ⟨by simp, hroller, hlast, rfl, fun _ => le_refl _⟩
  | deliver acked =>
      obtain ⟨r, rest, -, rfl⟩ := deliver_eq h
      obtain ⟨hroller, hlast⟩ := around_onMessage l.handler r
      exact Or.inl ⟨by simp, hroller, hlast, rfl, fun _ => le_refl _⟩
  | drain =>
      obtain ⟨-, rfl⟩ := drain_eq h
      exact Or.inl ⟨by simp, rfl, rfl, rfl, fun _ => le_refl _⟩
  | startSymbol => exact Or.inr (Or.inl rfl)
  | group => exact Or.inr (Or.inr (Or.inl rfl))
  | quoteGroup => exact Or.inr (Or.inr (Or.inr rfl))

/-- The records in flight stay issued and sorted by symbol. -/
theorem flight_step {a : LinkAction} (hl : l.Flight) (h : step ex l a = some l') :
    l'.Flight := by
  cases a with
  | publishTrade t =>
      obtain ⟨hid, rfl⟩ := publishTrade_eq h
      have hmono := le_update_succ l.published t.symbol
      refine ⟨?_, fun u hu => (hl.queue u hu).mono hmono,
        fun g hg u hu => ⟨(hl.groups g hg u hu).1, (hl.groups g hg u hu).2.mono hmono⟩, hl.quiet⟩
      intro u hu
      rcases List.mem_append.mp hu with hu | hu
      · exact (hl.broker u hu).mono hmono
      · cases List.mem_singleton.mp hu
        show 0 ≤ t.tradeId ∧ t.tradeId
          < Function.update l.published t.symbol (l.published t.symbol + 1) t.symbol
        rw [Function.update_self, hid]
        omega
  | publishQuote q =>
      cases h
      refine ⟨?_, hl.queue, hl.groups, hl.quiet⟩
      intro u hu
      rcases List.mem_append.mp hu with hu | hu
      · exact hl.broker u hu
      · cases List.mem_singleton.mp hu
  | disconnect =>
      rw [disconnect_eq h]
      exact ⟨hl.broker, hl.queue, hl.groups, hl.quiet⟩
  | brokerDrop i =>
      obtain ⟨r, -, -, rfl⟩ := brokerDrop_eq h
      exact ⟨fun u hu => hl.broker u (List.mem_of_mem_eraseIdx hu), hl.queue, hl.groups, hl.quiet⟩
  | connect =>
      obtain ⟨-, rfl⟩ := connect_eq h
      refine ⟨hl.broker, ?_, hl.groups, hl.quiet⟩
      rw [l.handler.onConnect_frame.2.2]
      exact hl.queue
  | deliver acked =>
      obtain ⟨r, rest, hbroker, rfl⟩ := deliver_eq h
      refine ⟨?_, ?_, hl.groups, hl.quiet⟩
      · intro u hu
        apply hl.broker u
        -- an unacknowledged message stays at the head of the broker's queue
        cases acked with
        | true =>
            rw [hbroker]
            exact List.mem_cons_of_mem r hu
        | false => exact hu
      · intro u hu
        rcases mem_onMessage hu with hu | hu
        · exact hl.queue u hu
        · apply hl.broker u
          rw [hbroker, hu]
          exact List.mem_cons_self
  | startSymbol =>
      obtain ⟨q, rest, h₁, hstarting, hok, rfl⟩ := startSymbol_step h
      have hqueue : (if rest = [] then h₁.flagAll else h₁).queue = l.handler.queue := by
        rw [(h₁.flagAll_frame (rest = [])).2.2, FeedHandler.startSymbol_eq hok]
      refine ⟨hl.broker, ?_, hl.groups, fun _ => hl.quiet ?_⟩
      · rw [hqueue]
        exact hl.queue
      · rw [hstarting]
        exact List.cons_ne_nil q rest
  | drain =>
      obtain ⟨hstarted, rfl⟩ := drain_eq h
      refine ⟨hl.broker, fun u hu => hl.queue u (List.mem_of_mem_drop hu), ?_,
        fun hne => absurd hstarted hne⟩
      intro g hg u hu
      obtain ⟨hmem, hsym⟩ := FeedHandler.of_mem_group hg hu
      exact ⟨hsym, hl.queue u (List.mem_of_mem_take (mem_tradesOf hmem))⟩
  | group =>
      obtain ⟨g, rest, h₁, htrades, hok, rfl⟩ := group_eq h
      refine ⟨hl.broker, ?_, ?_, fun hne => ?_⟩
      · rw [applyGroup_queue hok]
        exact hl.queue
      · intro g' hg'
        apply hl.groups g'
        rw [htrades]
        exact List.mem_cons_of_mem g hg'
      · have hnil := (hl.quiet hne).1
        rw [htrades] at hnil
        cases hnil
  | quoteGroup =>
      obtain ⟨g, rest, h₁, hquotes, hok, rfl⟩ := quoteGroup_eq h
      refine ⟨hl.broker, ?_, hl.groups, fun hne => ?_⟩
      · obtain ⟨-, q, hq⟩ := FeedHandler.applyQuoteGroup_cases hok
        rw [hq]
        exact hl.queue
      · have hnil := (hl.quiet hne).2
        rw [hquotes] at hnil
        cases hnil

end

end Link

end NanoTick
