import NanoTick.Backfill.Archive
import NanoTick.Basic.Paging
import Mathlib.Tactic

set_option autoImplicit false

/-! # The REST bridge

`bridge` (`resources/backfill.py`) pages REST trades from one past the highest stored id up to
a target id, or to the live tip, and inserts them straight into the writer, past the roller.

What the process reaches outside its own memory is a parameter, `Services`: the answers of
`fetch_trades` by request number, and the store's resume points. `bridge_serving` says what a
bridge does against a server that holds an ascending list of trades and answers each request
with one page of it: it inserts exactly the trades between the floor and the target.
-/

namespace NanoTick

open Python

/-! ## REST trades -/

/-- A trade as REST returns it. -/
structure RestTrade where
  id : Int
  time : Int
  price : ℚ
  qty : ℚ
  isBuyerMaker : Bool
  deriving DecidableEq, Repr

/-- `_to_millis`: microseconds, known by their size, are scaled down to milliseconds. -/
def toMillis (ts : Int) : Int := if 10 ^ 14 < ts then ts / 1000 else ts

/-- One row of `parse_rest_trades`: REST carries only the trade time. -/
def RestTrade.parse (symbol : Sym) (venue : String) (t : RestTrade) : Trade where
  time := toMillis t.time
  sym := symbol
  venue := venue
  tradeID := t.id
  price := t.price
  qty := t.qty
  eventTime := toMillis t.time
  buyerMaker := t.isBuyerMaker

/-- `parse_rest_trades`. -/
def parseRestTrades (trades : List RestTrade) (symbol : Sym) (venue : String) : List Trade :=
  trades.map (RestTrade.parse symbol venue)

/-- `TRADES_LIMIT`: the default page. -/
def tradesLimit : Nat := 1000

theorem tradesLimit_pos : 0 < tradesLimit := by decide

/-! ## `bridge` -/

/-- What the bridge and the feed handler reach outside their own memory. `rounds` bounds the
paging loop of a symbol. -/
structure Services where
  venue : String
  page : Nat
  fetchTrades : Sym → Nat → Int → Except PyErr (List RestTrade)
  rounds : Sym → Nat
  maxStoredId : HdbWriter → Sym → Option Int
  maxStoredQuoteId : HdbWriter → Sym → Option Int

/-- What `bridge` leaves: the writer, what it returns, and the exception it ends with. -/
structure BridgeResult where
  writer : HdbWriter
  inserted : Nat
  fromId : Option Int
  raised : Option PyErr
  deriving DecidableEq

/-- `target_id is None or id < target_id`. -/
def belowTarget (target : Option Int) (id : Int) : Bool :=
  target.all (fun t => decide (id < t))

/-- The paging loop, from request number `n` and id `start`. -/
def bridgeLoop (sv : Services) (symbol : Sym) (target : Option Int) (from_ : Int) :
    Nat → Nat → Int → HdbWriter → Nat → BridgeResult
  | 0, _, _, w, inserted => ⟨w, inserted, some from_, some .running⟩
  | rounds + 1, n, start, w, inserted =>
      if belowTarget target start then
        match sv.fetchTrades symbol n start with
        | .error e => ⟨w, inserted, some from_, some e⟩
        | .ok fetched =>
            -- an empty page, or one with nothing below the target, ends the loop
            let trades := fetched.filter (fun t => belowTarget target t.id)
            match trades.getLast? with
            | none => ⟨w, inserted, some from_, none⟩
            | some last =>
                let w := w.insert (parseRestTrades trades symbol sv.venue)
                let inserted := inserted + trades.length
                -- a short page is the live tip, or the one the target cuts
                if trades.length < sv.page then ⟨w, inserted, some from_, none⟩
                else bridgeLoop sv symbol target from_ rounds (n + 1) (last.id + 1) w inserted
      else ⟨w, inserted, some from_, none⟩

/-- `bridge`: nothing to bridge from without a stored id. -/
def bridge (sv : Services) (w : HdbWriter) (symbol : Sym) (target : Option Int) : BridgeResult :=
  match sv.maxStoredId w symbol with
  | none => ⟨w, 0, none, none⟩
  | some floor =>
      bridgeLoop sv symbol target (floor + 1) (sv.rounds symbol) 0 (floor + 1) w 0

/-- The paging loop inserts, and does nothing else to the writer. -/
theorem bridgeLoop_writer (sv : Services) (symbol : Sym) (target : Option Int) (from_ : Int)
    (rounds n : Nat) (start : Int) (w : HdbWriter) (inserted : Nat) : ∃ cols : List Trade,
      (bridgeLoop sv symbol target from_ rounds n start w inserted).writer = w.insert cols := by
  induction rounds generalizing n start w inserted with
  | zero => exact ⟨[], (insert_nil w).symm⟩
  | succ rounds ih =>
      rw [bridgeLoop]
      split
      · split
        · exact ⟨[], (insert_nil w).symm⟩
        · dsimp only
          split
          · exact ⟨[], (insert_nil w).symm⟩
          · split
            · exact ⟨_, rfl⟩
            · obtain ⟨cols, hcols⟩ := ih _ _ (w.insert _) _
              exact ⟨_, hcols.trans (insert_insert w _ cols)⟩
      · exact ⟨[], (insert_nil w).symm⟩

theorem bridge_writer (sv : Services) (w : HdbWriter) (symbol : Sym) (target : Option Int) :
    ∃ cols : List Trade, (bridge sv w symbol target).writer = w.insert cols := by
  unfold bridge
  split
  · exact ⟨[], (insert_nil w).symm⟩
  · exact bridgeLoop_writer sv symbol target _ _ _ _ _ _

/-- A bridge inserts into memory only. -/
theorem bridge_hdb (sv : Services) (w : HdbWriter) (symbol : Sym) (target : Option Int) :
    (bridge sv w symbol target).writer.hdb = w.hdb := by
  obtain ⟨cols, hcols⟩ := bridge_writer sv w symbol target
  rw [hcols, insert_hdb]

/-! ## Against a server -/

/-- What REST holds of one symbol: trades in ascending order of their ids. -/
structure Server where
  trades : List RestTrade
  ascending : Paging.Ascending RestTrade.id trades

/-- The trades above `floor` and below the target. -/
def Server.gap (srv : Server) (floor : Int) (target : Option Int) : List RestTrade :=
  (Paging.above RestTrade.id (floor + 1) srv.trades).filter (fun t => belowTarget target t.id)

/-- REST answers each request about symbol `s` with one page of the server's trades, and the
loop bound does not stop a bridge of it. -/
structure Serves (sv : Services) (s : Sym) (srv : Server) : Prop where
  fetch : ∀ n f, sv.fetchTrades s n f = .ok (Paging.page RestTrade.id sv.page f srv.trades)
  page_pos : 0 < sv.page
  rounds : srv.trades.length < sv.rounds s

theorem Server.mem_gap {srv : Server} {floor : Int} {target : Option Int} {t : RestTrade} :
    t ∈ srv.gap floor target
      ↔ t ∈ srv.trades ∧ floor < t.id ∧ ∀ m, target = some m → t.id < m := by
  rw [gap, List.mem_filter, Paging.mem_above, belowTarget, and_assoc]
  cases target with
  | none => simp only [Option.all_none, Int.add_one_le_iff]; simp
  | some m => simp only [Option.all_some, decide_eq_true_eq, Int.add_one_le_iff]; simp

theorem belowTarget_lower {target : Option Int} {i j : Int} (h : i < j)
    (hj : belowTarget target j = true) : belowTarget target i = true := by
  cases target with
  | none => rfl
  | some t => exact decide_eq_true (lt_trans h (of_decide_eq_true hj))

/-- The trades a page contributes: as many of the gap as a page holds. -/
theorem Server.page_gap (srv : Server) (target : Option Int) (n : Nat) (floor : Int) :
    (Paging.page RestTrade.id n (floor + 1) srv.trades).filter (fun t => belowTarget target t.id)
      = (srv.gap floor target).take n :=
  Paging.filter_take (srv.ascending.above _) (fun _ _ h hb => belowTarget_lower h hb) n

theorem Server.gap_ascending (srv : Server) (floor : Int) (target : Option Int) :
    Paging.Ascending RestTrade.id (srv.gap floor target) :=
  (srv.ascending.above _).filter _

/-- After a page that ends at `last`, the gap that remains is what the page left. -/
theorem Server.gap_last {srv : Server} {floor : Int} {target : Option Int} {n : Nat}
    {last : RestTrade} (h : ((srv.gap floor target).take n).getLast? = some last) :
    srv.gap last.id target = (srv.gap floor target).drop n := by
  have hle : floor + 1 ≤ last.id + 1 := by
    have hlast := mem_gap.mp (List.mem_of_mem_take (List.mem_of_getLast? h))
    omega
  calc srv.gap last.id target
      = Paging.above RestTrade.id (last.id + 1) (srv.gap floor target) := by
        rw [gap, gap, Paging.above_filter, Paging.above_above hle]
    _ = (srv.gap floor target).drop n := Paging.above_last (srv.gap_ascending _ _) h

@[simp] theorem parseRestTrades_nil (s : Sym) (venue : String) :
    parseRestTrades [] s venue = [] := rfl

theorem parseRestTrades_append (a b : List RestTrade) (s : Sym) (venue : String) :
    parseRestTrades (a ++ b) s venue = parseRestTrades a s venue ++ parseRestTrades b s venue :=
  List.map_append

/-- A loop with nothing left between its start and the target stops. -/
theorem Server.gap_eq_nil {srv : Server} {floor : Int} {target : Option Int}
    (h : belowTarget target (floor + 1) = false) : srv.gap floor target = [] := by
  rw [List.eq_nil_iff_forall_not_mem]
  intro t ht
  obtain ⟨habove, hbelow⟩ := List.mem_filter.mp ht
  have hle : floor + 1 ≤ t.id := (Paging.mem_above.mp habove).2
  rcases hle.lt_or_eq with hlt | heq
  · rw [belowTarget_lower hlt hbelow] at h
    cases h
  · rw [heq, hbelow] at h
    cases h

/-- **One page of a bridge.** Where less than a page is left, the loop inserts it and ends;
otherwise it inserts a page and goes on from its last id, with what the page left. -/
theorem bridgeLoop_page {sv : Services} {s : Sym} {srv : Server} (target : Option Int)
    (from_ : Int) (rounds n : Nat) (floor : Int) (w : HdbWriter) (inserted : Nat)
    (hfetch : sv.fetchTrades s n (floor + 1)
      = .ok (Paging.page RestTrade.id sv.page (floor + 1) srv.trades))
    (hpos : 0 < sv.page) :
    ((srv.gap floor target).length < sv.page
        ∧ bridgeLoop sv s target from_ (rounds + 1) n (floor + 1) w inserted
          = ⟨w.insert (parseRestTrades (srv.gap floor target) s sv.venue),
              inserted + (srv.gap floor target).length, some from_, none⟩)
      ∨ (∃ last : RestTrade, sv.page ≤ (srv.gap floor target).length
        ∧ srv.gap last.id target = (srv.gap floor target).drop sv.page
        ∧ bridgeLoop sv s target from_ (rounds + 1) n (floor + 1) w inserted
          = bridgeLoop sv s target from_ rounds (n + 1) (last.id + 1)
              (w.insert (parseRestTrades ((srv.gap floor target).take sv.page) s sv.venue))
              (inserted + sv.page)) := by
  rw [bridgeLoop, hfetch]
  dsimp only
  rw [Server.page_gap]
  cases hbelow : belowTarget target (floor + 1) with
  | false =>
      refine Or.inl ⟨?_, ?_⟩
      · rw [Server.gap_eq_nil hbelow]
        exact hpos
      · rw [if_neg Bool.false_ne_true, Server.gap_eq_nil hbelow, parseRestTrades_nil, insert_nil,
          List.length_nil, Nat.add_zero]
  | true =>
      rw [if_pos rfl]
      cases hlast : ((srv.gap floor target).take sv.page).getLast? with
      | none =>
          have hnil : srv.gap floor target = [] := by
            rcases List.take_eq_nil_iff.mp (List.getLast?_eq_none_iff.mp hlast) with h0 | h0
            · exact absurd h0 hpos.ne'
            · exact h0
          refine Or.inl ⟨?_, ?_⟩
          · rw [hnil]
            exact hpos
          · rw [hnil, parseRestTrades_nil, insert_nil]
            rfl
      | some last =>
          dsimp only
          by_cases hshort : (srv.gap floor target).length < sv.page
          · -- a short page was the whole gap
            have hall : (srv.gap floor target).take sv.page = srv.gap floor target :=
              List.take_of_length_le hshort.le
            refine Or.inl ⟨hshort, ?_⟩
            rw [hall, if_pos hshort]
          · have hfull : sv.page ≤ (srv.gap floor target).length := not_lt.mp hshort
            have hlen : ((srv.gap floor target).take sv.page).length = sv.page := by
              rw [List.length_take]
              omega
            refine Or.inr ⟨last, hfull, Server.gap_last hlast, ?_⟩
            rw [hlen, if_neg (lt_irrefl _)]

/-- What a page and the later ones insert is the whole. -/
theorem insert_take_drop (w : HdbWriter) (l : List RestTrade) (n : Nat) (s : Sym)
    (venue : String) :
    (w.insert (parseRestTrades (l.take n) s venue)).insert (parseRestTrades (l.drop n) s venue)
      = w.insert (parseRestTrades l s venue) := by
  rw [insert_insert, ← parseRestTrades_append, List.take_append_drop]

/-- The loop inserts the gap, page by page. The induction is on the rounds left; each round
that goes on has inserted a full page, so the gap left is shorter. -/
theorem bridgeLoop_serving {sv : Services} {s : Sym} {srv : Server} (h : Serves sv s srv)
    (target : Option Int) (from_ : Int) (rounds n : Nat) (floor : Int) (w : HdbWriter)
    (inserted : Nat) (hrounds : (srv.gap floor target).length < rounds) :
    bridgeLoop sv s target from_ rounds n (floor + 1) w inserted
      = ⟨w.insert (parseRestTrades (srv.gap floor target) s sv.venue),
          inserted + (srv.gap floor target).length, some from_, none⟩ := by
  induction rounds generalizing n floor w inserted with
  | zero => omega
  | succ rounds ih =>
      have hpos := h.page_pos
      rcases bridgeLoop_page target from_ rounds n floor w inserted (h.fetch n _) hpos with
        ⟨-, hend⟩ | ⟨last, hfull, hdrop, hstep⟩
      · exact hend
      · have hsum : sv.page + (srv.gap last.id target).length
            = (srv.gap floor target).length := by
          rw [hdrop, List.length_drop]
          omega
        rw [hstep, ih (n + 1) last.id _ _ (by omega), add_assoc, hsum, hdrop, insert_take_drop]

/-- **A bridge fills the gap**: the server's trades above the stored floor and below the
target, in ascending order, each once. -/
theorem bridge_serving {sv : Services} {s : Sym} {srv : Server} (h : Serves sv s srv)
    {w : HdbWriter} {floor : Int} (hfloor : sv.maxStoredId w s = some floor)
    (target : Option Int) :
    bridge sv w s target
      = ⟨w.insert (parseRestTrades (srv.gap floor target) s sv.venue),
          (srv.gap floor target).length, some (floor + 1), none⟩ := by
  have hle : (srv.gap floor target).length ≤ srv.trades.length :=
    le_trans (List.length_filter_le _ _) (List.length_filter_le _ _)
  unfold bridge
  rw [hfloor]
  dsimp only
  rw [bridgeLoop_serving h target (floor + 1) (sv.rounds s) 0 floor w 0
    (lt_of_le_of_lt hle h.rounds), Nat.zero_add]

theorem bridge_of_none {sv : Services} {s : Sym} {w : HdbWriter}
    (hfloor : sv.maxStoredId w s = none) (target : Option Int) :
    bridge sv w s target = ⟨w, 0, none, none⟩ := by
  unfold bridge
  rw [hfloor]

end NanoTick
