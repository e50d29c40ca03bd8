import NanoTick.Backfill.Bridge
import NanoTick.Store.ResumePoint
import Mathlib.Tactic

set_option autoImplicit false

/-! # A bridge that is interrupted and run again

A request of a bridge may raise, after any number of pages; the bridge then ends with the
exception, and what it inserted stays in memory. The next bridge starts from the highest
stored id of then. That is the last id the first one inserted, or its own floor when it
inserted nothing (`maxStoredId_insert_gap`), so the two together insert what one bridge without
the failure inserts, each trade once (`bridge_resumes`).
-/

namespace NanoTick

open Python

/-- The same services with REST failing from request `k` of a bridge on. -/
def Services.failing (sv : Services) (k : Nat) (e : PyErr) : Services :=
  { sv with fetchTrades := fun s n f => if n < k then sv.fetchTrades s n f else .error e }

@[simp] theorem failing_page (sv : Services) (k : Nat) (e : PyErr) :
    (sv.failing k e).page = sv.page := rfl

@[simp] theorem failing_venue (sv : Services) (k : Nat) (e : PyErr) :
    (sv.failing k e).venue = sv.venue := rfl

/-! ## The interrupted run -/

/-- A loop that REST answers `k` more times inserts `k` pages of the gap, or all of it. -/
theorem bridgeLoop_failing {sv : Services} {s : Sym} {srv : Server} (h : Serves sv s srv)
    (e : PyErr) (target : Option Int) (from_ : Int) (rounds k n : Nat) (floor : Int)
    (w : HdbWriter) (inserted : Nat) (hrounds : (srv.gap floor target).length < rounds) :
    ∃ raised : Option PyErr, (raised = none ∨ raised = some e) ∧
      bridgeLoop (sv.failing (n + k) e) s target from_ rounds n (floor + 1) w inserted
        = ⟨w.insert (parseRestTrades ((srv.gap floor target).take (k * sv.page)) s sv.venue),
            inserted + ((srv.gap floor target).take (k * sv.page)).length, some from_, raised⟩ := by
  induction rounds generalizing k n floor w inserted with
  | zero => omega
  | succ rounds ih =>
      cases k with
      | zero =>
          rw [Nat.zero_mul, List.take_zero, parseRestTrades_nil, insert_nil, bridgeLoop]
          have hfetch : (sv.failing (n + 0) e).fetchTrades s n (floor + 1) = .error e :=
            if_neg (lt_irrefl n)
          rw [hfetch]
          split
          · exact ⟨some e, Or.inr rfl, rfl⟩
          · exact ⟨none, Or.inl rfl, rfl⟩
      | succ k =>
          have hpos := h.page_pos
          have hfetch : (sv.failing (n + (k + 1)) e).fetchTrades s n (floor + 1)
              = .ok (Paging.page RestTrade.id sv.page (floor + 1) srv.trades) := by
            rw [← h.fetch n (floor + 1)]
            exact if_pos (by omega)
          rcases bridgeLoop_page target from_ rounds n floor w inserted hfetch hpos with
            ⟨hshort, hend⟩ | ⟨last, hfull, hdrop, hstep⟩
          · -- the last page comes before the failure
            have hall : (srv.gap floor target).take ((k + 1) * sv.page)
                = srv.gap floor target := by
              apply List.take_of_length_le
              calc (srv.gap floor target).length ≤ sv.page := le_of_lt hshort
                _ ≤ (k + 1) * sv.page := Nat.le_mul_of_pos_left _ (Nat.succ_pos k)
            refine ⟨none, Or.inl rfl, ?_⟩
            rw [hend, hall]
            rfl
          · rw [failing_page] at hfull hstep hdrop
            rw [failing_venue] at hstep
            have hlen : (srv.gap last.id target).length
                = (srv.gap floor target).length - sv.page := by
              rw [hdrop, List.length_drop]
            obtain ⟨raised, hraised, hrun⟩ := ih k (n + 1) last.id
              (w.insert (parseRestTrades ((srv.gap floor target).take sv.page) s sv.venue))
              (inserted + sv.page) (by omega)
            have hindex : n + 1 + k = n + (k + 1) := by omega
            rw [hindex, ← hstep] at hrun
            -- one page, then `k` pages of what it left
            have htake : (srv.gap floor target).take ((k + 1) * sv.page)
                = (srv.gap floor target).take sv.page
                  ++ (srv.gap last.id target).take (k * sv.page) := by
              rw [hdrop, Nat.succ_mul, Nat.add_comm, List.take_add]
            refine ⟨raised, hraised, ?_⟩
            rw [hrun, htake, insert_insert, ← parseRestTrades_append, List.length_append,
              List.length_take_of_le hfull, Nat.add_assoc]

/-! ## The next resume point -/

/-- Nothing in memory is above the resume point. -/
theorem le_maxStoredId {w : HdbWriter} {s : Sym} {floor : Int} (h : w.maxStoredId s = some floor)
    {r : Trade} (hr : r ∈ w.trade) (hs : r.sym = s) : r.tradeID ≤ floor := by
  unfold HdbWriter.maxStoredId maxId at h
  split at h
  · rename_i m hm
    cases h
    exact (symMax_eq_some.mp hm).2 r hr hs
  · rename_i hm
    exact absurd hs (symMax_eq_none.mp hm r hr)

/-- After trades of the symbol above the resume point were inserted, the resume point is the
id of the last of them. -/
theorem maxStoredId_insert {w : HdbWriter} {s : Sym} {floor : Int}
    (h : w.maxStoredId s = some floor) {trades : List RestTrade} {venue : String}
    (hasc : Paging.Ascending RestTrade.id trades) (habove : ∀ t ∈ trades, floor < t.id)
    {last : RestTrade} (hlast : trades.getLast? = some last) :
    (w.insert (parseRestTrades trades s venue)).maxStoredId s = some last.id := by
  have hmem : last ∈ trades := List.mem_of_getLast? hlast
  have hmax : (((w.insert (parseRestTrades trades s venue)).trade.filter
      (fun r => decide (r.sym = s))).map Trade.tradeID).max? = some last.id := by
    apply symMax_eq_some.mpr
    rw [insert_trade]
    refine ⟨⟨((last.parse s venue).ofRaw), ?_, rfl, rfl⟩, ?_⟩
    · exact List.mem_append_right _ (List.mem_map_of_mem (List.mem_map_of_mem hmem))
    · intro r hr hs
      rcases List.mem_append.mp hr with hr | hr
      · exact ((le_maxStoredId h hr hs).trans_lt (habove last hmem)).le
      · obtain ⟨c, hc, rfl⟩ := List.mem_map.mp hr
        obtain ⟨t, ht, rfl⟩ := List.mem_map.mp hc
        exact hasc.le_last hlast ht
  unfold HdbWriter.maxStoredId maxId
  rw [hmax]

/-- After a prefix of the gap was inserted, what is above the new resume point is the rest. -/
theorem maxStoredId_insert_gap {w : HdbWriter} {s : Sym} {floor : Int} (srv : Server)
    (h : w.maxStoredId s = some floor) (target : Option Int) (venue : String) (m : Nat) :
    ∃ floor', (w.insert (parseRestTrades ((srv.gap floor target).take m) s venue)).maxStoredId s
        = some floor' ∧ srv.gap floor' target = (srv.gap floor target).drop m := by
  cases hlast : ((srv.gap floor target).take m).getLast? with
  | none =>
      have hnil : (srv.gap floor target).take m = [] := List.getLast?_eq_none_iff.mp hlast
      refine ⟨floor, ?_, ?_⟩
      · rw [hnil, parseRestTrades_nil, insert_nil]
        exact h
      · rcases List.take_eq_nil_iff.mp hnil with rfl | h0
        · rw [List.drop_zero]
        · rw [h0, List.drop_nil]
  | some last =>
      refine ⟨last.id, maxStoredId_insert h ?_ ?_ hlast, Server.gap_last hlast⟩
      · exact (srv.gap_ascending floor target).sublist (List.take_sublist _ _)
      · intro t ht
        exact (Server.mem_gap.mp (List.mem_of_mem_take ht)).2.1

/-! ## Both runs -/

/-- **A bridge fills the gap and can be resumed.** Against a server, from every resume point
and for every target, a bridge inserts the trades strictly between the two, in ascending
order; and where a request raises, after any number of pages, the bridge run again from the
resume point of then inserts the rest, so both leave what one bridge would have. -/
theorem bridge_resumes {sv : Services} {s : Sym} {srv : Server} (h : Serves sv s srv)
    (hstore : sv.maxStoredId = HdbWriter.maxStoredId) {w : HdbWriter} {floor : Int}
    (hfloor : w.maxStoredId s = some floor) (target : Option Int) :
    ∃ gap : List RestTrade, Paging.Ascending RestTrade.id gap
      ∧ (∀ t, t ∈ gap ↔ t ∈ srv.trades ∧ floor < t.id ∧ ∀ m, target = some m → t.id < m)
      ∧ bridge sv w s target
          = ⟨w.insert (parseRestTrades gap s sv.venue), gap.length, some (floor + 1), none⟩
      ∧ ∀ (k : Nat) (e : PyErr), ∃ done rest : List RestTrade, done ++ rest = gap
        ∧ ∃ raised : Option PyErr, (raised = none ∨ raised = some e)
          ∧ bridge (sv.failing k e) w s target
              = ⟨w.insert (parseRestTrades done s sv.venue), done.length, some (floor + 1), raised⟩
          ∧ ∃ from_ : Int, bridge sv (bridge (sv.failing k e) w s target).writer s target
              = ⟨(bridge sv w s target).writer, rest.length, some from_, none⟩ := by
  have hserved : sv.maxStoredId w s = some floor := by
    rw [hstore]
    exact hfloor
  have hle : (srv.gap floor target).length ≤ srv.trades.length :=
    le_trans (List.length_filter_le _ _) (List.length_filter_le _ _)
  refine ⟨srv.gap floor target, srv.gap_ascending floor target, fun _ => Server.mem_gap,
    bridge_serving h hserved target, fun k e => ?_⟩
  refine ⟨(srv.gap floor target).take (k * sv.page), (srv.gap floor target).drop (k * sv.page),
    List.take_append_drop _ _, ?_⟩
  obtain ⟨raised, hraised, hrun⟩ := bridgeLoop_failing h e target (floor + 1) (sv.rounds s) k 0
    floor w 0 (lt_of_le_of_lt hle h.rounds)
  rw [Nat.zero_add] at hrun
  have hfirst : bridge (sv.failing k e) w s target
      = bridgeLoop (sv.failing k e) s target (floor + 1) (sv.rounds s) 0 (floor + 1) w 0 := by
    unfold bridge
    rw [show (sv.failing k e).maxStoredId w s = some floor from hserved]
    rfl
  obtain ⟨floor', hfloor', hgap⟩ :=
    maxStoredId_insert_gap srv hfloor target sv.venue (k * sv.page)
  have hserved' : sv.maxStoredId (w.insert (parseRestTrades
      ((srv.gap floor target).take (k * sv.page)) s sv.venue)) s = some floor' := by
    rw [hstore]
    exact hfloor'
  refine ⟨raised, hraised, ?_, floor' + 1, ?_⟩
  · rw [hfirst, hrun, Nat.zero_add]
  · rw [bridge_serving h hserved target, hfirst, hrun, bridge_serving h hserved' target, hgap,
      insert_take_drop]

/-- A server with a hole in its ids, read one trade a page, and a store that holds id 1. -/
def holedServer : Server where
  trades := [⟨1, 1000, 100, 1, false⟩, ⟨2, 2000, 101, 1, true⟩, ⟨5, 3000, 102, 1, false⟩,
    ⟨9, 4000, 103, 1, true⟩]
  ascending := by unfold Paging.Ascending; decide

def holedServices : Services where
  venue := "binance"
  page := 1
  fetchTrades := fun _ _ f => .ok (Paging.page RestTrade.id 1 f holedServer.trades)
  rounds := fun _ => 5
  maxStoredId := HdbWriter.maxStoredId
  maxStoredQuoteId := HdbWriter.maxStoredQuoteId

def holdsFirst : HdbWriter :=
  (HdbWriter.fresh Hdb.empty).insert [⟨1000, "BTCUSDT", "binance", 1, 100, 1, 1000, false⟩]

/-- The second request fails; the next bridge brings id 5. -/
theorem bridge_resumes_holedServer :
    (bridge holedServices
        (bridge (holedServices.failing 1 .runtimeError) holdsFirst "BTCUSDT" (some 9)).writer
        "BTCUSDT" (some 9)).writer
      = (bridge holedServices holdsFirst "BTCUSDT" (some 9)).writer := by
  have hserves : Serves holedServices "BTCUSDT" holedServer :=
    ⟨fun _ _ => rfl, Nat.one_pos, by decide⟩
  have hfloor : holdsFirst.maxStoredId "BTCUSDT" = some 1 := by decide +kernel
  obtain ⟨_, -, -, -, hresumed⟩ := bridge_resumes hserves rfl hfloor (some 9)
  obtain ⟨_, _, -, _, -, -, _, hagain⟩ := hresumed 1 .runtimeError
  rw [hagain]

end NanoTick
