import NanoTick.App.DayPartitions
import NanoTick.Store.StoredIds
import Mathlib.Tactic

set_option autoImplicit false

/-! # Each trade stored at most once

Three sources feed one store, each reconciled with it by something else: the archive by the
dates on disk, REST by the highest stored id, the live feed by a floor in memory. `unique_iff`
says exactly which lives of the app never hold two rows of one trade: those in which each
source, past its own check, brings no trade the store holds. `published_late` is a life in which
the archive publishes a day after the bridge has fetched it.
-/

namespace NanoTick

open Python Runs Dedup

/-! ## Keys -/

/-- What identifies a trade. -/
def Trade.key (r : Trade) : Sym × Int := (r.sym, r.tradeID)

/-- The keys of the stored trades, with multiplicity. -/
def HdbWriter.keys (w : HdbWriter) : Multiset (Sym × Int) := w.storedTrades.map Trade.key

theorem mem_keys {w : HdbWriter} {r : Trade} : r.key ∈ w.keys ↔ r.tradeID ∈ w.ids r.sym := by
  rw [HdbWriter.keys, Multiset.mem_map, mem_ids]
  constructor
  · rintro ⟨x, hx, hkey⟩
    exact ⟨x, hx, congrArg Prod.fst hkey, congrArg Prod.snd hkey⟩
  · rintro ⟨x, hx, hs, hk⟩
    exact ⟨x, hx, Prod.ext hs hk⟩

/-- The keys after rows are added. -/
theorem keys_add {w w' : HdbWriter} {rows : List Trade}
    (h : w'.storedTrades = w.storedTrades + (rows.map Trade.ofRaw : Multiset Trade)) :
    w'.keys = w.keys + (rows.map Trade.key : Multiset (Sym × Int)) := by
  rw [HdbWriter.keys, HdbWriter.keys, h, Multiset.map_add, Multiset.map_coe, List.map_map]
  rfl

/-- **New rows** keep the keys apart exactly when their own are apart and none is stored. -/
theorem nodup_keys_add {w w' : HdbWriter} {rows : List Trade} (hw : w.keys.Nodup)
    (h : w'.storedTrades = w.storedTrades + (rows.map Trade.ofRaw : Multiset Trade)) :
    w'.keys.Nodup
      ↔ (rows.map Trade.key).Nodup ∧ ∀ r ∈ rows, r.tradeID ∉ w.ids r.sym := by
  rw [keys_add h, Multiset.nodup_add, Multiset.coe_nodup]
  constructor
  · rintro ⟨-, hrows, hdisj⟩
    refine ⟨hrows, fun r hr hmem => ?_⟩
    exact Multiset.disjoint_left.mp hdisj (mem_keys.mpr hmem)
      (Multiset.mem_coe.mpr (List.mem_map_of_mem hr))
  · rintro ⟨hrows, hnew⟩
    refine ⟨hw, hrows, Multiset.disjoint_right.mpr ?_⟩
    intro k hk
    obtain ⟨r, hr, rfl⟩ := List.mem_map.mp (Multiset.mem_coe.mp hk)
    exact fun hmem => hnew r hr (mem_keys.mp hmem)

theorem nodup_keys_of_le {w w' : HdbWriter} (hw : w.keys.Nodup)
    (h : w'.storedTrades ≤ w.storedTrades) : w'.keys.Nodup :=
  Multiset.nodup_of_le (Multiset.map_le_map h) hw

/-! ## What is stored after each call -/

theorem storedTrades_afterSave_le (w : HdbWriter) (o : Option Date) :
    (Session.afterSave w o).storedTrades ≤ w.storedTrades := by
  rw [← Session.afterSave_trades w o]
  exact Multiset.le_add_right _ _

/-- The rows after a savedown, or none: those in memory and those of every partition it does not
replace. -/
theorem mem_afterSave {w : HdbWriter} {o : Option Date} {x : Trade} :
    x ∈ (Session.afterSave w o).storedTrades ↔ x ∈ w.trade
      ∨ ∃ d, (o ≠ some d ∨ w.trade = []) ∧ x ∈ w.hdb.trade.rowsAt d := by
  rw [mem_storedTrades]
  cases o with
  | none =>
      refine or_congr Iff.rfl (exists_congr (fun d => ?_))
      exact (and_iff_right (Or.inl (Option.some_ne_none d).symm)).symm
  | some dt =>
      have hstays : ∀ d, ¬(d = dt ∧ w.trade ≠ []) ↔ some dt ≠ some d ∨ w.trade = [] := by
        intro d
        rw [not_and_or, not_ne_iff, ne_eq, Option.some_inj, eq_comm]
      show x ∈ (w.savedown dt).trade ∨ (∃ d, x ∈ (w.savedown dt).hdb.trade.rowsAt d) ↔ _
      rw [savedown_trade, savedown_hdb_trade]
      constructor
      · rintro (hx | ⟨d, hx⟩)
        · exact absurd hx List.not_mem_nil
        · rw [rowsAt_saveTable] at hx
          split at hx
          · exact Or.inl ((perm_storedRows Trade.time Trade.sym w.trade).mem_iff.mp hx)
          · rename_i hd
            exact Or.inr ⟨d, (hstays d).mp hd, hx⟩
      · rintro (hx | ⟨d, hd, hx⟩)
        · -- a row in memory goes to the partition `dt`
          refine Or.inr ⟨dt, ?_⟩
          rw [rowsAt_saveTable, if_pos ⟨rfl, List.ne_nil_of_mem hx⟩]
          exact (perm_storedRows Trade.time Trade.sym w.trade).mem_iff.mpr hx
        · refine Or.inr ⟨d, ?_⟩
          rwa [rowsAt_saveTable, if_neg ((hstays d).mpr hd)]

theorem mem_ids_afterSave {w : HdbWriter} {o : Option Date} {s : Sym} {k : Int} :
    k ∈ (Session.afterSave w o).ids s ↔ (∃ x ∈ w.trade, x.sym = s ∧ x.tradeID = k)
      ∨ ∃ d, (o ≠ some d ∨ w.trade = [])
        ∧ ∃ x ∈ w.hdb.trade.rowsAt d, x.sym = s ∧ x.tradeID = k := by
  rw [mem_ids]
  constructor
  · rintro ⟨x, hx, hkey⟩
    rcases mem_afterSave.mp hx with hx | ⟨d, hd, hx⟩
    · exact Or.inl ⟨x, hx, hkey⟩
    · exact Or.inr ⟨d, hd, x, hx, hkey⟩
  · rintro (⟨x, hx, hkey⟩ | ⟨d, hd, x, hx, hkey⟩)
    · exact ⟨x, mem_afterSave.mpr (Or.inl hx), hkey⟩
    · exact ⟨x, mem_afterSave.mpr (Or.inr ⟨d, hd, hx⟩), hkey⟩

/-- A backfill adds every row it fetches: the partitions it writes were absent. -/
theorem storedTrades_days (symbols : List Sym) (fetchers : Sym → Date → Fetch) {ds : List Date}
    (hds : ds.Nodup) {w : HdbWriter} (habsent : ∀ d ∈ ds, w.hdb.trade.rowsAt d = []) :
    (ds.foldl (fun w day => dayWriter symbols fetchers day w) w).storedTrades
      = w.storedTrades
        + ((ds.flatMap (dayRows symbols fetchers)).map Trade.ofRaw : Multiset Trade) := by
  induction ds generalizing w with
  | nil => exact (add_zero _).symm
  | cons day t ih =>
      obtain ⟨hnot, ht⟩ := List.nodup_cons.mp hds
      have hday : (dayWriter symbols fetchers day w).storedTrades
          = w.storedTrades + ((dayRows symbols fetchers day).map Trade.ofRaw : Multiset Trade) := by
        unfold dayWriter
        split
        -- the partition written was absent, so the savedown drops nothing
        · have hsave := storedTrades_savedown (w.insert (dayRows symbols fetchers day)) day
          rw [insert_hdb, habsent day List.mem_cons_self, Multiset.coe_nil, ite_self,
            add_zero] at hsave
          rw [hsave, storedTrades_insert]
        · exact storedTrades_insert w _
      have hrest : ∀ d ∈ t, (dayWriter symbols fetchers day w).hdb.trade.rowsAt d = [] := by
        intro d hd
        -- the dates still to come stay absent: each is planned once
        have hne : d ≠ day := fun heq => hnot (heq ▸ hd)
        have hw := habsent d (List.mem_cons_of_mem day hd)
        unfold dayWriter
        split
        · rw [savedown_hdb_trade, rowsAt_saveTable, if_neg (fun hboth => hne hboth.1)]
          exact hw
        · exact hw
      calc (t.foldl (fun w day => dayWriter symbols fetchers day w)
              (dayWriter symbols fetchers day w)).storedTrades
          = (dayWriter symbols fetchers day w).storedTrades
              + ((t.flatMap (dayRows symbols fetchers)).map Trade.ofRaw : Multiset Trade) :=
            ih ht hrest
        _ = w.storedTrades + (((dayRows symbols fetchers day).map Trade.ofRaw : Multiset Trade)
              + ((t.flatMap (dayRows symbols fetchers)).map Trade.ofRaw : Multiset Trade)) := by
            rw [hday, add_assoc]
        _ = w.storedTrades
              + (((day :: t).flatMap (dayRows symbols fetchers)).map Trade.ofRaw
                  : Multiset Trade) := by
            rw [Multiset.coe_add, ← List.map_append, ← List.flatMap_cons]

theorem planDates_nodup (today : Date) (days : Nat) : (planDates today days).Nodup := by
  unfold planDates
  refine List.Nodup.map ?_ (List.nodup_reverse.mpr List.nodup_range)
  intro i j hij
  simpa using hij

/-- The rows a bridge against a server inserts have ids of their own. -/
theorem nodup_gap (srv : Server) (floor : Int) (target : Option Int) (s : Sym) (venue : String) :
    ((parseRestTrades (srv.gap floor target) s venue).map Trade.key).Nodup := by
  unfold parseRestTrades
  rw [List.map_map]
  refine List.pairwise_map.mpr ((srv.gap_ascending floor target).imp ?_)
  intro x y hlt heq
  have hid : x.id = y.id := congrArg Prod.snd heq
  omega

/-- The rows a group feeds have ids of their own. -/
theorem nodup_freshRows (h : FeedHandler) (s : Sym) (g : List Tick) :
    ((h.freshRows s g).map Trade.key).Nodup := by
  unfold FeedHandler.freshRows parseLiveTicks
  rw [List.map_map]
  refine List.pairwise_map.mpr ((ascending_dedup g (h.lastId s)).imp ?_)
  intro x y hlt heq
  have hid : x.tradeId = y.tradeId := congrArg Prod.snd heq
  omega

/-- A bridge against a server keeps the keys apart exactly when no stored id above the resume
point is one REST serves below the target. -/
theorem nodup_bridge {sv : Services} {s : Sym} {srv : Server} (hsrv : Serves sv s srv)
    {w : HdbWriter} (hw : w.keys.Nodup) (target : Option Int) :
    (bridge sv w s target).writer.keys.Nodup ↔ ∀ floor, sv.maxStoredId w s = some floor →
      ∀ x ∈ srv.gap floor target, x.id ∉ w.ids s := by
  cases hfloor : sv.maxStoredId w s with
  | none =>
      rw [bridge_of_none hfloor]
      exact ⟨fun _ floor hn => absurd hn (Option.some_ne_none floor).symm, fun _ => hw⟩
  | some floor =>
      rw [bridge_serving hsrv hfloor, nodup_keys_add hw (storedTrades_insert w _)]
      constructor
      · rintro ⟨-, hnew⟩ floor' hff x hx
        cases hff
        exact hnew _ (List.mem_map_of_mem hx)
      · intro hnew
        refine ⟨nodup_gap srv floor target s sv.venue, fun r hr => ?_⟩
        obtain ⟨x, hx, rfl⟩ := List.mem_map.mp hr
        exact hnew floor rfl x hx

namespace App

/-! ## Steps -/

/-- No trade is stored twice. -/
def Unique (a : App) : Prop := a.handler.roller.writer.keys.Nodup

/-- The step brings no trade that is stored: the condition on the state before it. Past its own
check each source can still bring one. The archive: a trade of a date without a partition that
is stored under another date. REST: a trade above the resume point and below the target. The
live feed: a trade above the floor. -/
def BringsNew (cfg : AppConfig) (a : App) : AppAction → Prop
  | .boot today fetchers =>
      let fetched := (processed (planDates today cfg.days) a.parts.keys).flatMap
        (dayRows cfg.symbols fetchers)
      (fetched.map Trade.key).Nodup
        ∧ ∀ r ∈ fetched, ∀ d, ∀ x ∈ a.parts.rowsAt d, x.key ≠ r.key
  | .startSymbol rest =>
      ∀ s ∈ a.starting.head?, ∀ floor, a.handler.roller.writer.maxStoredId s = some floor →
        ∀ x ∈ (rest s).gap floor none, x.id ∉ a.handler.roller.writer.ids s
  | .rebridge rest s g =>
      s ∈ a.handler.pendingRebridge →
        ∀ last b floor, a.handler.lastId s = some last → (a.handler.newIds s g).min? = some b →
          last + 1 < b → a.handler.roller.writer.maxStoredId s = some floor →
          ∀ x ∈ (rest s).gap floor (some b), x.id ∉ a.handler.roller.writer.ids s
  | .feed s g =>
      let rolled := Session.savesDown.rollsAt a.handler.roller
        ((a.handler.freshRows s g).map Trade.time)
      ∀ t ∈ g, isAbove (a.handler.lastId s) t.tradeId = true →
        (∀ x ∈ a.rdb, ¬(x.sym = s ∧ x.tradeID = t.tradeId))
          -- a partition that the chunk's own rollover replaces does not count
          ∧ ∀ d, rolled ≠ some d ∨ a.rdb = [] →
            ∀ x ∈ a.parts.rowsAt d, ¬(x.sym = s ∧ x.tradeID = t.tradeId)
  | _ => True

section

variable {cfg : AppConfig} {a t : App}

theorem unique_boot {today : Date} {fetchers : Sym → Date → Fetch} (hu : a.Unique)
    (h : step cfg a (.boot today fetchers) = some t) :
    t.Unique ↔ BringsNew cfg a (.boot today fetchers) := by
  obtain ⟨-, rfl⟩ := boot_eq h
  -- a new process starts with what the partitions hold
  have hfresh : (HdbWriter.fresh a.handler.roller.writer.hdb).keys.Nodup := by
    refine nodup_keys_of_le hu ?_
    rw [HdbWriter.storedTrades, HdbWriter.storedTrades]
    exact add_le_add (Multiset.zero_le _) (le_refl _)
  have habsent : ∀ d ∈ processed (planDates today cfg.days) a.parts.keys,
      (HdbWriter.fresh a.handler.roller.writer.hdb).hdb.trade.rowsAt d = [] := by
    intro d hd
    exact Parts.rowsAt_of_notMem (fun hmem => (mem_processed.mp hd).2 (Finmap.mem_keys.mpr hmem))
  have hnodup : (processed (planDates today cfg.days) a.parts.keys).Nodup :=
    (planDates_nodup today cfg.days).filter _
  have hstored := storedTrades_days cfg.symbols fetchers hnodup habsent
  show (runBackfill _ _ _ _ _).1.keys.Nodup ↔ _
  rw [(runBackfill_spec _ _ _ _ _).1, nodup_keys_add hfresh hstored]
  refine and_congr Iff.rfl (forall₂_congr (fun r _ => ?_))
  rw [← mem_keys, HdbWriter.keys, Multiset.mem_map]
  constructor
  · intro hnot d x hx hkey
    exact hnot ⟨x, Multiset.mem_add.mpr (Or.inr (Parts.mem_rows.mpr ⟨d, hx⟩)), hkey⟩
  · rintro hall ⟨x, hx, hkey⟩
    rcases Multiset.mem_add.mp hx with hx | hx
    · exact Multiset.notMem_zero x hx
    · obtain ⟨d, hd⟩ := Parts.mem_rows.mp hx
      exact hall d x hd hkey

theorem unique_startSymbol {rest : Sym → Server} (hu : a.Unique)
    (h : step cfg a (.startSymbol rest) = some t) :
    t.Unique ↔ BringsNew cfg a (.startSymbol rest) := by
  obtain ⟨s, left, h₁, hstarting, -, hok, rfl⟩ := startSymbol_eq h
  have hw : (if left = [] then h₁.flagAll else h₁).roller.writer
      = (bridge (cfg.services rest) a.handler.roller.writer s none).writer := by
    rw [(h₁.flagAll_frame (left = [])).1, (FeedHandler.startSymbol_lastId hok).1]
  have hhead : BringsNew cfg a (.startSymbol rest)
      ↔ ∀ floor, a.handler.roller.writer.maxStoredId s = some floor →
        ∀ x ∈ (rest s).gap floor none, x.id ∉ a.handler.roller.writer.ids s := by
    show (∀ s' ∈ a.starting.head?, _) ↔ _
    rw [hstarting]
    simp
  rw [hhead]
  show (if left = [] then h₁.flagAll else h₁).roller.writer.keys.Nodup ↔ _
  rw [hw]
  exact nodup_bridge (cfg.serves rest s) hu none

theorem unique_rebridge {rest : Sym → Server} {s : Sym} {g : List Tick} (hu : a.Unique)
    (h : step cfg a (.rebridge rest s g) = some t) :
    t.Unique ↔ BringsNew cfg a (.rebridge rest s g) := by
  obtain ⟨-, h₁, hok, rfl⟩ := rebridge_eq h
  show h₁.roller.writer.keys.Nodup ↔ _
  rcases FeedHandler.rebridgeGroup_cases hok with
    ⟨hsame, hquiet⟩ | ⟨hp, last, b, hlast, hmin, hgap, rfl⟩
  · have hnew : BringsNew cfg a (.rebridge rest s g) := by
      intro hp last b floor hlast hmin hgap
      exact absurd ⟨hp, last, b, hlast, hmin, hgap⟩ hquiet
    rcases hsame with rfl | rfl
    · exact ⟨fun _ => hnew, fun _ => hu⟩
    · exact ⟨fun _ => hnew, fun _ => hu⟩
  · rw [FeedHandler.afterRebridge_writer, nodup_bridge (cfg.serves rest s) hu (some b)]
    constructor
    · intro hall _ last' b' floor hlast' hmin' _ hfloor
      cases hlast.symm.trans hlast'
      cases hmin.symm.trans hmin'
      exact hall floor hfloor
    · intro hall floor hfloor
      exact hall hp last b floor hlast hmin hgap hfloor

theorem unique_feed {s : Sym} {g : List Tick} (hu : a.Unique)
    (h : step cfg a (.feed s g) = some t) : t.Unique ↔ BringsNew cfg a (.feed s g) := by
  obtain ⟨⟨-, hsym⟩, h₁, hok, rfl⟩ := feed_eq h
  show h₁.roller.writer.keys.Nodup ↔ _
  have hsaved : (Session.afterSave a.handler.roller.writer (Session.savesDown.rollsAt
      a.handler.roller ((a.handler.freshRows s g).map Trade.time))).keys.Nodup :=
    nodup_keys_of_le hu (storedTrades_afterSave_le _ _)
  have hstored : BringsNew cfg a (.feed s g) ↔ ∀ t ∈ g,
      isAbove (a.handler.lastId s) t.tradeId = true →
      t.tradeId ∉ (Session.afterSave a.handler.roller.writer (Session.savesDown.rollsAt
        a.handler.roller ((a.handler.freshRows s g).map Trade.time))).ids s := by
    refine forall₃_congr (fun t _ _ => ?_)
    rw [mem_ids_afterSave]
    push Not
    rfl
  have hnew : BringsNew cfg a (.feed s g) ↔ ∀ r ∈ a.handler.freshRows s g,
      r.tradeID ∉ (Session.afterSave a.handler.roller.writer (Session.savesDown.rollsAt
        a.handler.roller ((a.handler.freshRows s g).map Trade.time))).ids r.sym := by
    rw [hstored]
    constructor
    · intro hall r hr
      obtain ⟨hs, ⟨t, ht, hid⟩, habove⟩ :=
        (FeedHandler.mem_freshRows hsym r.sym r.tradeID).mp ⟨r, hr, rfl, rfl⟩
      rw [hs, ← hid]
      exact hall t ht (hid ▸ habove)
    · intro hall t ht habove
      obtain ⟨r, hr, hs, hid⟩ := (FeedHandler.mem_freshRows hsym s t.tradeId).mpr
        ⟨rfl, ⟨t, ht, rfl⟩, habove⟩
      have hnot := hall r hr
      rwa [hs, hid] at hnot
  rw [hnew]
  rcases (FeedHandler.feedGroup_cases hok).1 with ⟨hnil, hroller⟩ | ⟨-, d, hd, hroller⟩
  · rw [hroller, hnil]
    exact ⟨fun _ r hr => absurd hr List.not_mem_nil, fun _ => hu⟩
  · rw [hroller]
    show ((a.handler.roller.roll d).1.writer.insert (a.handler.freshRows s g)).keys.Nodup ↔ _
    rw [(Session.roll_writer hd).1, nodup_keys_add hsaved (storedTrades_insert _ _)]
    exact ⟨fun hboth => hboth.2, fun hall => ⟨nodup_freshRows a.handler s g, hall⟩⟩

/-- **One call** keeps every trade stored once exactly when it brings none that is stored. -/
theorem unique_step (hu : a.Unique) {act : AppAction} (h : step cfg a act = some t) :
    t.Unique ↔ BringsNew cfg a act := by
  -- a call that only drops rows
  have hdrop : t.handler.roller.writer.storedTrades ≤ a.handler.roller.writer.storedTrades →
      BringsNew cfg a act → (t.Unique ↔ BringsNew cfg a act) :=
    fun hle hnew => ⟨fun _ => hnew, fun _ => nodup_keys_of_le hu hle⟩
  cases act with
  | boot today fetchers => exact unique_boot hu h
  | prune today =>
      obtain ⟨-, rfl⟩ := prune_eq h
      exact hdrop (add_le_add (le_refl _) (Parts.rows_keep_le _ _)) trivial
  | startSymbol rest => exact unique_startSymbol hu h
  | reconnect =>
      obtain ⟨-, rfl⟩ := reconnect_eq h
      refine hdrop ?_ trivial
      show a.handler.onConnect.roller.writer.storedTrades ≤ _
      rw [a.handler.onConnect_frame.1]
  | rebridge rest s g => exact unique_rebridge hu h
  | feed s g => exact unique_feed hu h
  | quotes s g =>
      obtain ⟨-, h₁, hok, rfl⟩ := quotes_eq h
      refine hdrop ?_ trivial
      show h₁.roller.writer.storedTrades ≤ _
      rcases (FeedHandler.applyQuoteGroup_cases hok).1 with ⟨-, hroller⟩ | ⟨-, d, hd, hroller⟩
      · rw [hroller]
      · rw [hroller]
        show (a.handler.roller.roll d).1.writer.storedTrades ≤ _
        rw [(Session.roll_writer hd).1]
        exact storedTrades_afterSave_le _ _
  | stop =>
      obtain ⟨-, rfl⟩ := stop_eq h
      refine hdrop ?_ trivial
      have hflush : a.handler.shutdown.roller.writer.storedTrades
          ≤ a.handler.roller.writer.storedTrades := by
        show a.handler.roller.flush.1.writer.storedTrades ≤ _
        rw [Session.flush_writer]
        exact storedTrades_afterSave_le _ _
      exact le_trans (add_le_add (Multiset.zero_le _) (le_refl _)) hflush

end

/-- **Each trade stored at most once.** In every life of the app, from the empty store on, over
any starts, stops, archive and REST answers and live batches: no state holds two rows of one
trade exactly when every step brings no trade that is stored. -/
theorem unique_iff (cfg : AppConfig) (as : List AppAction) :
    Always (step cfg) Unique (initial cfg Hdb.empty) as
      ↔ AllSteps (step cfg) (BringsNew cfg) (initial cfg Hdb.empty) as := by
  have hasm : AllSteps (step cfg) (fun _ _ => True) (initial cfg Hdb.empty) as :=
    allSteps_of_forall (p := fun _ => True) (fun _ _ => trivial) _
  have hstart : (initial cfg Hdb.empty).Unique := Multiset.nodup_zero
  exact always_iff_allSteps (I := fun _ => True) (fun _ _ _ _ _ _ => trivial)
    (fun _ _ _ _ hu _ hst => unique_step hu hst) trivial hstart hasm

/-! ## A day published late -/

/-- The archive on day `today` of a history of trades, where day `d` appears on day
`published d`. -/
def archive (history : Sym → List RestTrade) (venue : String) (published : Date → Date)
    (today : Date) (s : Sym) (d : Date) : Fetch :=
  if published d ≤ today then
    .chunks [parseRestTrades
      ((history s).filter (fun x => decide (toMillis x.time / msPerDay = d))) s venue] false
  else .missing

/-- Archive, REST and live feed show trades of one history: REST has the trades up to some
moment, and a live record the id and time of a trade. -/
def Agrees (history : Sym → List RestTrade) (venue : String) (published : Date → Date) :
    AppAction → Prop
  | .boot today fetchers => fetchers = archive history venue published today
  | .startSymbol rest => ∀ s, (rest s).trades <+: history s
  | .rebridge rest _ _ => ∀ s, (rest s).trades <+: history s
  | .feed _ g => ∀ t ∈ g, ∃ x ∈ history t.symbol,
      x.id = t.tradeId ∧ toMillis x.time = toMillis t.tradeTs
  | _ => True

/-- Three days of one trade a day. -/
def threeDays (s : Sym) : List RestTrade := (restUntil 3 s).trades

/-- Every day is published on the next, day 1 a day later. -/
def oneDayLate (d : Date) : Date := if d = 1 then 3 else d + 1

/-- The app runs on day 1 and is stopped; on day 2 it starts before the archive has day 1; on
day 3 it starts once more, when the archive has caught up. -/
def publishedLate : List AppAction :=
  let fetchers := archive threeDays "binance" oneDayLate
  [.boot 1 (fetchers 1), .prune 1, .startSymbol (restUntil 1), .stop,
    .boot 2 (fetchers 2), .prune 2, .startSymbol (restUntil 2),
    .rebridge (restUntil 2) "BTCUSDT" [dailyTick 2], .feed "BTCUSDT" [dailyTick 2], .stop,
    .boot 3 (fetchers 3)]

theorem restUntil_prefix {n m : Nat} (h : n ≤ m) (s : Sym) :
    (restUntil n s).trades <+: (restUntil m s).trades := by
  obtain ⟨k, rfl⟩ := Nat.exists_eq_add_of_le h
  show (List.range n).map dailyTrade <+: (List.range (n + k)).map dailyTrade
  rw [List.range_add, List.map_append]
  exact List.prefix_append _ _

theorem agrees_publishedLate :
    ∀ act ∈ publishedLate, Agrees threeDays "binance" oneDayLate act := by
  intro act hact
  simp only [publishedLate, List.mem_cons, List.not_mem_nil, or_false] at hact
  rcases hact with rfl | rfl | rfl | rfl | rfl | rfl | rfl | rfl | rfl | rfl | rfl
  · rfl
  · trivial
  · exact restUntil_prefix (by decide)
  · trivial
  · rfl
  · trivial
  · exact restUntil_prefix (by decide)
  · exact restUntil_prefix (by decide)
  · intro t ht
    obtain rfl := List.mem_singleton.mp ht
    exact ⟨dailyTrade 2, List.mem_map_of_mem (by decide), rfl, rfl⟩
  · trivial
  · rfl

/-- The trade of day 1 was saved under day 2; the archive saves it again under day 1. -/
theorem published_late : ¬ ∀ (cfg : AppConfig) (history : Sym → List RestTrade)
    (published : Date → Date) (as : List AppAction),
    (∀ s, Paging.Ascending RestTrade.id (history s)) → (∀ d, d < published d) →
    (∀ act ∈ as, Agrees history cfg.venue published act) →
    Always (step cfg) Unique (initial cfg Hdb.empty) as := by
  intro h
  have hpast : ∀ d, d < oneDayLate d := by
    intro d
    unfold oneDayLate
    split
    · rename_i hd
      rw [hd]
      decide
    · exact Int.lt_succ d
  have halways := h oneSymbol threeDays oneDayLate publishedLate
    (fun s => (restUntil 3 s).ascending) hpast agrees_publishedLate
  have hrun : (exec (step oneSymbol) (initial oneSymbol Hdb.empty) publishedLate).any
      (fun a => decide (¬ a.handler.roller.writer.keys.Nodup)) = true := by decide +kernel
  obtain ⟨a, ha, hdup⟩ := (Option.any_eq_true _ _).mp hrun
  exact of_decide_eq_true hdup (halways.last ha)

end App

end NanoTick
