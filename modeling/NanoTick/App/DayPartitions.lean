import NanoTick.App.Lifecycle
import NanoTick.Backfill.Failures
import Mathlib.Tactic

set_option autoImplicit false

/-! # Whose day a partition holds

The roller knows the day only from its own chunks, and the bridge inserts past it. `dated_iff`
says exactly which runs of the app save every trade row under its own date: those in which the
rows in memory when the first chunk arrives are of that chunk's date, each re-bridge fetches
trades of the current day only, and each trade chunk is of one date, not before the current
day. `day_late` is a start after the archive missed a day.
-/

namespace NanoTick

open Python Runs

/-! ## The roller and what was saved -/

/-- Every row saved is under its own date, and the rows in memory are of the current day. -/
def Good (saved : List (Date × Trade)) (r : RdbRoller) : Prop :=
  (∀ e ∈ saved, tsDate e.2.time = e.1)
    ∧ ∀ c, r.currentDay = some c → ∀ x ∈ r.writer.trade, tsDate x.time = c

theorem good_savedRows {saved : List (Date × Trade)} {w : HdbWriter} {dt : Date} :
    (∀ e ∈ saved ++ savedRows w (some dt), tsDate e.2.time = e.1)
      ↔ (∀ e ∈ saved, tsDate e.2.time = e.1) ∧ ∀ x ∈ w.trade, tsDate x.time = dt := by
  constructor
  · intro h
    refine ⟨fun e he => h e (List.mem_append_left _ he), fun x hx => ?_⟩
    exact h (dt, x) (List.mem_append_right _ (List.mem_map_of_mem hx))
  · rintro ⟨hsaved, hrows⟩ e he
    rcases List.mem_append.mp he with he | he
    · exact hsaved e he
    · obtain ⟨x, hx, rfl⟩ := List.mem_map.mp he
      exact hrows x hx

/-- The day after a chunk of date `day`. -/
def nextDay (r : RdbRoller) (day : Date) : Date := r.currentDay.elim day (fun c => max c day)

theorem roll_currentDay (r : RdbRoller) (day : Date) :
    (r.roll day).1.currentDay = some (nextDay r day) := by
  unfold nextDay
  cases hc : r.currentDay with
  | none =>
      rw [RdbRoller.roll_none hc]
      rfl
  | some c =>
      by_cases hlt : c < day
      · rw [RdbRoller.roll_past hc hlt]
        exact congrArg some (max_eq_right hlt.le).symm
      · rw [RdbRoller.roll_within hc (not_lt.mp hlt), hc]
        exact congrArg some (max_eq_left (not_lt.mp hlt)).symm

/-- **A roll** keeps everything on its day exactly when the first chunk finds rows of its own
date in memory. -/
theorem good_roll {saved : List (Date × Trade)} {r : RdbRoller} {times : List Int} {day : Date}
    (h : RdbRoller.chunkDate times = .ok day) :
    Good (saved ++ savedRows r.writer (Session.savesDown.rollsAt r times)) (r.roll day).1
      ↔ Good saved r ∧ (r.currentDay = none → ∀ x ∈ r.writer.trade, tsDate x.time = day) := by
  unfold Session.savesDown.rollsAt
  rw [h]
  cases hc : r.currentDay with
  | none =>
      -- the first chunk saves nothing; what is in memory becomes rows of its day
      rw [RdbRoller.roll_none hc, savedRows_none, List.append_nil]
      unfold Good
      rw [hc]
      constructor
      · rintro ⟨hsaved, hrows⟩
        exact ⟨⟨hsaved, fun c hn => by cases hn⟩, fun _ => hrows day rfl⟩
      · rintro ⟨⟨hsaved, -⟩, hrows⟩
        refine ⟨hsaved, fun c hcd => ?_⟩
        cases hcd
        exact hrows rfl
  | some c =>
      by_cases hlt : c < day
      · simp only [if_pos hlt]
        -- a later day saves the rows in memory under the current one
        rw [RdbRoller.roll_past hc hlt]
        unfold Good
        rw [good_savedRows, savedown_trade, hc]
        constructor
        · rintro ⟨⟨hsaved, hrows⟩, -⟩
          refine ⟨⟨hsaved, fun c' hcc => ?_⟩, fun hn => by cases hn⟩
          cases hcc
          exact hrows
        · rintro ⟨⟨hsaved, hrows⟩, -⟩
          exact ⟨⟨hsaved, hrows c rfl⟩, fun _ _ x hx => absurd hx List.not_mem_nil⟩
      · simp only [if_neg hlt]
        rw [RdbRoller.roll_within hc (not_lt.mp hlt),
          savedRows_none, List.append_nil]
        exact ⟨fun hg => ⟨hg, fun hn => by cases hn⟩, fun hg => hg.1⟩

theorem good_insert {saved : List (Date × Trade)} {r : RdbRoller} {c : Date}
    (hc : r.currentDay = some c) (cols : List Trade) :
    Good saved { r with writer := r.writer.insert cols }
      ↔ Good saved r ∧ ∀ x ∈ cols, x.time / msPerDay = c := by
  unfold Good
  dsimp only
  rw [insert_trade, hc]
  constructor
  · rintro ⟨hsaved, hrows⟩
    have hall := hrows c rfl
    refine ⟨⟨hsaved, fun c' hcc => ?_⟩, fun x hx => ?_⟩
    · cases hcc
      exact fun x hx => hall x (List.mem_append_left _ hx)
    · have hdate := hall x.ofRaw (List.mem_append_right _ (List.mem_map_of_mem hx))
      rwa [show x.ofRaw.time = ms2ts x.time from rfl, tsDate_ms2ts] at hdate
  · rintro ⟨⟨hsaved, hrows⟩, hcols⟩
    refine ⟨hsaved, fun c' hcc x hx => ?_⟩
    cases hcc
    rcases List.mem_append.mp hx with hx | hx
    · exact hrows c rfl x hx
    · obtain ⟨y, hy, rfl⟩ := List.mem_map.mp hx
      rw [show y.ofRaw.time = ms2ts y.time from rfl, tsDate_ms2ts]
      exact hcols y hy

/-- A chunk that is not empty is dated by its last row. -/
theorem chunkDate_of_last {rows : List Trade} {day : Date}
    (h : RdbRoller.chunkDate (rows.map Trade.time) = .ok day) :
    ∃ x ∈ rows, x.time / msPerDay = day := by
  obtain ⟨t, ht, rfl⟩ := RdbRoller.chunkDate_eq_ok h
  obtain ⟨x, hx, rfl⟩ := List.mem_map.mp (List.mem_of_getLast? ht)
  exact ⟨x, hx, rfl⟩

/-- **A trade chunk** keeps everything on its day exactly when it is of one date, not before
the current day, and the first one finds rows of its own date in memory. -/
theorem good_feed {saved : List (Date × Trade)} {r : RdbRoller} {rows : List Trade} {day : Date}
    (h : RdbRoller.chunkDate (rows.map Trade.time) = .ok day) :
    Good (saved ++ savedRows r.writer (Session.savesDown.rollsAt r (rows.map Trade.time)))
        (r.afterFeed day rows)
      ↔ Good saved r ∧ (r.currentDay = none → ∀ x ∈ r.writer.trade, tsDate x.time = day)
        ∧ (∀ x ∈ rows, x.time / msPerDay = day) ∧ ∀ c, r.currentDay = some c → c ≤ day := by
  obtain ⟨y, hy, hyday⟩ := chunkDate_of_last h
  unfold RdbRoller.afterFeed
  rw [good_insert (roll_currentDay r day), good_roll h, and_assoc]
  refine and_congr Iff.rfl (and_congr Iff.rfl ?_)
  unfold nextDay
  cases r.currentDay with
  | none => exact ⟨fun hrows => ⟨hrows, fun c hn => by cases hn⟩, fun hboth => hboth.1⟩
  | some c =>
      show (∀ x ∈ rows, x.time / msPerDay = max c day) ↔ _
      constructor
      · intro hrows
        -- the last row is of both dates
        have hmax : max c day = day := (hrows y hy).symm.trans hyday
        refine ⟨fun x hx => (hrows x hx).trans hmax, fun c' hcc => ?_⟩
        cases hcc
        exact le_of_le_of_eq (le_max_left c day) hmax
      · rintro ⟨hrows, hle⟩ x hx
        rw [max_eq_right (hle c rfl)]
        exact hrows x hx

/-! ## The backfill -/

/-- No fetch fails, and what is fetched for a date is of that date. -/
def SoundArchive (fetchers : Sym → Date → Fetch) : Prop :=
  ∀ s d, (fetchers s d).failed = false ∧ ∀ r ∈ (fetchers s d).rows, r.time / msPerDay = d

theorem backfillSaved_dated (symbols : List Sym) {fetchers : Sym → Date → Fetch}
    (h : SoundArchive fetchers) (ds : List Date) {w : HdbWriter} (hw : w.trade = []) :
    ∀ e ∈ backfillSaved symbols fetchers ds w, tsDate e.2.time = e.1 := by
  induction ds generalizing w with
  | nil => exact fun e he => absurd he List.not_mem_nil
  | cons day t ih =>
      have hleak : NoLeak symbols fetchers day := by
        intro s _ hfailed
        rw [(h s day).1] at hfailed
        cases hfailed
      intro e he
      rcases List.mem_append.mp he with he | he
      · cases hwrote : dayWrote symbols fetchers day with
        | false =>
            rw [hwrote] at he
            exact absurd he List.not_mem_nil
        | true =>
            rw [hwrote, if_pos rfl] at he
            obtain ⟨x, hx, rfl⟩ := List.mem_map.mp he
            rw [insert_trade, hw, List.nil_append] at hx
            obtain ⟨r, hr, rfl⟩ := List.mem_map.mp hx
            obtain ⟨s, -, hrs⟩ := List.mem_flatMap.mp hr
            show tsDate (ms2ts r.time) = day
            rw [tsDate_ms2ts]
            exact (h s day).2 r hrs
      · exact ih (dayWriter_noLeak hleak hw).1 e he

namespace App

/-! ## Steps -/

/-- Every trade row a savedown wrote is under its own date. -/
def Dated (a : App) : Prop := ∀ e ∈ a.saved, tsDate e.2.time = e.1

/-- The step brings rows of the current day only: the condition on the state before it. The
first chunk of a process finds rows of its own date in memory; a re-bridge finds, between the
highest stored id and the first new one, trades of the current day; a trade chunk is of one
date, not before the current day. -/
def OnDay (a : App) : AppAction → Prop
  | .rebridge rest s g =>
      ∀ c, a.day = some c → s ∈ a.handler.pendingRebridge →
        ∀ last b floor, a.handler.lastId s = some last → (a.handler.newIds s g).min? = some b →
          last + 1 < b → a.handler.roller.writer.maxStoredId s = some floor →
          ∀ x ∈ (rest s).gap floor (some b), toMillis x.time / msPerDay = c
  | .feed s g =>
      ∀ d, RdbRoller.chunkDate ((a.handler.freshRows s g).map Trade.time) = .ok d →
        (a.day = none → ∀ x ∈ a.rdb, tsDate x.time = d)
          ∧ (∀ x ∈ a.handler.freshRows s g, x.time / msPerDay = d)
          ∧ ∀ c, a.day = some c → c ≤ d
  | .quotes s g =>
      ∀ d, RdbRoller.chunkDate ((a.handler.freshQuotes s g).map Quote.time) = .ok d →
        a.day = none → ∀ x ∈ a.rdb, tsDate x.time = d
  | _ => True

/-- Until it is live a process has no current day. -/
def Waiting (a : App) : Prop := a.phase ≠ .up ∨ a.starting ≠ [] → a.day = none

/-- The archive a start reads is sound. -/
def SoundBoot : AppAction → Prop
  | .boot _ fetchers => SoundArchive fetchers
  | _ => True

section

variable {cfg : AppConfig} {a t : App}

/-- Without a current day only what was saved counts. -/
theorem good_of_none {saved : List (Date × Trade)} {r : RdbRoller} (h : r.currentDay = none) :
    Good saved r ↔ ∀ e ∈ saved, tsDate e.2.time = e.1 := by
  refine ⟨fun hg => hg.1, fun hsaved => ⟨hsaved, fun c hc => ?_⟩⟩
  rw [h] at hc
  cases hc

theorem good_writer_of_none {saved : List (Date × Trade)} {r : RdbRoller}
    (h : r.currentDay = none) (w : HdbWriter) :
    Good saved { r with writer := w } ↔ Good saved r :=
  (good_of_none (r := { r with writer := w }) h).trans (good_of_none h).symm

/-- A live process may have a day. -/
theorem waiting_of_live (h : a.Live) : a.Waiting := by
  rintro (hn | hn)
  · exact absurd h.1 hn
  · exact absurd h.2 hn

theorem waiting_step (hw : a.Waiting) {act : AppAction} (h : step cfg a act = some t) :
    t.Waiting := by
  cases act with
  | boot today fetchers =>
      obtain ⟨-, rfl⟩ := boot_eq h
      exact fun _ => rfl
  | prune today =>
      obtain ⟨-, rfl⟩ := prune_eq h
      exact fun _ => rfl
  | startSymbol rest =>
      obtain ⟨s, left, h₁, hstarting, hup, hok, rfl⟩ := startSymbol_eq h
      intro _
      have hday : a.day = none := hw (Or.inr (by rw [hstarting]; exact List.cons_ne_nil s left))
      show (if left = [] then h₁.flagAll else h₁).roller.currentDay = none
      rw [(h₁.flagAll_frame (left = [])).1, FeedHandler.startSymbol_eq hok]
      exact hday
  | reconnect =>
      obtain ⟨hlive, rfl⟩ := reconnect_eq h
      exact waiting_of_live hlive
  | rebridge rest s g =>
      obtain ⟨⟨hlive, -⟩, h₁, -, rfl⟩ := rebridge_eq h
      exact waiting_of_live hlive
  | feed s g =>
      obtain ⟨⟨hlive, -⟩, h₁, -, rfl⟩ := feed_eq h
      exact waiting_of_live hlive
  | quotes s g =>
      obtain ⟨hlive, h₁, -, rfl⟩ := quotes_eq h
      exact waiting_of_live hlive
  | stop =>
      obtain ⟨-, rfl⟩ := stop_eq h
      exact fun _ => rfl

/-- A re-bridge keeps everything on its day exactly when it fetches trades of that day. -/
theorem good_rebridge {rest : Sym → Server} {s : Sym} {g : List Tick} {h₁ : FeedHandler}
    (hok : a.handler.rebridgeGroup (cfg.services rest) s g = .ok h₁) :
    Good a.saved h₁.roller ↔ Good a.saved a.handler.roller ∧ a.OnDay (.rebridge rest s g) := by
  rcases FeedHandler.rebridgeGroup_cases hok with
    ⟨hsame, hquiet⟩ | ⟨hp, last, b, hlast, hmin, hgap, rfl⟩
  · have hroller : h₁.roller = a.handler.roller := by
      rcases hsame with rfl | rfl
      · rfl
      · rfl
    have hon : a.OnDay (.rebridge rest s g) := by
      intro c _ hp last b floor hlast hmin hgap
      exact absurd ⟨hp, last, b, hlast, hmin, hgap⟩ hquiet
    rw [hroller]
    exact ⟨fun hg => ⟨hg, hon⟩, fun hboth => hboth.1⟩
  · -- the condition, with the gap the code computes filled in
    have hon : a.OnDay (.rebridge rest s g) ↔ ∀ c, a.day = some c → ∀ floor,
        a.handler.roller.writer.maxStoredId s = some floor →
        ∀ x ∈ (rest s).gap floor (some b), toMillis x.time / msPerDay = c := by
      constructor
      · intro h c hc floor hfloor
        exact h c hc hp last b floor hlast hmin hgap hfloor
      · intro h c hc _ last' b' floor hlast' hmin' _ hfloor
        cases hlast.symm.trans hlast'
        cases hmin.symm.trans hmin'
        exact h c hc floor hfloor
    rw [hon]
    show Good a.saved { a.handler.roller with
      writer := (bridge (cfg.services rest) a.handler.roller.writer s (some b)).writer } ↔ _
    cases hfloor : a.handler.roller.writer.maxStoredId s with
    | none =>
        have hw : (bridge (cfg.services rest) a.handler.roller.writer s (some b)).writer
            = a.handler.roller.writer :=
          congrArg BridgeResult.writer (bridge_of_none hfloor (some b))
        rw [hw]
        exact ⟨fun hg => ⟨hg, fun c _ floor hn => by cases hn⟩, fun hboth => hboth.1⟩
    | some floor =>
        rw [bridge_serving (cfg.serves rest s) hfloor]
        cases hc : a.day with
        | none =>
            rw [good_writer_of_none hc]
            exact ⟨fun hg => ⟨hg, fun c hn => by cases hn⟩, fun hboth => hboth.1⟩
        | some c =>
            rw [good_insert hc]
            refine and_congr Iff.rfl ⟨?_, ?_⟩
            · intro hrows c' hcc floor' hff x hx
              cases hcc
              cases hff
              exact hrows _ (List.mem_map_of_mem hx)
            · intro hgap' y hy
              obtain ⟨x, hx, rfl⟩ := List.mem_map.mp hy
              exact hgap' c rfl floor rfl x hx

/-- **One call** keeps every saved row under its date, and the rows in memory on the current
day, exactly when it brings rows of the current day only. -/
theorem good_step (hw : a.Waiting) {act : AppAction} (hsound : SoundBoot act)
    (h : step cfg a act = some t) : Good t.saved t.handler.roller
      ↔ Good a.saved a.handler.roller ∧ a.OnDay act := by
  cases act with
  | boot today fetchers =>
      obtain ⟨hdown, rfl⟩ := boot_eq h
      have hday : a.handler.roller.currentDay = none :=
        hw (Or.inl (by rw [hdown]; exact AppPhase.noConfusion))
      -- the process before left no current day, and this one has none yet
      rw [good_of_none rfl, good_of_none hday]
      have hnew := backfillSaved_dated cfg.symbols hsound
        (processed (planDates today cfg.days) a.parts.keys)
        (w := HdbWriter.fresh a.handler.roller.writer.hdb) rfl
      constructor
      · exact fun hall => ⟨fun e he => hall e (List.mem_append_left _ he), trivial⟩
      · rintro ⟨hall, -⟩ e he
        rcases List.mem_append.mp he with he | he
        · exact hall e he
        · exact hnew e he
  | prune today =>
      obtain ⟨hfilled, rfl⟩ := prune_eq h
      have hday : a.handler.roller.currentDay = none :=
        hw (Or.inl (by rw [hfilled]; exact AppPhase.noConfusion))
      rw [good_of_none rfl, good_of_none hday]
      exact ⟨fun hall => ⟨hall, trivial⟩, fun hboth => hboth.1⟩
  | startSymbol rest =>
      obtain ⟨s, left, h₁, hstarting, hup, hok, rfl⟩ := startSymbol_eq h
      have hday : a.handler.roller.currentDay = none :=
        hw (Or.inr (by rw [hstarting]; exact List.cons_ne_nil s left))
      have hday' : (if left = [] then h₁.flagAll else h₁).roller.currentDay = none := by
        rw [(h₁.flagAll_frame (left = [])).1, FeedHandler.startSymbol_eq hok]
        exact hday
      rw [good_of_none hday', good_of_none hday]
      exact ⟨fun hall => ⟨hall, trivial⟩, fun hboth => hboth.1⟩
  | reconnect =>
      obtain ⟨-, rfl⟩ := reconnect_eq h
      rw [a.handler.onConnect_frame.1]
      exact ⟨fun hg => ⟨hg, trivial⟩, fun hboth => hboth.1⟩
  | rebridge rest s g =>
      obtain ⟨-, h₁, hok, rfl⟩ := rebridge_eq h
      exact good_rebridge hok
  | feed s g =>
      obtain ⟨-, h₁, hok, rfl⟩ := feed_eq h
      rcases (FeedHandler.feedGroup_cases hok).1 with ⟨hnil, hroller⟩ | ⟨-, d, hd, hroller⟩
      · have hon : a.OnDay (.feed s g) := by
          intro d hd
          rw [hnil] at hd
          cases hd
        rw [hroller, hnil, List.map_nil, Session.rollsAt_of_error rfl,
          savedRows_none, List.append_nil]
        exact ⟨fun hg => ⟨hg, hon⟩, fun hboth => hboth.1⟩
      · rw [hroller, good_feed hd]
        refine and_congr Iff.rfl ⟨?_, ?_⟩
        · intro hall d' hd'
          cases hd.symm.trans hd'
          exact hall
        · exact fun hall => hall d hd
  | quotes s g =>
      obtain ⟨-, h₁, hok, rfl⟩ := quotes_eq h
      rcases (FeedHandler.applyQuoteGroup_cases hok).1 with
        ⟨hnil, hroller⟩ | ⟨-, d, hd, hroller⟩
      · have hon : a.OnDay (.quotes s g) := by
          intro d hd
          rw [hnil] at hd
          cases hd
        rw [hroller, hnil, List.map_nil, Session.rollsAt_of_error rfl,
          savedRows_none, List.append_nil]
        exact ⟨fun hg => ⟨hg, hon⟩, fun hboth => hboth.1⟩
      · -- the trade table after the quotes is the one the roll leaves
        have htrade : Good (a.saved ++ savedRows a.handler.roller.writer
              (Session.savesDown.rollsAt a.handler.roller
                ((a.handler.freshQuotes s g).map Quote.time)))
            (a.handler.roller.afterFeedQuote d (a.handler.freshQuotes s g))
            ↔ Good (a.saved ++ savedRows a.handler.roller.writer
              (Session.savesDown.rollsAt a.handler.roller
                ((a.handler.freshQuotes s g).map Quote.time))) (a.handler.roller.roll d).1 :=
          Iff.rfl
        rw [hroller, htrade, good_roll hd]
        refine and_congr Iff.rfl ⟨?_, ?_⟩
        · intro hall d' hd'
          cases hd.symm.trans hd'
          exact hall
        · exact fun hall => hall d hd
  | stop =>
      obtain ⟨-, rfl⟩ := stop_eq h
      rw [good_of_none rfl]
      cases hc : a.handler.roller.currentDay with
      | none =>
          rw [good_of_none hc, savedRows_none,
            List.append_nil]
          exact ⟨fun hall => ⟨hall, trivial⟩, fun hboth => hboth.1⟩
      | some c =>
          rw [good_savedRows, Good, hc]
          constructor
          · rintro ⟨hsaved, hrows⟩
            refine ⟨⟨hsaved, fun c' hcc => ?_⟩, trivial⟩
            cases hcc
            exact hrows
          · rintro ⟨⟨hsaved, hrows⟩, -⟩
            exact ⟨hsaved, hrows c rfl⟩

/-! ## What the partitions hold -/

/-- Every trade row of a partition was saved under its date in the run, or was there before. -/
def Covered (hdb : Hdb) (saved : List (Date × Trade)) (p : Parts Date Trade) : Prop :=
  ∀ d, ∀ r ∈ p.rowsAt d, (d, r) ∈ saved ∨ r ∈ hdb.trade.rowsAt d

theorem Covered.mono {hdb : Hdb} {saved saved' : List (Date × Trade)} {p : Parts Date Trade}
    (h : Covered hdb saved p) (hsub : ∀ e ∈ saved, e ∈ saved') : Covered hdb saved' p :=
  fun d r hr => (h d r hr).imp (hsub _) id

theorem covered_savedown {hdb : Hdb} {saved : List (Date × Trade)} {w : HdbWriter}
    (h : Covered hdb saved w.hdb.trade) (dt : Date) :
    Covered hdb (saved ++ savedRows w (some dt)) (w.savedown dt).hdb.trade := by
  intro d r hr
  rw [savedown_hdb_trade, rowsAt_saveTable] at hr
  split at hr
  · rename_i hdt
    rw [hdt.1]
    have hmem : r ∈ w.trade := (perm_storedRows Trade.time Trade.sym w.trade).mem_iff.mp hr
    exact Or.inl (List.mem_append_right _ (List.mem_map_of_mem hmem))
  · exact (h d r hr).imp (List.mem_append_left _) id

theorem covered_roll {hdb : Hdb} {saved : List (Date × Trade)} {r : RdbRoller}
    {times : List Int} {d : Date} (hd : RdbRoller.chunkDate times = .ok d)
    (h : Covered hdb saved r.writer.hdb.trade) :
    Covered hdb (saved ++ savedRows r.writer (Session.savesDown.rollsAt r times))
      (r.roll d).1.writer.hdb.trade := by
  rw [(Session.roll_writer hd).1]
  cases Session.savesDown.rollsAt r times with
  | none => exact h.mono (fun e he => List.mem_append_left _ he)
  | some dt => exact covered_savedown h dt

theorem covered_backfill {hdb : Hdb} {saved : List (Date × Trade)} (symbols : List Sym)
    (fetchers : Sym → Date → Fetch) (ds : List Date) {w : HdbWriter}
    (h : Covered hdb saved w.hdb.trade) :
    Covered hdb (saved ++ backfillSaved symbols fetchers ds w)
      (ds.foldl (fun w day => dayWriter symbols fetchers day w) w).hdb.trade := by
  induction ds generalizing saved w with
  | nil => exact h.mono (fun e he => List.mem_append_left _ he)
  | cons day t ih =>
      rw [List.foldl_cons, backfillSaved, ← List.append_assoc]
      -- the rest of the days starts from what this one saved
      apply ih
      unfold dayWriter
      cases dayWrote symbols fetchers day with
      | true =>
          rw [if_pos rfl, if_pos rfl]
          exact covered_savedown (w := w.insert (dayRows symbols fetchers day)) h day
      | false =>
          rw [if_neg Bool.false_ne_true, if_neg Bool.false_ne_true]
          exact h.mono (fun e he => List.mem_append_left _ he)

theorem covered_step {hdb : Hdb} (hc : Covered hdb a.saved a.parts) {act : AppAction}
    (h : step cfg a act = some t) : Covered hdb t.saved t.parts := by
  cases act with
  | boot today fetchers =>
      obtain ⟨-, rfl⟩ := boot_eq h
      show Covered hdb _ (runBackfill _ _ _ _ _).1.hdb.trade
      rw [(runBackfill_spec _ _ _ _ _).1]
      exact covered_backfill cfg.symbols fetchers _ hc
  | prune today =>
      obtain ⟨-, rfl⟩ := prune_eq h
      intro d r hr
      exact hc d r (Parts.mem_rowsAt_of_keep hr)
  | startSymbol rest =>
      obtain ⟨s, left, h₁, -, -, hok, rfl⟩ := startSymbol_eq h
      have hparts : (if left = [] then h₁.flagAll else h₁).roller.writer.hdb
          = a.handler.roller.writer.hdb := by
        rw [(h₁.flagAll_frame (left = [])).1, (FeedHandler.startSymbol_lastId hok).1, bridge_hdb]
      show Covered hdb a.saved (if left = [] then h₁.flagAll else h₁).roller.writer.hdb.trade
      rw [hparts]
      exact hc
  | reconnect =>
      obtain ⟨-, rfl⟩ := reconnect_eq h
      show Covered hdb a.saved a.handler.onConnect.roller.writer.hdb.trade
      rw [a.handler.onConnect_frame.1]
      exact hc
  | rebridge rest s g =>
      obtain ⟨-, h₁, hok, rfl⟩ := rebridge_eq h
      show Covered hdb a.saved h₁.roller.writer.hdb.trade
      rcases FeedHandler.rebridgeGroup_cases hok with ⟨rfl | rfl, -⟩ | ⟨-, _, b, -, -, -, rfl⟩
      · exact hc
      · exact hc
      · rw [FeedHandler.afterRebridge_writer, bridge_hdb]
        exact hc
  | feed s g =>
      obtain ⟨-, h₁, hok, rfl⟩ := feed_eq h
      show Covered hdb _ h₁.roller.writer.hdb.trade
      rcases (FeedHandler.feedGroup_cases hok).1 with ⟨-, hroller⟩ | ⟨-, d, hd, hroller⟩
      · rw [hroller]
        exact hc.mono (fun e he => List.mem_append_left _ he)
      · rw [hroller]
        exact covered_roll hd hc
  | quotes s g =>
      obtain ⟨-, h₁, hok, rfl⟩ := quotes_eq h
      show Covered hdb _ h₁.roller.writer.hdb.trade
      rcases (FeedHandler.applyQuoteGroup_cases hok).1 with ⟨-, hroller⟩ | ⟨-, d, hd, hroller⟩
      · rw [hroller]
        exact hc.mono (fun e he => List.mem_append_left _ he)
      · rw [hroller]
        exact covered_roll hd hc
  | stop =>
      obtain ⟨-, rfl⟩ := stop_eq h
      show Covered hdb _ a.handler.shutdown.roller.writer.hdb.trade
      unfold FeedHandler.shutdown RdbRoller.flush
      cases a.handler.roller.currentDay with
      | none => exact hc.mono (fun e he => List.mem_append_left _ he)
      | some c => exact covered_savedown hc c

end

/-- **A partition holds only its own day.** Take any database, any sequence of starts, batches
and stops, and any REST answers, with an archive that does not fail and dates its rows. If every
step brings rows of the current day only, every trade row a savedown wrote is under its own
date; once the app has stopped, that is so only if every step did. What the partitions hold was
saved in the run or was there before. -/
theorem dated_iff (cfg : AppConfig) (hdb : Hdb) {as : List AppAction}
    (hsound : ∀ act ∈ as, SoundBoot act) {a : App}
    (h : exec (step cfg) (initial cfg hdb) as = some a) :
    (AllSteps (step cfg) OnDay (initial cfg hdb) as → a.Dated)
      ∧ (a.phase = .down → (a.Dated ↔ AllSteps (step cfg) OnDay (initial cfg hdb) as))
      ∧ Covered hdb a.saved a.parts := by
  have hasm : AllSteps (step cfg) (fun _ act => SoundBoot act) (initial cfg hdb) as :=
    allSteps_of_forall hsound _
  have hgood := exec_iff_allSteps_of (I := Waiting)
    (P := fun a => Good a.saved a.handler.roller) (fun _ _ _ hw _ hst => waiting_step hw hst)
    (fun _ _ _ hw hs hst => good_step hw hs hst) (fun _ => rfl) hasm h
  have hstart : Good (initial cfg hdb).saved (initial cfg hdb).handler.roller :=
    (good_of_none rfl).mpr (fun e he => absurd he List.not_mem_nil)
  have hwait : a.Waiting := exec_invariant (fun _ _ _ hw hst => waiting_step hw hst)
    (fun _ => rfl) h
  refine ⟨fun hall => (hgood.mpr ⟨hstart, hall⟩).1, fun hdown => ?_, ?_⟩
  · have hday : a.handler.roller.currentDay = none :=
      hwait (Or.inl (by rw [hdown]; exact AppPhase.noConfusion))
    constructor
    · exact fun hdated => (hgood.mp ((good_of_none hday).mpr hdated)).2
    · exact fun hall => (hgood.mpr ⟨hstart, hall⟩).1
  · exact exec_invariant (P := fun a => Covered hdb a.saved a.parts)
      (fun _ _ _ hc hst => covered_step hc hst) (fun _ _ hr => Or.inr hr) h

/-! ## Runs -/

/-- The times of the live records of a call. -/
def liveTimes : AppAction → List Int
  | .feed _ g => g.map (fun t => toMillis t.tradeTs)
  | .quotes _ g => g.map (fun q => toMillis q.recvTs)
  | _ => []

/-- Live records arrive in time order, and no group straddles midnight. -/
def InOrder (as : List AppAction) : Prop :=
  (as.flatMap liveTimes).Pairwise (· ≤ ·)
    ∧ ∀ act ∈ as, ∀ t ∈ liveTimes act, ∀ u ∈ liveTimes act, t / msPerDay = u / msPerDay

/-- The default configuration with one symbol. -/
def oneSymbol : AppConfig where
  symbols := ["BTCUSDT"]
  venue := "binance"
  days := 30
  page := tradesLimit
  page_pos := tradesLimit_pos

/-- A symbol that trades once a day, one second after midnight. -/
def dailyTrade (n : Nat) : RestTrade := ⟨n, msPerDay * n + 1000, 100, 1, false⟩

/-- REST once the trades of the first `n` days are known. -/
def restUntil (n : Nat) (_ : Sym) : Server where
  trades := (List.range n).map dailyTrade
  ascending := by
    refine List.pairwise_map.mpr (List.pairwise_lt_range.imp ?_)
    intro i j hij
    exact Int.ofNat_lt.mpr hij

/-- The trade of day `n` as published. -/
def dailyTick (n : Nat) : Tick :=
  ⟨"binance", "BTCUSDT", n, 100, 1, msPerDay * n + 1000, msPerDay * n + 1000, false⟩

/-- A database with day 0, as the archive wrote it. -/
def dayZero : Hdb :=
  { Hdb.empty with
    trade := Parts.save 0 [((dailyTrade 0).parse "BTCUSDT" "binance").ofRaw] ∅ }

/-- A start on day `today` while the archive publishes nothing new, with REST knowing the days
before `today`; then the live trade of that day, and a stop. -/
def lateStart (today : Nat) : List AppAction :=
  [.boot today (fun _ _ => .missing), .prune today, .startSymbol (restUntil today),
    .rebridge (restUntil today) "BTCUSDT" [dailyTick today], .feed "BTCUSDT" [dailyTick today],
    .stop]

theorem soundBoot_lateStart (today : Nat) : ∀ act ∈ lateStart today, SoundBoot act := by
  intro act hact
  simp only [lateStart, List.mem_cons, List.not_mem_nil, or_false] at hact
  rcases hact with rfl | rfl | rfl | rfl | rfl | rfl
  · exact fun _ _ => ⟨rfl, fun r hr => absurd hr List.not_mem_nil⟩
  · trivial
  · trivial
  · trivial
  · trivial
  · trivial

/-- The archive with the trade of day 1. -/
def firstDay (s : Sym) (d : Date) : Fetch :=
  if d = 1 then .chunks [[(dailyTrade 1).parse s "binance"]] false else .missing

/-- The second trade of day 2 as published. -/
def secondOfDay : Tick :=
  ⟨"binance", "BTCUSDT", 3, 101, 1, msPerDay * 2 + 2000, msPerDay * 2 + 2000, true⟩

/-- A start on day 2: day 1 comes from the archive, the first trade of day 2 over the bridge, the
second one live. -/
def fullStart : List AppAction :=
  [.boot 2 firstDay, .prune 2, .startSymbol (restUntil 3),
    .rebridge (restUntil 3) "BTCUSDT" [secondOfDay], .feed "BTCUSDT" [secondOfDay], .stop]

theorem soundBoot_fullStart : ∀ act ∈ fullStart, SoundBoot act := by
  intro act hact
  simp only [fullStart, List.mem_cons, List.not_mem_nil, or_false] at hact
  rcases hact with rfl | rfl | rfl | rfl | rfl | rfl
  · intro s d
    unfold firstDay
    split
    · rename_i hd
      subst hd
      exact ⟨rfl, by simp [Fetch.rows, RestTrade.parse, dailyTrade, msPerDay, toMillis]⟩
    · exact ⟨rfl, fun r hr => absurd hr List.not_mem_nil⟩
  · trivial
  · trivial
  · trivial
  · trivial
  · trivial

/-- Day 1 is fetched, day 2 is bridged and live, and each is saved under its own date. -/
theorem dated_next_day : ∃ a, exec (step oneSymbol) (initial oneSymbol dayZero) fullStart = some a
    ∧ a.saved.map (fun e => (e.1, e.2.tradeID)) = [(1, 1), (2, 2), (2, 3)]
    ∧ a.phase = .down
    ∧ (a.Dated ↔ AllSteps (step oneSymbol) OnDay (initial oneSymbol dayZero) fullStart) := by
  have hrun : (exec (step oneSymbol) (initial oneSymbol dayZero) fullStart).any
      (fun a => decide (a.saved.map (fun e => (e.1, e.2.tradeID)) = [(1, 1), (2, 2), (2, 3)]
        ∧ a.phase = .down)) = true := by decide +kernel
  obtain ⟨a, ha, hsaved⟩ := (Option.any_eq_true _ _).mp hrun
  obtain ⟨hsaved, hdown⟩ := of_decide_eq_true hsaved
  exact ⟨a, ha, hsaved, hdown, (dated_iff oneSymbol dayZero soundBoot_fullStart ha).2.1 hdown⟩

/-- A start on day 2 before the archive has published day 1: the bridge inserts the trade of
day 1, the first live chunk sets the day to 2, and the flush saves both under day 2. -/
theorem day_late : ¬ ∀ (cfg : AppConfig) (hdb : Hdb) (as : List AppAction) (a : App),
    (∀ act ∈ as, SoundBoot act) → InOrder as →
    exec (step cfg) (initial cfg hdb) as = some a → a.Dated := by
  intro h
  have hrun : (exec (step oneSymbol) (initial oneSymbol dayZero) (lateStart 2)).any
      (fun a => a.saved.any (fun e => decide (tsDate e.2.time ≠ e.1))) = true := by
    decide +kernel
  obtain ⟨a, ha, hbad⟩ := (Option.any_eq_true _ _).mp hrun
  obtain ⟨e, he, hne⟩ := List.any_eq_true.mp hbad
  have horder : InOrder (lateStart 2) := by
    refine ⟨by decide, ?_⟩
    intro act hact
    simp only [lateStart, List.mem_cons, List.not_mem_nil, or_false] at hact
    rcases hact with rfl | rfl | rfl | rfl | rfl | rfl <;> decide
  exact of_decide_eq_true hne
    (h oneSymbol dayZero (lateStart 2) a (soundBoot_lateStart 2) horder ha e he)

end App

end NanoTick
