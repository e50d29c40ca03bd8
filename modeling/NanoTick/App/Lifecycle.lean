import NanoTick.Backfill.Archive
import NanoTick.Live.FeedHandler
import NanoTick.Store.Rollover
import Mathlib.Tactic

set_option autoImplicit false

/-! # The life of the app

`main` (`platform/app.py`) runs one process after another over one database: fill the window
from the archive, prune what is older, bridge every symbol over REST, then apply live batches
until it is stopped and flushes. `App` is that process with its store; an action is one call
of it. A round of `_apply_trades` is a `rebridge` followed by a `feed` of the same group.

What the outside answers comes with the action: the archive's fetches at a start, and the
trades REST holds of a symbol when it is bridged. `saved` records every trade row a savedown
writes, with the date it is written under.
-/

namespace NanoTick

open Python Runs

/-! ## Retention -/

/-- `prune`: delete the partitions older than the window. A partition is a date whose directory
holds `trade`; its whole directory goes. -/
def prune (hdb : Hdb) (today : Date) (days : Nat) : Hdb :=
  let stays : Date → Bool := fun d => !decide (d < today - days ∧ d ∈ existingPartitionDates hdb)
  { trade := hdb.trade.keep stays
    quote := hdb.quote.keep stays
    bar := hdb.bar.keep stays
    quoteBar := hdb.quoteBar.keep stays }

/-! ## The process -/

/-- The parts of `BackfillConfig` the modelled calls read, and the REST page. -/
structure AppConfig where
  symbols : List Sym
  venue : String
  days : Nat
  page : Nat
  page_pos : 0 < page

/-- REST as it answers while it holds `rest`, and the writer's own resume points. -/
def AppConfig.services (cfg : AppConfig) (rest : Sym → Server) : Services where
  venue := cfg.venue
  page := cfg.page
  fetchTrades := fun s _ f => .ok (Paging.page RestTrade.id cfg.page f (rest s).trades)
  rounds := fun s => (rest s).trades.length + 1
  maxStoredId := HdbWriter.maxStoredId
  maxStoredQuoteId := HdbWriter.maxStoredQuoteId

theorem AppConfig.serves (cfg : AppConfig) (rest : Sym → Server) (s : Sym) :
    Serves (cfg.services rest) s (rest s) where
  fetch := fun _ _ => rfl
  page_pos := cfg.page_pos
  rounds := Nat.lt_succ_self _

/-- Where `main` is: not running, filled, or bridging and live. -/
inductive AppPhase where
  | down
  | filled
  | up
  deriving DecidableEq, Repr

structure App where
  phase : AppPhase
  handler : FeedHandler
  starting : List Sym
  saved : List (Date × Trade)

inductive AppAction where
  | boot (today : Date) (fetchers : Sym → Date → Fetch)
  | prune (today : Date)
  | startSymbol (rest : Sym → Server)
  | reconnect
  | rebridge (rest : Sym → Server) (s : Sym) (g : List Tick)
  | feed (s : Sym) (g : List Tick)
  | quotes (s : Sym) (g : List QuoteTick)
  | stop

/-- The rows a savedown of date `dt` writes. -/
def savedRows (w : HdbWriter) : Option Date → List (Date × Trade)
  | none => []
  | some dt => w.trade.map (fun r => (dt, r))

@[simp] theorem savedRows_none (w : HdbWriter) : savedRows w none = [] := rfl

/-- The rows the savedowns of a backfill write, day by day. -/
def backfillSaved (symbols : List Sym) (fetchers : Sym → Date → Fetch) :
    List Date → HdbWriter → List (Date × Trade)
  | [], _ => []
  | day :: t, w =>
      savedRows (w.insert (dayRows symbols fetchers day))
          (if dayWrote symbols fetchers day then some day else none)
        ++ backfillSaved symbols fetchers t (dayWriter symbols fetchers day w)

namespace App

/-- The process while it applies live batches. -/
def Live (a : App) : Prop := a.phase = .up ∧ a.starting = []

instance (a : App) : Decidable a.Live := inferInstanceAs (Decidable (_ ∧ _))

/-- One call. A call that raises ends the process: there is no next state. -/
def step (cfg : AppConfig) (a : App) : AppAction → Option App
  | .boot today fetchers =>
      if a.phase = .down then
        let w := HdbWriter.fresh a.handler.roller.writer.hdb
        let dates := planDates today cfg.days
        -- `run` reads the dates on disk before it fetches anything
        let existing := existingPartitionDates w.hdb
        some {
          phase := .filled
          handler := FeedHandler.new cfg.symbols
            (runBackfill dates existing cfg.symbols fetchers w).1
          starting := []
          saved := a.saved
            ++ backfillSaved cfg.symbols fetchers (processed dates existing) w }
      else none
  | .prune today =>
      if a.phase = .filled then
        let w := a.handler.roller.writer
        some { a with
          phase := .up
          handler := FeedHandler.new cfg.symbols { w with hdb := prune w.hdb today cfg.days }
          starting := cfg.symbols }
      else none
  | .startSymbol rest =>
      match a.starting with
      | [] => none
      | s :: left =>
          if a.phase = .up then
            match a.handler.startSymbol (cfg.services rest) s with
            | .error _ => none
            | .ok h =>
                -- after the last symbol all are flagged, and the process is live
                some { a with handler := if left = [] then h.flagAll else h, starting := left }
          else none
  | .reconnect => if a.Live then some { a with handler := a.handler.onConnect } else none
  | .rebridge rest s g =>
      if a.Live ∧ ∀ t ∈ g, t.symbol = s then
        match a.handler.rebridgeGroup (cfg.services rest) s g with
        | .error _ => none
        | .ok h => some { a with handler := h }
      else none
  | .feed s g =>
      if a.Live ∧ ∀ t ∈ g, t.symbol = s then
        match a.handler.feedGroup s g with
        | .error _ => none
        | .ok h =>
            let times := (a.handler.freshRows s g).map Trade.time
            some { a with
              handler := h
              saved := a.saved ++ savedRows a.handler.roller.writer
                (Session.savesDown.rollsAt a.handler.roller times) }
      else none
  | .quotes s g =>
      if a.Live then
        match a.handler.applyQuoteGroup s g with
        | .error _ => none
        | .ok h =>
            let times := (a.handler.freshQuotes s g).map Quote.time
            some { a with
              handler := h
              saved := a.saved ++ savedRows a.handler.roller.writer
                (Session.savesDown.rollsAt a.handler.roller times) }
      else none
  | .stop =>
      if a.Live then
        some {
          phase := .down
          handler := FeedHandler.new cfg.symbols
            (HdbWriter.fresh a.handler.shutdown.roller.writer.hdb)
          starting := []
          saved := a.saved ++ savedRows a.handler.roller.writer a.handler.roller.currentDay }
      else none

/-- The trades in memory. -/
abbrev rdb (a : App) : List Trade := a.handler.roller.writer.trade

/-- The saved trades. -/
abbrev parts (a : App) : Parts Date Trade := a.handler.roller.writer.hdb.trade

/-- The day the roller accumulates. -/
abbrev day (a : App) : Option Date := a.handler.roller.currentDay

/-- Before the first start, over a database. -/
def initial (cfg : AppConfig) (hdb : Hdb) : App where
  phase := .down
  handler := FeedHandler.new cfg.symbols (HdbWriter.fresh hdb)
  starting := []
  saved := []

/-! ## What each call needs and does -/

section

variable {cfg : AppConfig} {a t : App}

theorem boot_eq {today : Date} {fetchers : Sym → Date → Fetch}
    (h : step cfg a (.boot today fetchers) = some t) :
    a.phase = .down ∧ t = {
      phase := .filled
      handler := FeedHandler.new cfg.symbols
        (runBackfill (planDates today cfg.days) a.parts.keys cfg.symbols fetchers
          (HdbWriter.fresh a.handler.roller.writer.hdb)).1
      starting := []
      saved := a.saved ++ backfillSaved cfg.symbols fetchers
        (processed (planDates today cfg.days) a.parts.keys)
        (HdbWriter.fresh a.handler.roller.writer.hdb) } := by
  dsimp only [step] at h
  obtain ⟨hdown, h⟩ := Option.ite_none_right_eq_some.mp h
  exact ⟨hdown, (Option.some.inj h).symm⟩

theorem prune_eq {today : Date} (h : step cfg a (.prune today) = some t) :
    a.phase = .filled ∧ t = { a with
      phase := .up
      handler := FeedHandler.new cfg.symbols
        { a.handler.roller.writer with
          hdb := NanoTick.prune a.handler.roller.writer.hdb today cfg.days }
      starting := cfg.symbols } := by
  dsimp only [step] at h
  obtain ⟨hfilled, h⟩ := Option.ite_none_right_eq_some.mp h
  exact ⟨hfilled, (Option.some.inj h).symm⟩

theorem startSymbol_eq {rest : Sym → Server} (h : step cfg a (.startSymbol rest) = some t) :
    ∃ s left h₁, a.starting = s :: left ∧ a.phase = .up
      ∧ a.handler.startSymbol (cfg.services rest) s = .ok h₁
      ∧ t = { a with handler := if left = [] then h₁.flagAll else h₁, starting := left } := by
  dsimp only [step] at h
  split at h
  · cases h
  · rename_i s left hstarting
    split at h
    · rename_i hup
      split at h
      · cases h
      · rename_i h₁ hok
        exact ⟨s, left, h₁, hstarting, hup, hok, (Option.some.inj h).symm⟩
    · cases h

theorem reconnect_eq (h : step cfg a .reconnect = some t) :
    a.Live ∧ t = { a with handler := a.handler.onConnect } := by
  dsimp only [step] at h
  obtain ⟨hlive, h⟩ := Option.ite_none_right_eq_some.mp h
  exact ⟨hlive, (Option.some.inj h).symm⟩

theorem rebridge_eq {rest : Sym → Server} {s : Sym} {g : List Tick}
    (h : step cfg a (.rebridge rest s g) = some t) :
    (a.Live ∧ ∀ u ∈ g, u.symbol = s) ∧ ∃ h₁,
      a.handler.rebridgeGroup (cfg.services rest) s g = .ok h₁ ∧ t = { a with handler := h₁ } := by
  dsimp only [step] at h
  obtain ⟨hlive, h⟩ := Option.ite_none_right_eq_some.mp h
  split at h
  · cases h
  · rename_i h₁ hok
    exact ⟨hlive, h₁, hok, (Option.some.inj h).symm⟩

theorem feed_eq {s : Sym} {g : List Tick} (h : step cfg a (.feed s g) = some t) :
    (a.Live ∧ ∀ u ∈ g, u.symbol = s) ∧ ∃ h₁, a.handler.feedGroup s g = .ok h₁
      ∧ t = { a with
        handler := h₁
        saved := a.saved ++ savedRows a.handler.roller.writer
          (Session.savesDown.rollsAt a.handler.roller
            ((a.handler.freshRows s g).map Trade.time)) } := by
  dsimp only [step] at h
  obtain ⟨hlive, h⟩ := Option.ite_none_right_eq_some.mp h
  split at h
  · cases h
  · rename_i h₁ hok
    exact ⟨hlive, h₁, hok, (Option.some.inj h).symm⟩

theorem quotes_eq {s : Sym} {g : List QuoteTick} (h : step cfg a (.quotes s g) = some t) :
    a.Live ∧ ∃ h₁, a.handler.applyQuoteGroup s g = .ok h₁
      ∧ t = { a with
        handler := h₁
        saved := a.saved ++ savedRows a.handler.roller.writer
          (Session.savesDown.rollsAt a.handler.roller
            ((a.handler.freshQuotes s g).map Quote.time)) } := by
  dsimp only [step] at h
  obtain ⟨hlive, h⟩ := Option.ite_none_right_eq_some.mp h
  split at h
  · cases h
  · rename_i h₁ hok
    exact ⟨hlive, h₁, hok, (Option.some.inj h).symm⟩

theorem stop_eq (h : step cfg a .stop = some t) :
    a.Live ∧ t = {
      phase := .down
      handler := FeedHandler.new cfg.symbols
        (HdbWriter.fresh a.handler.shutdown.roller.writer.hdb)
      starting := []
      saved := a.saved ++ savedRows a.handler.roller.writer a.handler.roller.currentDay } := by
  dsimp only [step] at h
  obtain ⟨hlive, h⟩ := Option.ite_none_right_eq_some.mp h
  exact ⟨hlive, (Option.some.inj h).symm⟩

end

end App

end NanoTick
