import NanoTick.Store.Roller
import Mathlib.Tactic

set_option autoImplicit false

/-! # What rollover, flush and restart keep

A `Session` is a roller over its store together with the rows inserted so far, in this
process and in the ones before it. `step` performs one call; a call that raises changes
nothing. `restart` is the clean one: flush, then a new process over the same database.

A savedown replaces what its date held. `Session.intact_iff` says exactly which runs lose
nothing: those in which no savedown writes a table over rows saved earlier under the same
date. `lost_by_restart` is a run that does, two sessions on one day.
-/

namespace NanoTick

open Python Runs

/-- One call on the roller, or a clean restart of the process. -/
inductive RollerOp where
  | feed (cols : List Trade)
  | feedQuote (cols : List Quote)
  | flush
  | restart
  deriving DecidableEq

/-- A roller and every row inserted into its store so far. -/
structure Session where
  roller : RdbRoller
  trades : Multiset Trade
  quotes : Multiset Quote

namespace Session

/-- A new process over a database; what the database holds was inserted earlier. -/
def start (hdb : Hdb) : Session :=
  ⟨RdbRoller.fresh hdb, hdb.trade.rows, hdb.quote.rows⟩

/-- One call. -/
def step (s : Session) : RollerOp → Option Session
  | .feed cols =>
      match s.roller.feed cols with
      | .ok (r, _) => some { s with roller := r, trades := s.trades + (cols.map Trade.ofRaw) }
      | .error _ => some s
  | .feedQuote cols =>
      match s.roller.feedQuote cols with
      | .ok (r, _) => some { s with roller := r, quotes := s.quotes + (cols.map Quote.ofRaw) }
      | .error _ => some s
  | .flush => some { s with roller := s.roller.flush.1 }
  -- the flush saves what is in memory, and the new process has only the database
  | .restart => some { s with roller := RdbRoller.fresh s.roller.flush.1.writer.hdb }

/-- Every row inserted is stored, as often as it was inserted. -/
def Intact (s : Session) : Prop :=
  s.trades ≤ s.roller.writer.storedTrades ∧ s.quotes ≤ s.roller.writer.storedQuotes

/-- Every row inserted is in memory or in some partition. -/
def Kept (s : Session) : Prop :=
  (∀ r ∈ s.trades, r ∈ s.roller.writer.trade ∨ ∃ d, r ∈ s.roller.writer.hdb.trade.rowsAt d) ∧
  (∀ r ∈ s.quotes, r ∈ s.roller.writer.quote ∨ ∃ d, r ∈ s.roller.writer.hdb.quote.rowsAt d)

/-- The date a call saves down, if it does. -/
def savesDown (r : RdbRoller) : RollerOp → Option Date
  | .feed cols => rollsAt r (cols.map Trade.time)
  | .feedQuote cols => rollsAt r (cols.map Quote.time)
  | .flush => r.currentDay
  | .restart => r.currentDay
where
  /-- A chunk saves the current day down when its own date is past it. -/
  rollsAt (r : RdbRoller) (times : List Int) : Option Date :=
    match RdbRoller.chunkDate times, r.currentDay with
    | .ok day, some cur => if cur < day then some cur else none
    | _, _ => none

/-- The savedown of date `dt` writes no table over rows saved earlier. -/
def SavesApart (w : HdbWriter) (dt : Date) : Prop :=
  (w.trade = [] ∨ w.hdb.trade.rowsAt dt = []) ∧ (w.quote = [] ∨ w.hdb.quote.rowsAt dt = [])

/-- The call's savedown, if there is one, writes over nothing. -/
def Apart (s : Session) (op : RollerOp) : Prop :=
  ∀ dt, savesDown s.roller op = some dt → SavesApart s.roller.writer dt

/-! ## One call -/

/-- The writer after the savedown a call makes, before it inserts anything. -/
def afterSave (w : HdbWriter) : Option Date → HdbWriter
  | none => w
  | some dt => w.savedown dt

/-- A process that has no current day holds nothing in memory. -/
def DayTracked (r : RdbRoller) : Prop :=
  r.currentDay = none → r.writer.trade = [] ∧ r.writer.quote = []

theorem roll_writer {r : RdbRoller} {times : List Int} {day : Date}
    (h : RdbRoller.chunkDate times = .ok day) :
    (r.roll day).1.writer = afterSave r.writer (savesDown.rollsAt r times)
      ∧ (r.roll day).1.currentDay ≠ none := by
  unfold savesDown.rollsAt
  rw [h]
  cases hc : r.currentDay with
  | none =>
      rw [RdbRoller.roll_none hc]
      exact ⟨rfl, Option.some_ne_none _⟩
  | some cur =>
      by_cases hlt : cur < day
      · rw [RdbRoller.roll_past hc hlt]
        simp only [if_pos hlt]
        exact ⟨rfl, Option.some_ne_none _⟩
      · rw [RdbRoller.roll_within hc (not_lt.mp hlt)]
        simp only [if_neg hlt]
        exact ⟨rfl, by rw [hc]; exact Option.some_ne_none _⟩

theorem rollsAt_of_error {r : RdbRoller} {times : List Int} {e : PyErr}
    (h : RdbRoller.chunkDate times = .error e) : savesDown.rollsAt r times = none := by
  unfold savesDown.rollsAt
  rw [h]

theorem flush_cleared {r : RdbRoller} (h : DayTracked r) :
    r.flush.1.writer.trade = [] ∧ r.flush.1.writer.quote = [] := by
  unfold RdbRoller.flush
  cases hc : r.currentDay with
  | none => exact h hc
  | some d => exact ⟨savedown_trade _ _, savedown_quote _ _⟩

theorem flush_writer (r : RdbRoller) :
    r.flush.1.writer = afterSave r.writer r.currentDay := by
  unfold RdbRoller.flush
  cases r.currentDay <;> rfl

/-- **What a call does.** It saves down as `savesDown` says, then stores what it inserts. -/
theorem step_effect {s t : Session} {op : RollerOp} (hday : DayTracked s.roller)
    (h : s.step op = some t) :
    DayTracked t.roller ∧ ∃ (newT : Multiset Trade) (newQ : Multiset Quote),
      t.trades = s.trades + newT ∧ t.quotes = s.quotes + newQ ∧
      t.roller.writer.storedTrades
        = (afterSave s.roller.writer (savesDown s.roller op)).storedTrades + newT ∧
      t.roller.writer.storedQuotes
        = (afterSave s.roller.writer (savesDown s.roller op)).storedQuotes + newQ := by
  cases op with
  | feed cols =>
      cases hd : RdbRoller.chunkDate (cols.map Trade.time) with
      | error e =>
          simp only [step, RdbRoller.feed_of_error _ hd] at h
          cases h
          refine ⟨hday, 0, 0, (add_zero _).symm, (add_zero _).symm, ?_, ?_⟩
          · rw [savesDown, rollsAt_of_error hd, add_zero, afterSave]
          · rw [savesDown, rollsAt_of_error hd, add_zero, afterSave]
      | ok day =>
          simp only [step, RdbRoller.feed_of_ok _ hd] at h
          cases h
          obtain ⟨hw, hne⟩ := roll_writer (r := s.roller) hd
          refine ⟨fun hn => absurd hn hne, (cols.map Trade.ofRaw : Multiset Trade), 0, rfl,
            (add_zero _).symm, ?_, ?_⟩
          · rw [savesDown, ← hw, ← storedTrades_insert]
            rfl
          · rw [savesDown, ← hw, add_zero, ← storedQuotes_insert _ cols]
            rfl
  | feedQuote cols =>
      cases hd : RdbRoller.chunkDate (cols.map Quote.time) with
      | error e =>
          simp only [step, RdbRoller.feedQuote_of_error _ hd] at h
          cases h
          refine ⟨hday, 0, 0, (add_zero _).symm, (add_zero _).symm, ?_, ?_⟩
          · rw [savesDown, rollsAt_of_error hd, add_zero, afterSave]
          · rw [savesDown, rollsAt_of_error hd, add_zero, afterSave]
      | ok day =>
          simp only [step, RdbRoller.feedQuote_of_ok _ hd] at h
          cases h
          obtain ⟨hw, hne⟩ := roll_writer (r := s.roller) hd
          refine ⟨fun hn => absurd hn hne, 0, (cols.map Quote.ofRaw : Multiset Quote),
            (add_zero _).symm, rfl, ?_, ?_⟩
          · rw [savesDown, ← hw, add_zero, ← storedTrades_insertQuote _ cols]
            rfl
          · rw [savesDown, ← hw, ← storedQuotes_insertQuote]
            rfl
  | flush =>
      cases h
      refine ⟨?_, 0, 0, (add_zero _).symm, (add_zero _).symm, ?_, ?_⟩
      · intro _
        exact flush_cleared hday
      · rw [savesDown, ← flush_writer, add_zero]
      · rw [savesDown, ← flush_writer, add_zero]
  | restart =>
      cases h
      obtain ⟨ht, hq⟩ := flush_cleared hday
      refine ⟨fun _ => ⟨rfl, rfl⟩, 0, 0, (add_zero _).symm, (add_zero _).symm, ?_, ?_⟩
      · rw [savesDown, ← flush_writer, add_zero, HdbWriter.storedTrades, HdbWriter.storedTrades, ht]
        rfl
      · rw [savesDown, ← flush_writer, add_zero, HdbWriter.storedQuotes, HdbWriter.storedQuotes, hq]
        rfl

/-- The rows a savedown writes over. -/
def lostTrades (w : HdbWriter) : Option Date → Multiset Trade
  | none => 0
  | some dt => if w.trade = [] then 0 else (w.hdb.trade.rowsAt dt : Multiset Trade)

def lostQuotes (w : HdbWriter) : Option Date → Multiset Quote
  | none => 0
  | some dt => if w.quote = [] then 0 else (w.hdb.quote.rowsAt dt : Multiset Quote)

theorem afterSave_trades (w : HdbWriter) (o : Option Date) :
    (afterSave w o).storedTrades + lostTrades w o = w.storedTrades := by
  cases o with
  | none => exact add_zero _
  | some dt => exact storedTrades_savedown w dt

theorem afterSave_quotes (w : HdbWriter) (o : Option Date) :
    (afterSave w o).storedQuotes + lostQuotes w o = w.storedQuotes := by
  cases o with
  | none => exact add_zero _
  | some dt => exact storedQuotes_savedown w dt

theorem apart_iff_lost (s : Session) (op : RollerOp) :
    s.Apart op ↔ lostTrades s.roller.writer (savesDown s.roller op) = 0
      ∧ lostQuotes s.roller.writer (savesDown s.roller op) = 0 := by
  unfold Apart
  cases savesDown s.roller op with
  | none => simp [lostTrades, lostQuotes]
  | some dt => simp [lostTrades, lostQuotes, SavesApart, or_iff_not_imp_left]

/-- Rows are never stored more often than they were inserted, and a process without a
current day holds nothing. -/
def Sound (s : Session) : Prop :=
  DayTracked s.roller ∧ s.roller.writer.storedTrades ≤ s.trades ∧
    s.roller.writer.storedQuotes ≤ s.quotes

theorem sound_start (hdb : Hdb) : (start hdb).Sound := by
  refine ⟨fun _ => ⟨rfl, rfl⟩, ?_, ?_⟩
  · exact (zero_add hdb.trade.rows).le
  · exact (zero_add hdb.quote.rows).le

theorem intact_start (hdb : Hdb) : (start hdb).Intact :=
  ⟨(zero_add hdb.trade.rows).ge, (zero_add hdb.quote.rows).ge⟩

private theorem counts_step {α : Type} {ins stored kept lost : Multiset α} (new : Multiset α)
    (hconserve : kept + lost = stored) (hsound : stored ≤ ins) :
    kept + new ≤ ins + new ∧ (ins + new ≤ kept + new ↔ ins ≤ stored ∧ lost = 0) := by
  have hkept : kept ≤ stored := by
    rw [← hconserve]
    exact Multiset.le_add_right _ _
  refine ⟨add_le_add_left (le_trans hkept hsound) new, ?_⟩
  rw [Multiset.add_le_add_iff_right]
  constructor
  · intro h
    have hstored : ins ≤ stored := le_trans h hkept
    have heq : kept = stored := le_antisymm hkept (le_trans hsound h)
    refine ⟨hstored, ?_⟩
    rw [heq] at hconserve
    exact add_eq_left.mp hconserve
  · rintro ⟨hle, hlost⟩
    rw [hlost, add_zero] at hconserve
    rwa [hconserve]

theorem sound_step {s t : Session} {op : RollerOp} (hs : s.Sound) (h : s.step op = some t) :
    t.Sound := by
  obtain ⟨hday, hT, hQ⟩ := hs
  obtain ⟨hday', newT, newQ, ht, hq, hst, hsq⟩ := step_effect hday h
  refine ⟨hday', ?_, ?_⟩
  · rw [ht, hst]
    exact (counts_step _ (afterSave_trades _ _) hT).1
  · rw [hq, hsq]
    exact (counts_step _ (afterSave_quotes _ _) hQ).1

/-- A call leaves everything stored exactly when everything was, and its savedown writes over
nothing. -/
theorem intact_step {s t : Session} {op : RollerOp} (hs : s.Sound) (h : s.step op = some t) :
    t.Intact ↔ s.Intact ∧ s.Apart op := by
  obtain ⟨hday, hT, hQ⟩ := hs
  obtain ⟨-, newT, newQ, ht, hq, hst, hsq⟩ := step_effect hday h
  have hcT := (counts_step newT (afterSave_trades _ (savesDown s.roller op)) hT).2
  have hcQ := (counts_step newQ (afterSave_quotes _ (savesDown s.roller op)) hQ).2
  rw [Intact, ht, hq, hst, hsq, hcT, hcQ, apart_iff_lost, Intact]
  tauto

theorem Intact.kept {s : Session} (h : s.Intact) : s.Kept := by
  constructor
  · intro r hr
    exact (mem_storedTrades _).mp (Multiset.mem_of_le h.1 hr)
  · intro r hr
    exact (mem_storedQuotes _).mp (Multiset.mem_of_le h.2 hr)

theorem exec_total (s : Session) (ops : List RollerOp) : ∃ t, exec step s ops = some t := by
  induction ops generalizing s with
  | nil => exact ⟨s, rfl⟩
  | cons op ops ih =>
      have hstep : ∃ t, s.step op = some t := by
        cases op with
        | feed cols =>
            cases hf : s.roller.feed cols with
            | error e => exact ⟨s, by simp only [step, hf]⟩
            | ok r => exact ⟨_, by simp only [step, hf]; rfl⟩
        | feedQuote cols =>
            cases hf : s.roller.feedQuote cols with
            | error e => exact ⟨s, by simp only [step, hf]⟩
            | ok r => exact ⟨_, by simp only [step, hf]; rfl⟩
        | flush => exact ⟨_, rfl⟩
        | restart => exact ⟨_, rfl⟩
      -- every call returns, so a run never stops
      obtain ⟨t, ht⟩ := hstep
      obtain ⟨u, hu⟩ := ih t
      exact ⟨u, exec_cons_eq_some.mpr ⟨t, ht, hu⟩⟩

/-- **Rollover, flush and restart.** After any sequence of calls and clean restarts, over any
database, every row ever inserted is stored as often as it was inserted exactly when no
savedown of the run wrote a table over rows saved earlier under its date; then every row is
in memory or in some partition. -/
theorem intact_iff (hdb : Hdb) (ops : List RollerOp) :
    ∃ s, exec step (start hdb) ops = some s ∧
      (s.Intact ↔ AllSteps step Apart (start hdb) ops) ∧ (s.Intact → s.Kept) := by
  obtain ⟨s, hs⟩ := exec_total (start hdb) ops
  refine ⟨s, hs, ?_, Intact.kept⟩
  have hiff := exec_iff_allSteps (fun _ _ _ => sound_step) (fun _ _ _ => intact_step)
    (sound_start hdb) hs
  rw [hiff]
  exact ⟨fun h => h.2, fun h => ⟨intact_start hdb, h⟩⟩

/-- A trade at 1970-01-01T00:00:01 and one a second later. -/
def firstTrade : Trade := ⟨1000, "BTCUSDT", "binance", 1, 100, 1, 1000, false⟩
def secondTrade : Trade := ⟨2000, "BTCUSDT", "binance", 2, 101, 1, 2000, true⟩

/-- Two sessions on one day: the second flush replaces the partition the first one wrote, and
the first session's trade is gone. -/
theorem lost_by_restart : ¬ ∀ (hdb : Hdb) (ops : List RollerOp) (s : Session),
    exec step (start hdb) ops = some s → s.Kept := by
  intro h
  have hk := h Hdb.empty [.feed [firstTrade], .restart, .feed [secondTrade], .restart] _ rfl
  have hmem := (mem_storedTrades _).mpr (hk.1 (Trade.ofRaw firstTrade) (by decide +kernel))
  revert hmem
  decide +kernel

end Session

end NanoTick
