import NanoTick.Store.Schema
import NanoTick.Basic.Runs
import Mathlib.Tactic

set_option autoImplicit false

/-! # The roller

`RdbRoller` (`resources/backfill.py`) sits between the live feed and the writer: it inserts
trade and quote chunks and saves the day down when a chunk of a later day arrives. The day
comes from the data: the UTC date of a chunk's last row.
-/

namespace NanoTick

open Python

/-! ## UTC dates -/

def msPerDay : Int := 86400000

/-- `_utc_date`: the UTC date of an epoch-millisecond time. `datetime.fromtimestamp` covers
the years 1 to 9999 and raises outside them. -/
def utcDate (ms : Int) : Except PyErr Date :=
  if -62135596800000 ≤ ms ∧ ms < 253402300800000 then .ok (ms / msPerDay)
  else .error .valueError

theorem utcDate_eq_ok {ms : Int} {d : Date} (h : utcDate ms = .ok d) : d = ms / msPerDay := by
  unfold utcDate at h
  split at h
  · exact (Except.ok.inj h).symm
  · cases h

/-- The UTC date of a stored timestamp. -/
def tsDate (ts : Int) : Date := (ts - ms2ts 0) / (1000000 * msPerDay)

theorem tsDate_ms2ts (ms : Int) : tsDate (ms2ts ms) = ms / msPerDay := by
  have h : ms2ts ms - ms2ts 0 = 1000000 * ms := by
    unfold ms2ts
    ring
  calc (ms2ts ms - ms2ts 0) / (1000000 * msPerDay)
      = 1000000 * ms / (1000000 * msPerDay) := by rw [h]
    _ = ms / msPerDay := Int.mul_ediv_mul_of_pos _ _ (by decide)

/-! ## The roller -/

/-- `RdbRoller`: the writer and the day being accumulated. -/
structure RdbRoller where
  writer : HdbWriter
  currentDay : Option Date
  deriving DecidableEq

/-- What `feed` reports. -/
structure FeedResult where
  inserted : Nat
  day : Option Date
  rolled : Option Date
  deriving DecidableEq, Repr

namespace RdbRoller

/-- A new roller over a new process. -/
def fresh (hdb : Hdb) : RdbRoller := ⟨HdbWriter.fresh hdb, none⟩

/-- `_roll`: save the current day down and advance when `day` is past it. -/
def roll (r : RdbRoller) (day : Date) : RdbRoller × Option Date :=
  match r.currentDay with
  -- the first chunk sets the day; what is in memory already stays there
  | none => ({ r with currentDay := some day }, none)
  | some cur =>
      if cur < day then
        ({ writer := r.writer.savedown cur, currentDay := some day }, some cur)
      -- a late chunk never moves the day back
      else (r, none)

/-- The date of a chunk: the date of its last row. An empty chunk has no last row. -/
def chunkDate (times : List Int) : Except PyErr Date :=
  match times.getLast? with
  | none => .error .indexError
  | some t => utcDate t

/-- `feed`: roll to the chunk's date, then insert the trades. -/
def feed (r : RdbRoller) (cols : List Trade) : Except PyErr (RdbRoller × FeedResult) := do
  let day ← chunkDate (cols.map Trade.time)
  let (r, rolled) := r.roll day
  return ({ r with writer := r.writer.insert cols },
    { inserted := cols.length, day := r.currentDay, rolled := rolled })

/-- `feed_quote`: the same for quotes. -/
def feedQuote (r : RdbRoller) (cols : List Quote) : Except PyErr (RdbRoller × FeedResult) := do
  let day ← chunkDate (cols.map Quote.time)
  let (r, rolled) := r.roll day
  return ({ r with writer := r.writer.insertQuote cols },
    { inserted := cols.length, day := r.currentDay, rolled := rolled })

/-- `flush`: save the current day down, if there is one. -/
def flush (r : RdbRoller) : RdbRoller × Option Date :=
  match r.currentDay with
  | none => (r, none)
  | some day => ({ writer := r.writer.savedown day, currentDay := none }, some day)

/-! ## What each operation does -/

theorem roll_none {r : RdbRoller} (h : r.currentDay = none) (day : Date) :
    r.roll day = ({ r with currentDay := some day }, none) := by
  simp only [roll, h]

theorem roll_past {r : RdbRoller} {cur day : Date} (h : r.currentDay = some cur)
    (hlt : cur < day) :
    r.roll day = ({ writer := r.writer.savedown cur, currentDay := some day }, some cur) := by
  simp only [roll, h, if_pos hlt]

theorem roll_within {r : RdbRoller} {cur day : Date} (h : r.currentDay = some cur)
    (hle : day ≤ cur) : r.roll day = (r, none) := by
  simp only [roll, h, if_neg (not_lt.mpr hle)]

theorem chunkDate_eq_ok {times : List Int} {d : Date} (h : chunkDate times = .ok d) :
    ∃ t, times.getLast? = some t ∧ d = t / msPerDay := by
  unfold chunkDate at h
  cases ht : times.getLast? with
  | none => simp only [ht] at h; cases h
  | some t =>
      simp only [ht] at h
      exact ⟨t, rfl, utcDate_eq_ok h⟩

/-- The state a chunk of date `day` leaves. -/
def afterFeed (r : RdbRoller) (day : Date) (cols : List Trade) : RdbRoller :=
  { (r.roll day).1 with writer := (r.roll day).1.writer.insert cols }

def afterFeedQuote (r : RdbRoller) (day : Date) (cols : List Quote) : RdbRoller :=
  { (r.roll day).1 with writer := (r.roll day).1.writer.insertQuote cols }

theorem feed_of_ok (r : RdbRoller) {cols : List Trade} {day : Date}
    (h : chunkDate (cols.map Trade.time) = .ok day) :
    r.feed cols = .ok (r.afterFeed day cols,
      ⟨cols.length, (r.roll day).1.currentDay, (r.roll day).2⟩) := by
  unfold feed
  rw [h]
  rfl

theorem feed_of_error (r : RdbRoller) {cols : List Trade} {e : PyErr}
    (h : chunkDate (cols.map Trade.time) = .error e) : r.feed cols = .error e := by
  unfold feed
  rw [h]
  rfl

theorem feedQuote_of_ok (r : RdbRoller) {cols : List Quote} {day : Date}
    (h : chunkDate (cols.map Quote.time) = .ok day) :
    r.feedQuote cols = .ok (r.afterFeedQuote day cols,
      ⟨cols.length, (r.roll day).1.currentDay, (r.roll day).2⟩) := by
  unfold feedQuote
  rw [h]
  rfl

theorem feedQuote_of_error (r : RdbRoller) {cols : List Quote} {e : PyErr}
    (h : chunkDate (cols.map Quote.time) = .error e) : r.feedQuote cols = .error e := by
  unfold feedQuote
  rw [h]
  rfl

end RdbRoller

end NanoTick
