import NanoTick.Backfill.Failures
import NanoTick.Analytics.FastPath
import Mathlib.Tactic

set_option autoImplicit false

/-! # Running the backfill again

Two calls on one database, the second against an archive that offers more. A date whose
partition is there is skipped wholesale, so the second call completes the dates the first one
left absent and no others: `rerun_spec` compares the two calls with a single one against the
second archive, date by date. `partial_day_stays` is a day the first call wrote in part.
-/

namespace NanoTick

/-! ## A database, date by date -/

/-- What the four tables hold under one date. -/
structure DayTables where
  trade : Option (List Trade)
  quote : Option (List Quote)
  bar : Option (List BarRow)
  quoteBar : Option (List QuoteBarRow)
  deriving DecidableEq

/-- The tables of a date. -/
def Hdb.at (hdb : Hdb) (d : Date) : DayTables :=
  ⟨hdb.trade.lookup d, hdb.quote.lookup d, hdb.bar.lookup d, hdb.quoteBar.lookup d⟩

theorem Hdb.ext_at {a b : Hdb} (h : ∀ d, a.at d = b.at d) : a = b := by
  cases a
  cases b
  rw [Hdb.mk.injEq]
  exact ⟨Finmap.ext_lookup (fun d => congrArg DayTables.trade (h d)),
    Finmap.ext_lookup (fun d => congrArg DayTables.quote (h d)),
    Finmap.ext_lookup (fun d => congrArg DayTables.bar (h d)),
    Finmap.ext_lookup (fun d => congrArg DayTables.quoteBar (h d))⟩

theorem mem_existing {hdb : Hdb} {d : Date} :
    d ∈ existingPartitionDates hdb ↔ (hdb.at d).trade ≠ none := by
  rw [existingPartitionDates, Finmap.mem_keys, Hdb.at, ne_eq, Finmap.lookup_eq_none, not_not]

/-- The tables of a date after trades are saved under it: quotes stay. -/
def DayTables.written (t : DayTables) (rows : List Trade) : DayTables :=
  { t with
    trade := some (storedRows Trade.time Trade.sym (rows.map Trade.ofRaw))
    bar := some (Grouping.sortOn BarRow.sym (buildBars (rows.map Trade.ofRaw) barSize)) }

theorem DayTables.written_written (t : DayTables) (rows : List Trade) :
    (t.written rows).written rows = t.written rows := rfl

/-- Trades alone in memory, saved under a date. -/
def saveTrades (day : Date) (rows : List Trade) (hdb : Hdb) : Hdb :=
  (((HdbWriter.fresh hdb).insert rows).savedown day).hdb

theorem saveTrades_nil (day : Date) (hdb : Hdb) : saveTrades day [] hdb = hdb := rfl

theorem saveTrades_at (day : Date) (rows : List Trade) (hdb : Hdb) (d : Date) :
    (saveTrades day rows hdb).at d
      = if d = day ∧ rows ≠ [] then (hdb.at d).written rows else hdb.at d := by
  by_cases hrows : rows = []
  · rw [hrows, saveTrades_nil, if_neg (fun h => h.2 rfl)]
  · have htrade : ((HdbWriter.fresh hdb).insert rows).trade ≠ [] := by
      simpa [HdbWriter.fresh] using hrows
    have hbars : buildBars ((HdbWriter.fresh hdb).insert rows).trade barSize ≠ [] := by
      rwa [ne_eq, buildBars_eq_nil]
    have hsaved : saveTrades day rows hdb
        = { hdb with
            trade := hdb.trade.save day
              (storedRows Trade.time Trade.sym (rows.map Trade.ofRaw))
            bar := hdb.bar.save day
              (Grouping.sortOn BarRow.sym (buildBars (rows.map Trade.ofRaw) barSize)) } := by
      unfold saveTrades HdbWriter.savedown
      dsimp only
      rw [saveTable, if_neg htrade, saveBars, if_neg hbars]
      rfl
    rw [hsaved]
    by_cases hd : d = day
    · rw [if_pos ⟨hd, hrows⟩, hd, Hdb.at, DayTables.written, Hdb.at, Parts.save, Parts.save,
        Finmap.lookup_insert, Finmap.lookup_insert]
    · rw [if_neg (fun h => hd h.1), Hdb.at, Hdb.at, Parts.save, Parts.save,
        Finmap.lookup_insert_of_ne _ hd, Finmap.lookup_insert_of_ne _ hd]

/-! ## A call without leaks, date by date -/

section

variable {symbols : List Sym} {fetchers : Sym → Date → Fetch}

theorem eq_fresh {w : HdbWriter} (htrade : w.trade = []) (hquote : w.quote = []) :
    w = HdbWriter.fresh w.hdb := by
  cases w
  cases htrade
  cases hquote
  rfl

theorem dayWriter_fresh {day : Date} (hleak : NoLeak symbols fetchers day) (hdb : Hdb) :
    dayWriter symbols fetchers day (HdbWriter.fresh hdb)
      = HdbWriter.fresh (saveTrades day (finishedRows symbols fetchers day) hdb) := by
  have hrows := finishedRows_eq_dayRows hleak
  unfold dayWriter
  cases hwrote : dayWrote symbols fetchers day with
  | true =>
      rw [if_pos rfl, ← hrows]
      exact eq_fresh (savedown_trade _ _) (savedown_quote _ _)
  | false =>
      rw [if_neg Bool.false_ne_true, ← hrows, finishedRows_eq_nil hwrote, insert_nil]
      rfl

/-- **One call, date by date**: a processed date with finished rows is written, every other
date stays. -/
theorem runBackfill_at (dates : List Date) (existing : Finset Date) (hdb : Hdb)
    (hleak : ∀ d ∈ processed dates existing, NoLeak symbols fetchers d) :
    ∃ hdb', (runBackfill dates existing symbols fetchers (HdbWriter.fresh hdb)).1
        = HdbWriter.fresh hdb'
      ∧ ∀ d, hdb'.at d
        = if d ∈ processed dates existing ∧ finishedRows symbols fetchers d ≠ [] then
            (hdb.at d).written (finishedRows symbols fetchers d)
          else hdb.at d := by
  rw [(runBackfill_spec dates existing symbols fetchers (HdbWriter.fresh hdb)).1]
  generalize processed dates existing = ds at hleak
  induction ds generalizing hdb with
  | nil => exact ⟨hdb, rfl, fun d => (if_neg (fun h => List.not_mem_nil h.1)).symm⟩
  | cons day t ih =>
      rw [List.foldl_cons, dayWriter_fresh (hleak day List.mem_cons_self)]
      obtain ⟨hdb', hw, hat⟩ := ih
        (saveTrades day (finishedRows symbols fetchers day) hdb)
        (fun d hd => hleak d (List.mem_cons_of_mem _ hd))
      refine ⟨hdb', hw, fun d => ?_⟩
      rw [hat, saveTrades_at]
      by_cases hd : d = day
      · subst hd
        by_cases hfin : finishedRows symbols fetchers d = []
        · simp only [hfin, ne_eq, not_true_eq_false, and_false, if_false]
        · simp only [hfin, ne_eq, not_false_eq_true, and_true, if_true, List.mem_cons, true_or]
          split
          · rw [DayTables.written_written]
          · rfl
      · simp only [hd, false_and, if_false, List.mem_cons, false_or]

end

/-! ## Two calls -/

section

variable (dates : List Date) (symbols : List Sym) (first second : Sym → Date → Fetch) (hdb : Hdb)

/-- The writer after one call, with the existing dates read from the database. -/
def callOnce (fetchers : Sym → Date → Fetch) (w : HdbWriter) : HdbWriter :=
  (runBackfill dates (existingPartitionDates w.hdb) symbols fetchers w).1

/-- The database after the first call, after both, and after a single call against the second
archive. -/
def afterFirst : Hdb := (callOnce dates symbols first (HdbWriter.fresh hdb)).hdb
def afterBoth : Hdb :=
  (callOnce dates symbols second (callOnce dates symbols first (HdbWriter.fresh hdb))).hdb
def afterSingle : Hdb := (callOnce dates symbols second (HdbWriter.fresh hdb)).hdb

end

/-- **Re-running the backfill.** When nothing fails at the second call and no fetch of the
first one leaks rows: a date without a partition after the first call holds in the end what a
single call against the second archive stores; a date with one keeps what it held; and the
databases are equal when every day the first call wrote was complete, that is, when it
finished all that the second archive offers for the day. -/
theorem rerun_spec (dates : List Date) (symbols : List Sym) (first second : Sym → Date → Fetch)
    (hdb : Hdb)
    (hleak : ∀ d ∈ processed dates (existingPartitionDates hdb), NoLeak symbols first d)
    (hfails : ∀ s d, (second s d).failed = false)
    (hoffers : ∀ s d, (first s d).finished = true → second s d = first s d) :
    (∀ d, d ∉ existingPartitionDates (afterFirst dates symbols first hdb) →
        (afterBoth dates symbols first second hdb).at d
          = (afterSingle dates symbols second hdb).at d)
      ∧ (∀ d ∈ existingPartitionDates (afterFirst dates symbols first hdb),
          (afterBoth dates symbols first second hdb).at d
            = (afterFirst dates symbols first hdb).at d)
      ∧ ((∀ d ∈ processed dates (existingPartitionDates hdb), dayWrote symbols first d = true →
            ∀ s ∈ symbols, (second s d).finished = true → (first s d).finished = true) →
          afterBoth dates symbols first second hdb = afterSingle dates symbols second hdb) := by
  have hsecond : ∀ d, NoLeak symbols second d := by
    intro d s _ hfailed
    rw [hfails] at hfailed
    cases hfailed
  obtain ⟨h₁, hw₁, hat₁⟩ := runBackfill_at _ _ _ hleak
  have hfirst : afterFirst dates symbols first hdb = h₁ := congrArg HdbWriter.hdb hw₁
  obtain ⟨h₂, hw₂, hat₂⟩ := runBackfill_at dates (existingPartitionDates h₁) h₁
    (fun d _ => hsecond d)
  have hboth : afterBoth dates symbols first second hdb = h₂ := by
    unfold afterBoth callOnce
    rw [show (runBackfill dates (existingPartitionDates (HdbWriter.fresh hdb).hdb) symbols first
      (HdbWriter.fresh hdb)).1 = HdbWriter.fresh h₁ from hw₁]
    exact congrArg HdbWriter.hdb hw₂
  obtain ⟨h₃, hw₃, hat₃⟩ := runBackfill_at dates (existingPartitionDates hdb) hdb
    (fun d _ => hsecond d)
  have hsingle : afterSingle dates symbols second hdb = h₃ := congrArg HdbWriter.hdb hw₃
  rw [hfirst, hboth, hsingle]
  -- a date is there after the first call when it was before, or had finished rows
  have hmem : ∀ d, d ∈ existingPartitionDates h₁ ↔ d ∈ existingPartitionDates hdb ∨
      (d ∈ processed dates (existingPartitionDates hdb) ∧ finishedRows symbols first d ≠ []) := by
    intro d
    rw [mem_existing, mem_existing, hat₁]
    split
    · rename_i hnew
      simp [DayTables.written, hnew]
    · rename_i hold
      simp only [hold, or_false]
  have hkept : ∀ d ∈ existingPartitionDates h₁, h₂.at d = h₁.at d := by
    intro d hd
    rw [hat₂, if_neg (fun h => (mem_processed.mp h.1).2 hd)]
  have habsent : ∀ d, d ∉ existingPartitionDates h₁ → h₂.at d = h₃.at d := by
    intro d hd
    have hnot := (hmem d).not.mp hd
    push Not at hnot
    have hsame : h₁.at d = hdb.at d := by
      rw [hat₁, if_neg (fun h => h.2 (hnot.2 h.1))]
    rw [hat₂, hat₃, hsame]
    simp only [mem_processed, hd, hnot.1, not_false_eq_true, and_true]
  refine ⟨habsent, hkept, fun hcomplete => ?_⟩
  refine Hdb.ext_at (fun d => ?_)
  by_cases hd : d ∈ existingPartitionDates h₁
  · rw [hkept d hd]
    rcases (hmem d).mp hd with hold | ⟨hproc, hfin⟩
    · rw [hat₁, hat₃, if_neg (fun h => (mem_processed.mp h.1).2 hold),
        if_neg (fun h => (mem_processed.mp h.1).2 hold)]
    · have hwrote : dayWrote symbols first d = true := by
        by_contra hnot
        exact hfin (finishedRows_eq_nil (Bool.not_eq_true _ ▸ hnot))
      have hrows : finishedRows symbols second d = finishedRows symbols first d := by
        unfold finishedRows
        rw [List.flatMap_def, List.flatMap_def]
        refine congrArg List.flatten (List.map_congr_left (fun s hs => ?_))
        cases hf : (first s d).finished with
        | true => rw [hoffers s d hf]
        | false =>
            have hnone : (second s d).finished = false := by
              by_contra hs2
              rw [hcomplete d hproc hwrote s hs (by simpa using hs2)] at hf
              cases hf
            rw [Fetch.finishedRows, Fetch.finishedRows, hf, hnone]
            rfl
      rw [hat₁, hat₃, hrows]
  · exact habsent d hd

/-- The archive publishes a day's first symbol before the second. -/
def publishedFirst (s : Sym) (_ : Date) : Fetch :=
  if s = "BTCUSDT" then .chunks [[tradeOf s]] false else .missing

def publishedAll (s : Sym) (_ : Date) : Fetch := .chunks [[tradeOf s]] false

theorem publishedFirst_finished (s : Sym) (d : Date)
    (h : (publishedFirst s d).finished = true) : publishedAll s d = publishedFirst s d := by
  unfold publishedFirst at h ⊢
  split at h
  · rename_i hs
    rw [if_pos hs]
    rfl
  · cases h

/-- A day that no symbol had at the first call is filled by the second. -/
theorem absent_day_filled :
    afterBoth [0] ["ETHUSDT"] publishedFirst publishedAll Hdb.empty
      = afterSingle [0] ["ETHUSDT"] publishedAll Hdb.empty := by
  refine (rerun_spec [0] ["ETHUSDT"] publishedFirst publishedAll Hdb.empty ?_ (fun _ _ => rfl)
    publishedFirst_finished).2.2 ?_
  · intro d _ s hs _
    rw [List.mem_singleton.mp hs]
    rfl
  · intro d _ hwrote
    exact absurd hwrote (by rw [dayWrote]; simp [publishedFirst, Fetch.finished])

/-- A day that one symbol had at the first call is skipped by the second: the other symbol's
trades are never stored. -/
theorem partial_day_stays : ¬ ∀ (dates : List Date) (symbols : List Sym)
    (first second : Sym → Date → Fetch) (hdb : Hdb), (∀ s d, (second s d).failed = false) →
    (∀ s d, (first s d).finished = true → second s d = first s d) →
    afterBoth dates symbols first second hdb = afterSingle dates symbols second hdb := by
  intro h
  have heq := h [0] ["BTCUSDT", "ETHUSDT"] publishedFirst publishedAll Hdb.empty
    (fun _ _ => rfl) publishedFirst_finished
  have hrows := congrArg (fun hdb : Hdb => (hdb.trade.rowsAt 0).length) heq
  revert hrows
  decide +kernel

end NanoTick
