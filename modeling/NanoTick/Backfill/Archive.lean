import NanoTick.Store.Schema
import Mathlib.Tactic

set_option autoImplicit false

/-! # The archive backfill

`run_backfill` (`resources/backfill.py`) writes each missing day for every symbol and saves
the day down once. A fetch may find nothing, raise at once, or return an iterator of chunks,
which may raise after any number of them: the chunks are inserted as they stream.

The section `A day` says what the loop over the symbols does, and the section `A call` what
the loop over the dates does: the rows of every iterator go into the table in memory
(`dayRows`), and the day is saved down when some iterator finished (`dayWrote`).
-/

namespace NanoTick

open Python

/-! ## Date planning and the database -/

/-- `plan_dates`: the `days` complete days that end yesterday, ascending. -/
def planDates (today : Date) (days : Nat) : List Date :=
  (List.range days).reverse.map (fun n : Nat => today - ((n : Int) + 1))

/-- `existing_partition_dates`: the dates whose directory holds `trade`. -/
def existingPartitionDates (hdb : Hdb) : Finset Date := hdb.trade.keys

/-! ## `run_backfill` -/

/-- What `fetchers[sym](day)` gives. -/
inductive Fetch where
  | missing
  | raises
  | chunks (yielded : List (List Trade)) (fails : Bool)
  deriving DecidableEq, Repr

structure Summary where
  written : Nat
  rows : Nat
  skipped : Nat
  missing : Nat
  failed : Nat
  deriving DecidableEq, Repr

def Summary.zero : Summary := ⟨0, 0, 0, 0, 0⟩

/-- Where the loop over the symbols of a day stands. -/
structure DayProgress where
  writer : HdbWriter
  summary : Summary
  wrote : Bool

/-- One symbol of a day. Chunks are inserted as they are yielded, also by an iterator that
raises later; only one that finishes is counted. -/
def backfillSymbol (p : DayProgress) (fetch : Fetch) : DayProgress :=
  match fetch with
  | .missing => { p with summary := { p.summary with missing := p.summary.missing + 1 } }
  | .raises => { p with summary := { p.summary with failed := p.summary.failed + 1 } }
  | .chunks yielded fails =>
      -- the generator inserts as it goes, before it is known whether the iterator finishes
      let w := yielded.foldl HdbWriter.insert p.writer
      if fails then
        { p with writer := w, summary := { p.summary with failed := p.summary.failed + 1 } }
      else
        { writer := w, wrote := true
          summary := { p.summary with rows := p.summary.rows + (yielded.map List.length).sum } }

/-- One day: every symbol, then a savedown if some iterator finished. -/
def backfillDay (symbols : List Sym) (fetchers : Sym → Date → Fetch)
    (st : HdbWriter × Summary) (day : Date) : HdbWriter × Summary :=
  let p := symbols.foldl (fun p s => backfillSymbol p (fetchers s day)) ⟨st.1, st.2, false⟩
  -- one savedown for all symbols: a second one would replace the first
  if p.wrote then
    (p.writer.savedown day, { p.summary with written := p.summary.written + 1 })
  else (p.writer, p.summary)

/-- `run_backfill`. -/
def runBackfill (dates : List Date) (existing : Finset Date) (symbols : List Sym)
    (fetchers : Sym → Date → Fetch) (w : HdbWriter) : HdbWriter × Summary :=
  dates.foldl (fun st day =>
    -- a date on disk is skipped for all symbols at once
    if day ∈ existing then (st.1, { st.2 with skipped := st.2.skipped + 1 })
    else backfillDay symbols fetchers st day) (w, Summary.zero)

/-! ## A fetch -/

/-- Everything the fetch yields. -/
def Fetch.rows : Fetch → List Trade
  | .missing => []
  | .raises => []
  | .chunks yielded _ => yielded.flatten

/-- The fetch returned an iterator, and it finished. -/
def Fetch.finished : Fetch → Bool
  | .missing => false
  | .raises => false
  | .chunks _ fails => !fails

/-- The fetch, or its iterator, raised. -/
def Fetch.failed : Fetch → Bool
  | .missing => false
  | .raises => true
  | .chunks _ fails => fails

/-- The rows of a fetch that finished. -/
def Fetch.finishedRows (f : Fetch) : List Trade := if f.finished then f.rows else []

/-! ## A day -/

section

variable (symbols : List Sym) (fetchers : Sym → Date → Fetch) (day : Date)

/-- The rows the day's fetches yield. -/
def dayRows : List Trade := symbols.flatMap (fun s => (fetchers s day).rows)

/-- The rows of the day's fetches that finish. -/
def finishedRows : List Trade := symbols.flatMap (fun s => (fetchers s day).finishedRows)

/-- Some fetch of the day finishes. -/
def dayWrote : Bool := symbols.any (fun s => (fetchers s day).finished)

/-- The writer after a day. -/
def dayWriter (w : HdbWriter) : HdbWriter :=
  if dayWrote symbols fetchers day then
    (w.insert (dayRows symbols fetchers day)).savedown day
  else w.insert (dayRows symbols fetchers day)

end

theorem insert_insert (w : HdbWriter) (c c' : List Trade) :
    (w.insert c).insert c' = w.insert (c ++ c') := by
  unfold HdbWriter.insert
  rw [List.map_append, List.append_assoc]

theorem insert_nil (w : HdbWriter) : w.insert [] = w := by
  unfold HdbWriter.insert
  rw [List.map_nil, List.append_nil]

theorem foldl_insert (w : HdbWriter) (chunks : List (List Trade)) :
    chunks.foldl HdbWriter.insert w = w.insert chunks.flatten := by
  induction chunks generalizing w with
  | nil => exact (insert_nil w).symm
  | cons c t ih => rw [List.foldl_cons, ih, insert_insert, List.flatten_cons]

/-- **One symbol**: its rows are inserted, and counted if the iterator finished. -/
theorem backfillSymbol_spec (p : DayProgress) (f : Fetch) :
    (backfillSymbol p f).writer = p.writer.insert f.rows
      ∧ (backfillSymbol p f).wrote = (p.wrote || f.finished)
      ∧ (backfillSymbol p f).summary.rows = p.summary.rows + f.finishedRows.length := by
  cases f with
  | missing => exact ⟨(insert_nil _).symm, (Bool.or_false _).symm, rfl⟩
  | raises => exact ⟨(insert_nil _).symm, (Bool.or_false _).symm, rfl⟩
  | chunks yielded fails =>
      cases fails with
      | true => exact ⟨foldl_insert _ _, (Bool.or_false _).symm, rfl⟩
      | false =>
          refine ⟨foldl_insert _ _, (Bool.or_true _).symm, ?_⟩
          show p.summary.rows + (yielded.map List.length).sum
            = p.summary.rows + yielded.flatten.length
          rw [List.length_flatten]

theorem foldl_backfillSymbol (fetchers : Sym → Date → Fetch) (day : Date) (symbols : List Sym)
    (p : DayProgress) :
    (symbols.foldl (fun p s => backfillSymbol p (fetchers s day)) p).writer
        = p.writer.insert (dayRows symbols fetchers day)
      ∧ (symbols.foldl (fun p s => backfillSymbol p (fetchers s day)) p).wrote
        = (p.wrote || dayWrote symbols fetchers day)
      ∧ (symbols.foldl (fun p s => backfillSymbol p (fetchers s day)) p).summary.rows
        = p.summary.rows + (finishedRows symbols fetchers day).length := by
  induction symbols generalizing p with
  | nil => exact ⟨(insert_nil _).symm, (Bool.or_false _).symm, rfl⟩
  | cons s t ih =>
      obtain ⟨hw, hwrote, hrows⟩ := ih (backfillSymbol p (fetchers s day))
      obtain ⟨hw', hwrote', hrows'⟩ := backfillSymbol_spec p (fetchers s day)
      rw [List.foldl_cons]
      refine ⟨?_, ?_, ?_⟩
      · rw [hw, hw', insert_insert]
        rfl
      · rw [hwrote, hwrote', Bool.or_assoc]
        rfl
      · calc _ = (backfillSymbol p (fetchers s day)).summary.rows
              + (finishedRows t fetchers day).length := hrows
          _ = p.summary.rows + ((fetchers s day).finishedRows.length
              + (finishedRows t fetchers day).length) := by rw [hrows', add_assoc]
          _ = p.summary.rows + (finishedRows (s :: t) fetchers day).length := by
              rw [← List.length_append]
              rfl

/-- **One day.** -/
theorem backfillDay_spec (symbols : List Sym) (fetchers : Sym → Date → Fetch)
    (st : HdbWriter × Summary) (day : Date) :
    (backfillDay symbols fetchers st day).1 = dayWriter symbols fetchers day st.1
      ∧ (backfillDay symbols fetchers st day).2.rows
        = st.2.rows + (finishedRows symbols fetchers day).length := by
  obtain ⟨hw, hwrote, hrows⟩ := foldl_backfillSymbol fetchers day symbols ⟨st.1, st.2, false⟩
  rw [Bool.false_or] at hwrote
  unfold backfillDay dayWriter
  dsimp only
  rw [hwrote]
  cases dayWrote symbols fetchers day with
  | true =>
      rw [if_pos rfl, if_pos rfl, hw]
      exact ⟨rfl, hrows⟩
  | false =>
      rw [if_neg Bool.false_ne_true, if_neg Bool.false_ne_true, hw]
      exact ⟨rfl, hrows⟩

/-! ## A call -/

/-- The dates that are not skipped. -/
def processed (dates : List Date) (existing : Finset Date) : List Date :=
  dates.filter (fun d => decide (d ∉ existing))

theorem mem_processed {dates : List Date} {existing : Finset Date} {d : Date} :
    d ∈ processed dates existing ↔ d ∈ dates ∧ d ∉ existing := by
  rw [processed, List.mem_filter, decide_eq_true_eq]

private theorem foldl_backfill (existing : Finset Date) (symbols : List Sym)
    (fetchers : Sym → Date → Fetch) (dates : List Date) (st : HdbWriter × Summary) :
    (dates.foldl (fun st day =>
        if day ∈ existing then (st.1, { st.2 with skipped := st.2.skipped + 1 })
        else backfillDay symbols fetchers st day) st).1
      = (processed dates existing).foldl (fun w day => dayWriter symbols fetchers day w) st.1
    ∧ (dates.foldl (fun st day =>
        if day ∈ existing then (st.1, { st.2 with skipped := st.2.skipped + 1 })
        else backfillDay symbols fetchers st day) st).2.rows
      = st.2.rows
        + ((processed dates existing).map (fun d => (finishedRows symbols fetchers d).length)).sum
        := by
  induction dates generalizing st with
  | nil => exact ⟨rfl, rfl⟩
  | cons d t ih =>
      rw [List.foldl_cons]
      by_cases hd : d ∈ existing
      · obtain ⟨hw, hrows⟩ := ih (st.1, { st.2 with skipped := st.2.skipped + 1 })
        have hskip : processed (d :: t) existing = processed t existing :=
          List.filter_cons_of_neg (by simpa using hd)
        rw [if_pos hd, hskip]
        exact ⟨hw, hrows⟩
      · obtain ⟨hw, hrows⟩ := ih (backfillDay symbols fetchers st d)
        obtain ⟨hw', hrows'⟩ := backfillDay_spec symbols fetchers st d
        have hkeep : processed (d :: t) existing = d :: processed t existing :=
          List.filter_cons_of_pos (by simpa using hd)
        rw [if_neg hd, hkeep, List.foldl_cons, List.map_cons, List.sum_cons]
        refine ⟨?_, ?_⟩
        · rw [hw, hw']
        · rw [hrows, hrows', add_assoc]

/-- **One call**: the days that are not skipped, one after the other. -/
theorem runBackfill_spec (dates : List Date) (existing : Finset Date) (symbols : List Sym)
    (fetchers : Sym → Date → Fetch) (w : HdbWriter) :
    (runBackfill dates existing symbols fetchers w).1
      = (processed dates existing).foldl (fun w day => dayWriter symbols fetchers day w) w
    ∧ (runBackfill dates existing symbols fetchers w).2.rows
      = ((processed dates existing).map
          (fun d => (finishedRows symbols fetchers d).length)).sum := by
  obtain ⟨hw, hrows⟩ := foldl_backfill existing symbols fetchers dates (w, Summary.zero)
  exact ⟨hw, hrows.trans (Nat.zero_add _)⟩

/-! ## Leaks -/

/-- No fetch of the day yields rows and then raises. -/
def NoLeak (symbols : List Sym) (fetchers : Sym → Date → Fetch) (day : Date) : Prop :=
  ∀ s ∈ symbols, (fetchers s day).failed = true → (fetchers s day).rows = []

/-- What a fetch yields is what it finishes, unless it leaks. -/
theorem Fetch.finishedRows_eq_iff (f : Fetch) :
    f.finishedRows = f.rows ↔ (f.failed = true → f.rows = []) := by
  cases f with
  | missing => simp [finishedRows, rows, finished]
  | raises => simp [finishedRows, rows, finished]
  | chunks yielded fails =>
      cases fails with
      | true => simp [finishedRows, rows, finished, failed, eq_comm]
      | false => simp [finishedRows, rows, finished, failed]

theorem Fetch.finishedRows_length_le (f : Fetch) : f.finishedRows.length ≤ f.rows.length := by
  unfold finishedRows
  split
  · exact le_refl _
  · exact Nat.zero_le _

theorem Fetch.finishedRows_eq_of_length {f : Fetch}
    (h : f.finishedRows.length = f.rows.length) : f.finishedRows = f.rows := by
  unfold finishedRows at h ⊢
  split
  · rfl
  · rename_i hf
    rw [if_neg hf, List.length_nil] at h
    exact (List.length_eq_zero_iff.mp h.symm).symm

theorem finishedRows_eq_dayRows {symbols : List Sym} {fetchers : Sym → Date → Fetch} {day : Date}
    (h : NoLeak symbols fetchers day) :
    finishedRows symbols fetchers day = dayRows symbols fetchers day := by
  unfold finishedRows dayRows
  rw [List.flatMap_def, List.flatMap_def]
  exact congrArg List.flatten
    (List.map_congr_left (fun s hs => ((fetchers s day).finishedRows_eq_iff).mpr (h s hs)))

/-- The finished rows are at most the rows inserted, and as many only without a leak. -/
theorem length_finishedRows_le (symbols : List Sym) (fetchers : Sym → Date → Fetch) (day : Date) :
    (finishedRows symbols fetchers day).length ≤ (dayRows symbols fetchers day).length
      ∧ ((finishedRows symbols fetchers day).length = (dayRows symbols fetchers day).length →
          NoLeak symbols fetchers day) := by
  induction symbols with
  | nil => exact ⟨le_refl _, fun _ s hs => absurd hs List.not_mem_nil⟩
  | cons s t ih =>
      obtain ⟨hle, heq⟩ := ih
      have hs := (fetchers s day).finishedRows_length_le
      have hfin : (finishedRows (s :: t) fetchers day).length
          = (fetchers s day).finishedRows.length + (finishedRows t fetchers day).length :=
        List.length_append
      have hall : (dayRows (s :: t) fetchers day).length
          = (fetchers s day).rows.length + (dayRows t fetchers day).length :=
        List.length_append
      rw [hfin, hall]
      refine ⟨by omega, fun h s' hs' => ?_⟩
      rcases List.mem_cons.mp hs' with rfl | hs'
      · exact ((fetchers s' day).finishedRows_eq_iff).mp
          (Fetch.finishedRows_eq_of_length (by omega))
      · exact heq (by omega) s' hs'

/-- A day on which no fetch finishes has no finished rows. -/
theorem finishedRows_eq_nil {symbols : List Sym} {fetchers : Sym → Date → Fetch} {day : Date}
    (h : dayWrote symbols fetchers day = false) : finishedRows symbols fetchers day = [] := by
  unfold finishedRows
  rw [List.flatMap_eq_nil_iff]
  intro s hs
  have hs := List.any_eq_false.mp h s hs
  rw [Fetch.finishedRows, if_neg hs]

end NanoTick
