import NanoTick.Backfill.Archive
import Mathlib.Tactic

set_option autoImplicit false

/-! # Failed fetches and what they leave behind

`Clean` is what a call of `runBackfill` should leave: an empty table in memory, in the
partition of every day processed the rows of the fetches that finished, and their number in
the summary. An iterator that raises after its first chunks leaks them: `runBackfill_clean_iff`
says that this, and a day with rows listed twice, is all that can go wrong.
-/

namespace NanoTick

section

variable (dates : List Date) (existing : Finset Date) (symbols : List Sym)
  (fetchers : Sym → Date → Fetch) (hdb : Hdb)

/-- The result of a call that starts with nothing in memory. -/
def backfilled : HdbWriter × Summary :=
  runBackfill dates existing symbols fetchers (HdbWriter.fresh hdb)

/-- Only the rows of finished fetches are stored, each in the partition of its own day, and
`rows` is their number. -/
structure Clean : Prop where
  rdb : (backfilled dates existing symbols fetchers hdb).1.trade = []
  partitions : ∀ d, ((backfilled dates existing symbols fetchers hdb).1.hdb.trade.rowsAt d).Perm
    (if d ∈ processed dates existing then (finishedRows symbols fetchers d).map Trade.ofRaw
      else hdb.trade.rowsAt d)
  rows : (backfilled dates existing symbols fetchers hdb).2.rows
    = ((processed dates existing).dedup.map
        (fun d => (finishedRows symbols fetchers d).length)).sum

/-- No day with finished rows is processed twice. -/
def NoRepeat : Prop :=
  ∀ d ∈ processed dates existing, finishedRows symbols fetchers d ≠ [] →
    (processed dates existing).count d ≤ 1

end

/-! ## One day -/

section

variable {symbols : List Sym} {fetchers : Sym → Date → Fetch} {day : Date} {w : HdbWriter}

/-- A day on which some fetch finishes is saved down with all that is in memory. -/
theorem dayWriter_of_wrote (h : dayWrote symbols fetchers day = true) :
    (dayWriter symbols fetchers day w).trade = []
      ∧ ∀ d, (dayWriter symbols fetchers day w).hdb.trade.rowsAt d
        = if d = day ∧ w.trade ++ (dayRows symbols fetchers day).map Trade.ofRaw ≠ [] then
            storedRows Trade.time Trade.sym
              (w.trade ++ (dayRows symbols fetchers day).map Trade.ofRaw)
          else w.hdb.trade.rowsAt d := by
  rw [dayWriter, if_pos h]
  refine ⟨savedown_trade _ _, fun d => ?_⟩
  rw [savedown_hdb_trade, rowsAt_saveTable]
  rfl

theorem dayWriter_of_not_wrote (h : dayWrote symbols fetchers day = false) :
    dayWriter symbols fetchers day w = w.insert (dayRows symbols fetchers day) := by
  rw [dayWriter, if_neg (by rw [h]; exact Bool.false_ne_true)]

/-- Without a leak a day stores its finished rows and leaves nothing in memory. -/
theorem dayWriter_noLeak (hleak : NoLeak symbols fetchers day) (hw : w.trade = []) :
    (dayWriter symbols fetchers day w).trade = []
      ∧ ∀ d, (dayWriter symbols fetchers day w).hdb.trade.rowsAt d
        = if d = day ∧ finishedRows symbols fetchers day ≠ [] then
            storedRows Trade.time Trade.sym ((finishedRows symbols fetchers day).map Trade.ofRaw)
          else w.hdb.trade.rowsAt d := by
  have hrows := finishedRows_eq_dayRows hleak
  cases hwrote : dayWrote symbols fetchers day with
  | true =>
      obtain ⟨hmem, hparts⟩ := dayWriter_of_wrote (w := w) hwrote
      refine ⟨hmem, fun d => ?_⟩
      rw [hparts, hw, List.nil_append, hrows]
      simp only [ne_eq, List.map_eq_nil_iff]
  | false =>
      have hnil := finishedRows_eq_nil hwrote
      rw [dayWriter_of_not_wrote hwrote, ← hrows, hnil, insert_nil]
      refine ⟨hw, fun d => ?_⟩
      rw [if_neg (fun h => h.2 rfl)]

end

/-! ## All days -/

section

variable {symbols : List Sym} {fetchers : Sym → Date → Fetch}

/-- **Without leaks** every day stores its finished rows. -/
theorem days_noLeak {ds : List Date} (hleak : ∀ d ∈ ds, NoLeak symbols fetchers d)
    {w : HdbWriter} (hw : w.trade = []) :
    (ds.foldl (fun w day => dayWriter symbols fetchers day w) w).trade = []
      ∧ ∀ d, (ds.foldl (fun w day => dayWriter symbols fetchers day w) w).hdb.trade.rowsAt d
        = if d ∈ ds ∧ finishedRows symbols fetchers d ≠ [] then
            storedRows Trade.time Trade.sym ((finishedRows symbols fetchers d).map Trade.ofRaw)
          else w.hdb.trade.rowsAt d := by
  induction ds generalizing w with
  | nil =>
      refine ⟨hw, fun d => ?_⟩
      rw [if_neg (fun h => List.not_mem_nil h.1)]
      rfl
  | cons day t ih =>
      obtain ⟨hmem, hday⟩ := dayWriter_noLeak (hleak day List.mem_cons_self) hw
      obtain ⟨hmem', hdays⟩ := ih (fun d hd => hleak d (List.mem_cons_of_mem _ hd)) hmem
      refine ⟨hmem', fun d => ?_⟩
      rw [List.foldl_cons, hdays, hday]
      by_cases hfin : finishedRows symbols fetchers d = []
      -- no finished rows on `d`: no pass over it saves anything
      · have hnot : ¬(d = day ∧ finishedRows symbols fetchers day ≠ []) := by
          rintro ⟨rfl, hne⟩
          exact hne hfin
        rw [if_neg (fun h => h.2 hfin), if_neg hnot, if_neg (fun h => h.2 hfin)]
      · by_cases ht : d ∈ t
        · rw [if_pos ⟨ht, hfin⟩, if_pos ⟨List.mem_cons_of_mem _ ht, hfin⟩]
        · rw [if_neg (fun h => ht h.1)]
          by_cases hd : d = day
          · subst hd
            rw [if_pos ⟨rfl, hfin⟩, if_pos ⟨List.mem_cons_self, hfin⟩]
          · rw [if_neg (fun h => hd h.1)]
            refine (if_neg (fun h => ?_)).symm
            rcases List.mem_cons.mp h.1 with h | h
            · exact hd h
            · exact ht h

/-- **A clean result has no leaks.** If in the end nothing is in memory and every day holds as
many rows as its fetches finished, and no day with finished rows comes twice, then there was
nothing in memory at the start and no fetch leaked. -/
theorem noLeak_of_clean {ds : List Date} {w : HdbWriter}
    (hrdb : (ds.foldl (fun w day => dayWriter symbols fetchers day w) w).trade = [])
    (hparts : ∀ d ∈ ds,
      ((ds.foldl (fun w day => dayWriter symbols fetchers day w) w).hdb.trade.rowsAt d).length
        = (finishedRows symbols fetchers d).length)
    (hrepeat : ∀ d ∈ ds, finishedRows symbols fetchers d ≠ [] → ds.count d ≤ 1) :
    w.trade = [] ∧ ∀ d ∈ ds, NoLeak symbols fetchers d := by
  induction ds generalizing w with
  | nil => exact ⟨hrdb, fun d hd => absurd hd List.not_mem_nil⟩
  | cons day t ih =>
      rw [List.foldl_cons] at hrdb
      have hrepeat' : ∀ d ∈ t, finishedRows symbols fetchers d ≠ [] → t.count d ≤ 1 := by
        intro d hd hfin
        have := hrepeat d (List.mem_cons_of_mem _ hd) hfin
        exact le_trans (List.count_le_count_cons) this
      obtain ⟨hmem, hleak⟩ := ih hrdb
        (fun d hd => by rw [← hparts d (List.mem_cons_of_mem _ hd), List.foldl_cons]) hrepeat'
      -- it is left to see that the first day found nothing in memory and did not leak
      suffices hfirst : w.trade = [] ∧ (finishedRows symbols fetchers day).length
          = (dayRows symbols fetchers day).length by
        refine ⟨hfirst.1, fun d hd => ?_⟩
        rcases List.mem_cons.mp hd with rfl | hd
        · exact (length_finishedRows_le symbols fetchers d).2 hfirst.2
        · exact hleak d hd
      have hle := (length_finishedRows_le symbols fetchers day).1
      cases hwrote : dayWrote symbols fetchers day with
      | false =>
          rw [dayWriter_of_not_wrote hwrote, insert_trade, List.append_eq_nil_iff,
            List.map_eq_nil_iff] at hmem
          obtain ⟨hw, hrows⟩ := hmem
          rw [hrows, List.length_nil] at hle ⊢
          exact ⟨hw, Nat.le_zero.mp hle⟩
      | true =>
          obtain ⟨hmem', hday⟩ := dayWriter_of_wrote (w := w) hwrote
          obtain ⟨-, hdays⟩ := days_noLeak hleak hmem'
          have hcount := hparts day List.mem_cons_self
          rw [List.foldl_cons, hdays day] at hcount
          -- a later pass over the same day has no finished rows and leaves the day alone
          have hlater : ¬(day ∈ t ∧ finishedRows symbols fetchers day ≠ []) := by
            rintro ⟨ht, hfin⟩
            have hone := hrepeat day List.mem_cons_self hfin
            rw [List.count_cons_self] at hone
            have hpos := List.count_pos_iff.mpr ht
            omega
          rw [if_neg hlater, hday] at hcount
          by_cases hne : w.trade ++ (dayRows symbols fetchers day).map Trade.ofRaw = []
          · obtain ⟨hw, hrows⟩ := List.append_eq_nil_iff.mp hne
            rw [List.map_eq_nil_iff.mp hrows, List.length_nil] at hle ⊢
            exact ⟨hw, Nat.le_zero.mp hle⟩
          · rw [if_pos ⟨rfl, hne⟩, (perm_storedRows _ _ _).length_eq, List.length_append,
              List.length_map] at hcount
            have hw : w.trade.length = 0 := by omega
            exact ⟨List.length_eq_zero_iff.mp hw, by omega⟩

end

/-! ## The number of rows -/

/-- Adding up over the entries or over the distinct entries of a list: the same exactly when
no entry that counts comes twice. -/
theorem sum_map_eq_sum_map_dedup_iff {α : Type} [DecidableEq α] (l : List α) (f : α → Nat) :
    (l.map f).sum = (l.dedup.map f).sum ↔ ∀ a ∈ l, f a ≠ 0 → l.count a ≤ 1 := by
  have hall : (l.map f).sum = ∑ a ∈ l.toFinset, l.count a * f a := by
    rw [Finset.sum_list_map_count]
    simp only [smul_eq_mul]
  have hdedup : (l.dedup.map f).sum = ∑ a ∈ l.toFinset, f a := by
    have hset : l.toFinset = l.dedup.toFinset := by
      ext a
      rw [List.mem_toFinset, List.mem_toFinset, List.mem_dedup]
    rw [hset, List.sum_toFinset f (List.nodup_dedup l)]
  have hle : ∀ a ∈ l.toFinset, f a ≤ l.count a * f a := fun a ha =>
    Nat.le_mul_of_pos_left _ (List.count_pos_iff.mpr (List.mem_toFinset.mp ha))
  rw [hall, hdedup, eq_comm, Finset.sum_eq_sum_iff_of_le hle]
  simp only [List.mem_toFinset]
  refine forall₂_congr (fun a ha => ?_)
  have hpos := List.count_pos_iff.mpr ha
  constructor
  · intro h hne
    have hone : 1 * f a = l.count a * f a := by rw [one_mul]; exact h
    exact (Nat.eq_of_mul_eq_mul_right (Nat.pos_of_ne_zero hne) hone).ge
  · intro h
    by_cases hzero : f a = 0
    · rw [hzero, Nat.mul_zero]
    · have hone : l.count a = 1 := le_antisymm (h hzero) hpos
      rw [hone, one_mul]

/-- **Failed fetches.** Where no partition of a processed day is there before, a call of
`run_backfill` with nothing in memory leaves exactly the rows of the fetches that finished,
in the partitions of their own days and counted once, if and only if no fetch raises after
yielding rows and no day with finished rows is listed twice. -/
theorem runBackfill_clean_iff (dates : List Date) (existing : Finset Date) (symbols : List Sym)
    (fetchers : Sym → Date → Fetch) (hdb : Hdb)
    (hnew : ∀ d ∈ dates, d ∉ existing → hdb.trade.rowsAt d = []) :
    Clean dates existing symbols fetchers hdb
      ↔ (∀ d ∈ processed dates existing, NoLeak symbols fetchers d)
        ∧ NoRepeat dates existing symbols fetchers := by
  obtain ⟨hwriter, hsummary⟩ :=
    runBackfill_spec dates existing symbols fetchers (HdbWriter.fresh hdb)
  have hrows : (backfilled dates existing symbols fetchers hdb).2.rows
        = ((processed dates existing).dedup.map
            (fun d => (finishedRows symbols fetchers d).length)).sum
      ↔ NoRepeat dates existing symbols fetchers := by
    rw [backfilled, hsummary, sum_map_eq_sum_map_dedup_iff]
    simp only [ne_eq, List.length_eq_zero_iff]
    rfl
  constructor
  · intro h
    have hrepeat := hrows.mp h.rows
    refine ⟨?_, hrepeat⟩
    have hrdb := h.rdb
    rw [backfilled, hwriter] at hrdb
    refine (noLeak_of_clean hrdb (fun d hd => ?_) hrepeat).2
    have hperm := (h.partitions d).length_eq
    rwa [backfilled, hwriter, if_pos hd, List.length_map] at hperm
  · rintro ⟨hleak, hrepeat⟩
    obtain ⟨hrdb, hparts⟩ := days_noLeak hleak (w := HdbWriter.fresh hdb) rfl
    refine ⟨by rw [backfilled, hwriter]; exact hrdb, fun d => ?_, hrows.mpr hrepeat⟩
    rw [backfilled, hwriter, hparts]
    by_cases hd : d ∈ processed dates existing
    · rw [if_pos hd]
      by_cases hfin : finishedRows symbols fetchers d = []
      · rw [if_neg (fun h => h.2 hfin), hfin]
        obtain ⟨hdates, hex⟩ := mem_processed.mp hd
        rw [HdbWriter.fresh, hnew d hdates hex]
        exact List.Perm.nil
      · rw [if_pos ⟨hd, hfin⟩]
        exact perm_storedRows _ _ _
    · rw [if_neg (fun h => hd h.1), if_neg hd]
      rfl

/-- A trade of a symbol, one second into 1970. -/
def tradeOf (s : Sym) : Trade := ⟨1000, s, "binance", 1, 100, 1, 1000, false⟩

/-- One symbol's iterator raises after its first chunk, the others finish with one. -/
def badRow (s : Sym) (_ : Date) : Fetch := .chunks [[tradeOf s]] (decide (s = "BTCUSDT"))

/-- One symbol's fetch raises at once, another's finds nothing on day 1, the third one's finishes
with two chunks. -/
def mixedDay (s : Sym) (d : Date) : Fetch :=
  if s = "BTCUSDT" then .raises
  else if s = "SOLUSDT" ∧ d = 1 then .missing
  else .chunks [[{ tradeOf s with time := 86400000 * d }], [tradeOf s, tradeOf s]] false

/-- Two days and three symbols. Every day is saved with the rows of the fetches that finished. -/
theorem clean_good_day : Clean [0, 1] ∅ ["BTCUSDT", "ETHUSDT", "SOLUSDT"] mixedDay Hdb.empty
    ∧ (backfilled [0, 1] ∅ ["BTCUSDT", "ETHUSDT", "SOLUSDT"] mixedDay Hdb.empty).2
      = ⟨2, 9, 0, 1, 2⟩ := by
  refine ⟨(runBackfill_clean_iff [0, 1] ∅ _ mixedDay Hdb.empty ?_).mpr ⟨?_, ?_⟩, ?_⟩
  · intro d _ _
    exact Parts.rowsAt_empty d
  · intro d _ s _ hfailed
    by_cases hs : s = "BTCUSDT"
    · rw [mixedDay, if_pos hs]
      rfl
    · rw [mixedDay, if_neg hs] at hfailed
      split at hfailed
      · cases hfailed
      · cases hfailed
  · intro d hd _
    have hd : d = 0 ∨ d = 1 := by simpa using (mem_processed.mp hd).1
    rcases hd with rfl | rfl
    · decide
    · decide
  · decide +kernel

/-- The chunk of the fetch that raised is in the partition the other symbol's fetch made the
day save. -/
theorem leak_into_partition : ¬ ∀ (dates : List Date) (existing : Finset Date)
    (symbols : List Sym) (fetchers : Sym → Date → Fetch) (hdb : Hdb),
    (∀ d ∈ dates, d ∉ existing → hdb.trade.rowsAt d = []) →
    Clean dates existing symbols fetchers hdb := by
  intro h
  have hclean := h [0] ∅ ["BTCUSDT", "ETHUSDT"] badRow Hdb.empty
    (fun d _ _ => Parts.rowsAt_empty d)
  have hlength := (hclean.partitions 0).length_eq
  revert hlength
  decide +kernel

end NanoTick
