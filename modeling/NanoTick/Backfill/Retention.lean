import NanoTick.Backfill.Archive
import Mathlib.Tactic

set_option autoImplicit false

/-! # Retention on the directory

`prune` (`resources/backfill.py`) deletes date partitions older than the window. What counts as
a partition is decided by `_iter_partitions`, which the backfill uses to skip days: a directory
whose name is a date and which holds `trade`. `savedown` writes only the tables that have rows,
so a day without trades leaves a directory that this filter passes over.

The directory is a list of named entries. `strptime` is the parser of directory names; what is
said of `prune` holds for any.
-/

namespace NanoTick

open Grouping

/-! ## The directory -/

/-- A file or a directory with its entries. -/
inductive Node where
  | file (bytes : List UInt8)
  | dir (entries : List (String × Node))

/-- `entry.is_dir() and (entry / table).exists()`. -/
def Node.holds (table : String) : Node → Bool
  | .file _ => false
  | .dir entries => entries.any (fun e => decide (e.1 = table))

/-- Whether an entry is a directory. -/
def Node.isDir : Node → Bool
  | .file _ => false
  | .dir _ => true

theorem Node.isDir_of_holds {table : String} {n : Node} (h : n.holds table = true) :
    n.isDir = true := by
  cases n with
  | file bytes => cases h
  | dir entries => rfl

/-- The entries of the database directory, under distinct names. -/
structure HdbDir where
  entries : List (String × Node)
  distinct : (entries.map Prod.fst).Nodup

namespace HdbDir

variable (strptime : String → Option Date)

/-- `_iter_partitions`: the date directories that hold `trade`, with their dates. -/
def iterPartitions (hdb : HdbDir) : List (Date × String) :=
  hdb.entries.filterMap (fun e =>
    if e.2.holds "trade" then (strptime e.1).map (fun d => (d, e.1)) else none)

/-- `shutil.rmtree`. -/
def rmtree (hdb : HdbDir) (path : String) : HdbDir where
  entries := hdb.entries.filter (fun e => decide (e.1 ≠ path))
  distinct := hdb.distinct.sublist (List.filter_sublist.map Prod.fst)

/-- What `prune` leaves and returns. -/
structure PruneResult where
  hdb : HdbDir
  removed : List Date
  cutoff : Date

/-- `prune`: the partitions in order of date, those before the cutoff removed one by one. -/
def prune (hdb : HdbDir) (today : Date) (days : Int) : PruneResult :=
  let cutoff := today - days
  let old := (sortOn (fun p : Date × String => toLex p) (hdb.iterPartitions strptime)).filter
    (fun p => decide (p.1 < cutoff))
  { hdb := old.foldl (fun h p => h.rmtree p.2) hdb
    removed := old.map Prod.fst
    cutoff := cutoff }

/-! ## What `prune` does -/

variable {strptime : String → Option Date} {hdb : HdbDir} {today : Date} {days : Int}

theorem mem_iterPartitions {p : Date × String} : p ∈ hdb.iterPartitions strptime
    ↔ ∃ n, (p.2, n) ∈ hdb.entries ∧ n.holds "trade" = true ∧ strptime p.2 = some p.1 := by
  rw [iterPartitions, List.mem_filterMap]
  constructor
  · rintro ⟨⟨name, n⟩, he, hp⟩
    obtain ⟨hholds, hdate⟩ := Option.ite_none_right_eq_some.mp hp
    obtain ⟨d, hd, rfl⟩ := Option.map_eq_some_iff.mp hdate
    exact ⟨n, he, hholds, hd⟩
  · rintro ⟨n, he, hholds, hdate⟩
    refine ⟨(p.2, n), he, ?_⟩
    dsimp only
    rw [if_pos hholds, hdate]
    rfl

/-- The names `prune` removes. -/
theorem mem_old {d : Date} {name : String} :
    (d, name) ∈ (sortOn (fun p : Date × String => toLex p) (hdb.iterPartitions strptime)).filter
        (fun p => decide (p.1 < today - days))
      ↔ d < today - days ∧ ∃ n, (name, n) ∈ hdb.entries ∧ n.holds "trade" = true
        ∧ strptime name = some d := by
  rw [List.mem_filter, mem_sortOn, mem_iterPartitions, decide_eq_true_eq]
  exact and_comm

/-- Removing some names one by one leaves the entries under other names, in their order. -/
theorem foldl_rmtree (ps : List (Date × String)) (hdb : HdbDir) :
    (ps.foldl (fun h p => h.rmtree p.2) hdb).entries
      = hdb.entries.filter (fun e => decide (e.1 ∉ ps.map Prod.snd)) := by
  induction ps generalizing hdb with
  | nil => simp
  | cons p ps ih =>
      rw [List.foldl_cons, ih, rmtree, List.filter_filter]
      refine List.filter_congr (fun e _ => ?_)
      by_cases hp : e.1 = p.2
      · simp [hp]
      · simp [hp, List.mem_cons]

/-- An entry that is a partition of a date before the window. -/
def Expired (strptime : String → Option Date) (cutoff : Date) (e : String × Node) : Prop :=
  e.2.holds "trade" = true ∧ ∃ d, strptime e.1 = some d ∧ d < cutoff

theorem prune_entries : (hdb.prune strptime today days).hdb.entries
    = hdb.entries.filter (fun e => decide (e.1 ∉
      ((sortOn (fun p : Date × String => toLex p) (hdb.iterPartitions strptime)).filter
        (fun p => decide (p.1 < today - days))).map Prod.snd)) :=
  foldl_rmtree _ hdb

/-- **What `prune` does**: it removes the expired partitions and nothing else. -/
theorem mem_prune {e : String × Node} : e ∈ (hdb.prune strptime today days).hdb.entries
    ↔ e ∈ hdb.entries ∧ ¬ Expired strptime (today - days) e := by
  rw [prune_entries, List.mem_filter, decide_eq_true_eq]
  refine and_congr_right (fun he => not_congr ?_)
  rw [List.mem_map]
  constructor
  · rintro ⟨⟨d, name⟩, hold, hname⟩
    obtain ⟨hlt, n, hn, hholds, hdate⟩ := mem_old.mp hold
    -- names are distinct, so the removed partition is this entry
    have hsame : (name, n) = e := List.inj_on_of_nodup_map hdb.distinct hn he hname
    cases hsame
    exact ⟨hholds, d, hdate, hlt⟩
  · rintro ⟨hholds, d, hdate, hlt⟩
    exact ⟨(d, e.1), mem_old.mpr ⟨hlt, e.2, he, hholds, hdate⟩, rfl⟩

theorem mem_removed {d : Date} : d ∈ (hdb.prune strptime today days).removed
    ↔ d < today - days ∧ ∃ e ∈ hdb.entries, e.2.holds "trade" = true
      ∧ strptime e.1 = some d := by
  unfold prune
  rw [List.mem_map]
  constructor
  · rintro ⟨⟨d, name⟩, hold, rfl⟩
    obtain ⟨hlt, n, hn, hholds, hdate⟩ := mem_old.mp hold
    exact ⟨hlt, (name, n), hn, hholds, hdate⟩
  · rintro ⟨hlt, ⟨name, n⟩, hn, hholds, hdate⟩
    exact ⟨(d, name), mem_old.mpr ⟨hlt, n, hn, hholds, hdate⟩, rfl⟩

theorem prune_sublist :
    (hdb.prune strptime today days).hdb.entries.Sublist hdb.entries := by
  rw [prune_entries]
  exact List.filter_sublist

/-! ## Retention -/

/-- `plan_dates` starts at the cutoff. -/
theorem mem_planDates {d : Date} {n : Nat} (h : d ∈ planDates today n) : today - (n : Int) ≤ d := by
  obtain ⟨k, hk, rfl⟩ := List.mem_map.mp h
  have hk := List.mem_range.mp (List.mem_reverse.mp hk)
  have hle : (k : Int) + 1 ≤ n := by omega
  exact sub_le_sub_left hle today

/-- A date partition: a directory whose name is a date, whatever tables it holds. -/
def DatePartition (strptime : String → Option Date) (e : String × Node) (d : Date) : Prop :=
  e.2.isDir = true ∧ strptime e.1 = some d

/-- Retention over the whole directory. -/
structure Retained (strptime : String → Option Date) (hdb : HdbDir) (today : Date) (days : Int) :
    Prop where
  bounded : ∀ e ∈ (hdb.prune strptime today days).hdb.entries, ∀ d,
    DatePartition strptime e d → today - days ≤ d
  spares : ∀ e ∈ hdb.entries, (∀ d, DatePartition strptime e d → today - days ≤ d) →
    e ∈ (hdb.prune strptime today days).hdb.entries
  addsNothing : (hdb.prune strptime today days).hdb.entries.Sublist hdb.entries
  sparesPlanned : ∀ d ∈ planDates today days.toNat, d ∉ (hdb.prune strptime today days).removed
  idempotent : ((hdb.prune strptime today days).hdb.prune strptime today days).removed = []
    ∧ ((hdb.prune strptime today days).hdb.prune strptime today days).hdb.entries
      = (hdb.prune strptime today days).hdb.entries

/-- A second `prune` finds nothing expired. -/
theorem prune_prune : ((hdb.prune strptime today days).hdb.prune strptime today days).removed = []
    ∧ ((hdb.prune strptime today days).hdb.prune strptime today days).hdb.entries
      = (hdb.prune strptime today days).hdb.entries := by
  constructor
  · rw [List.eq_nil_iff_forall_not_mem]
    intro d hd
    obtain ⟨hlt, e, he, hholds, hdate⟩ := mem_removed.mp hd
    exact (mem_prune.mp he).2 ⟨hholds, d, hdate, hlt⟩
  · have hentries := @prune_entries strptime (hdb.prune strptime today days).hdb today days
    rw [hentries, List.filter_eq_self]
    intro e he
    have hkept := @mem_prune strptime (hdb.prune strptime today days).hdb today days e
    rw [hentries, List.mem_filter] at hkept
    exact (hkept.mpr ⟨he, (mem_prune.mp he).2⟩).2

/-- **Retention** holds exactly when every date directory before the window holds `trade`. -/
theorem retained_iff (strptime : String → Option Date) (hdb : HdbDir) (today : Date) (days : Int) :
    Retained strptime hdb today days
      ↔ ∀ e ∈ hdb.entries, ∀ d, DatePartition strptime e d → d < today - days →
        e.2.holds "trade" = true := by
  constructor
  · intro h e he d hd hlt
    by_contra hno
    have hkept : e ∈ (hdb.prune strptime today days).hdb.entries :=
      mem_prune.mpr ⟨he, fun hexp => hno hexp.1⟩
    exact absurd (h.bounded e hkept d hd) (not_le.mpr hlt)
  · intro h
    refine ⟨?_, ?_, prune_sublist, ?_, prune_prune⟩
    · intro e he d hd
      obtain ⟨hmem, hkept⟩ := mem_prune.mp he
      by_contra hlt
      have hlt : d < today - days := not_le.mp hlt
      exact hkept ⟨h e hmem d hd hlt, d, hd.2, hlt⟩
    · intro e he hin
      refine mem_prune.mpr ⟨he, ?_⟩
      rintro ⟨hholds, d, hdate, hlt⟩
      exact absurd (hin d ⟨Node.isDir_of_holds hholds, hdate⟩) (not_le.mpr hlt)
    · intro d hd hremoved
      obtain ⟨hlt, -⟩ := mem_removed.mp hremoved
      rcases le_or_gt 0 days with hdays | hdays
      · have hle := mem_planDates hd
        rw [Int.toNat_of_nonneg hdays] at hle
        exact absurd hle (not_le.mpr hlt)
      · rw [Int.toNat_of_nonpos hdays.le] at hd
        exact absurd hd List.not_mem_nil

/-! ## Names of date directories -/

/-- A number in decimal digits, in a range. -/
def number (low high : Nat) (cs : List Char) : Option Nat :=
  let n := cs.foldl (fun n c => 10 * n + (c.toNat - 48)) 0
  if cs ≠ [] ∧ cs.all Char.isDigit ∧ low ≤ n ∧ n ≤ high then some n else none

/-- The days of a month. -/
def daysInMonth (y m : Nat) : Nat :=
  if m = 2 then if (y % 4 = 0 ∧ y % 100 ≠ 0) ∨ y % 400 = 0 then 29 else 28
  else if m = 4 ∨ m = 6 ∨ m = 9 ∨ m = 11 then 30 else 31

/-- The days from 1970-01-01 to a date of the calendar. -/
def dateOf (y m d : Nat) : Date :=
  (((y - 1) * 365 + (y - 1) / 4 - (y - 1) / 100 + (y - 1) / 400
    + ((List.range' 1 (m - 1)).map (daysInMonth y)).sum + d : Nat) : Int) - 719163

/-- `datetime.strptime(name, "%Y.%m.%d").date()`, for names in ASCII digits: a year of four
digits, a month and a day of one or two, a day of one also after a blank. -/
def ymd (name : String) : Option Date :=
  match name.toList.splitOn '.' with
  | [y, m, d] => do
      let day := match d with
        | [' ', c] => [c]
        | _ => d
      let y ← if y.length = 4 then number 1 9999 y else none
      let m ← if m.length ≤ 2 then number 1 12 m else none
      let d ← if day.length ≤ 2 then number 1 (daysInMonth y m) day else none
      return dateOf y m d
  | _ => none

/-- A day that was saved with quotes only. -/
def quoteOnly : HdbDir where
  entries := [("2026.06.01", .dir [("quote", .dir []), ("quoteBar", .dir [])]),
    ("2026.07.15", .dir [("trade", .dir []), ("bar", .dir [])]), ("sym", .file [])]
  distinct := by decide

/-- On 2026-07-16, with a window of 30 days, it stays. -/
theorem quoteOnly_not_retained : ¬ ∀ (strptime : String → Option Date) (hdb : HdbDir)
    (today : Date) (days : Int), Retained strptime hdb today days := by
  intro h
  have hstays : ("2026.06.01", .dir [("quote", .dir []), ("quoteBar", .dir [])])
      ∈ (quoteOnly.prune ymd (dateOf 2026 7 16) 30).hdb.entries := by
    refine mem_prune.mpr ⟨by simp [quoteOnly], fun hexp => ?_⟩
    exact absurd hexp.1 (by decide)
  have hwindow := (h ymd quoteOnly (dateOf 2026 7 16) 30).bounded _ hstays (dateOf 2026 6 1)
    ⟨rfl, by decide +kernel⟩
  revert hwindow
  decide +kernel

end HdbDir

end NanoTick
