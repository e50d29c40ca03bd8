import NanoTick.Analytics.FastPath
import Mathlib.Tactic

set_option autoImplicit false

/-! # Rebucketing stored quote bars

A quote bar is the last book of its bucket, so merging bars takes the last of the last
(`rebucketBook_flatten`). With bucket nesting, the stored bars of a symbol merged to a whole
multiple of their width are the bars of its quotes, and merging in two stages is merging once
(`rebucketQuoteBars_exact`).
-/

namespace NanoTick

open Aggregates Buckets Grouping

/-- A bar of `rebucketQuoteBars` read as a stored bar: its `bar` column is the time. The symbol
is not a column of it, and `rebucketQuoteBars` does not read one. -/
def storedAgain (s : Sym) (b : Int × QuoteFeatures) : QuoteBarRow :=
  { b.2.toBook with time := b.1, sym := s }

/-- The base groups of rows in time order, as books, merged: the book of the rows. -/
theorem rebucketBook_baseGroups {w : Int} (hw : 0 < w) {qb : List QuoteBarRow}
    (hqb : TimeOrdered QuoteBarRow.time qb) :
    rebucketBook ((baseGroups QuoteBarRow.time w qb).map (fun g => rebucketBook (g.map (·.toBook))))
      = rebucketBook (qb.map (·.toBook)) := by
  rw [rebucketBook_flatten _ (fun g hg => baseGroups_ne_nil hg), flatten_baseGroups hw hqb]

/-- **Two stages are one**, for bars in time order. -/
theorem rebucketQuoteBars_storedAgain {qb : List QuoteBarRow}
    (hqb : TimeOrdered QuoteBarRow.time qb) (s : Sym) {w : Int} (hw : 0 < w) (m : Int) :
    rebucketQuoteBars ((rebucketQuoteBars qb w).map (storedAgain s)) (m * w)
      = rebucketQuoteBars qb (m * w) := by
  have hrows : (rebucketQuoteBars qb w).map (storedAgain s)
      = (selectBy (fun r : QuoteBarRow => xbar w r.time)
          (fun g => rebucketBook (g.map (·.toBook))) qb).map
        (fun b => ({ b.2 with time := b.1, sym := s } : QuoteBarRow)) := by
    rw [rebucketQuoteBars, List.map_map]
    rfl
  have hkey : ∀ r : QuoteBarRow, xbar (m * w) (xbar w r.time) = xbar (m * w) r.time :=
    fun r => xbar_mul_xbar hw m r.time
  have hbase := selectBy_base QuoteBarRow.time w (m * w)
    (fun g : List QuoteBarRow => rebucketBook (g.map (·.toBook)))
    (fun b => ({ b.2 with time := b.1, sym := s } : QuoteBarRow)) QuoteBarRow.time (fun _ => rfl)
    QuoteBarRow.toBook (fun _ => rfl) rebucketBook qb
  simp only [hkey] at hbase
  rw [hrows, rebucketQuoteBars, hbase, rebucketQuoteBars]
  refine congrArg (List.map _) (selectBy_eq_iff.mpr ⟨rfl, fun k _ => ?_⟩)
  exact rebucketBook_baseGroups hw (hqb.filter _)

/-- The stored bars of a symbol are in time order. -/
theorem timeOrdered_buildQuoteBars (q : List Quote) (w : Int) (s : Sym) :
    TimeOrdered QuoteBarRow.time
      ((buildQuoteBars q w).filter (fun b => decide (b.sym = s))) := by
  rw [filter_buildQuoteBars, selectBy_eq_map_keysOf, List.map_map]
  exact List.pairwise_map.mpr ((keysOf_pairwise _ _).imp le_of_lt)

/-- With sizes that are positive together, no column of a quote bar is null. -/
theorem quoteBarsOf_isSome {q : List Quote} (hsize : ∀ r ∈ q, 0 < r.bidSize + r.askSize)
    {sz : Int} {b : Int × QuoteFeatures} (hb : b ∈ quoteBarsOf q sz) :
    b.2.micro.isSome = true ∧ b.2.qimb.isSome = true := by
  obtain ⟨c, hc, rfl⟩ := List.mem_map.mp hb
  rw [selectBy_eq_map_keysOf] at hc
  obtain ⟨k, hk, rfl⟩ := List.mem_map.mp hc
  have hne : groupAt (fun r : Quote => xbar sz r.time) q k ≠ [] :=
    fun hnil => groupAt_eq_nil.mp hnil hk
  have hbook : lastBook (groupAt (fun r : Quote => xbar sz r.time) q k)
      = Quote.book ((groupAt (fun r : Quote => xbar sz r.time) q k).getLast hne) := by
    rw [lastBook_eq, List.getLast?_eq_getLast_of_ne_nil hne]
    rfl
  have hmem := (mem_groupAt.mp (List.getLast_mem hne)).1
  have hpos : ((Quote.book ((groupAt (fun r : Quote => xbar sz r.time) q k).getLast hne)).bidSize
      + (Quote.book ((groupAt (fun r : Quote => xbar sz r.time) q k).getLast hne)).askSize) ≠ 0 :=
    (hsize _ hmem).ne'
  dsimp only
  rw [hbook]
  unfold quoteFeatures div
  dsimp only
  rw [if_neg hpos, if_neg hpos]
  exact ⟨rfl, rfl⟩

/-- **Stored quote bars re-bucket exactly.** For quotes in time order within each symbol whose
sizes are positive together: the stored one-minute bars of a symbol merged to `k` minutes are the
`k`-minute bars of its quotes, none of whose columns is null; and merged to `k` and then to
`k * m` minutes they are as merged to `k * m` minutes at once. -/
theorem rebucketQuoteBars_exact (q : List Quote)
    (horder : TimeOrderedBySym Quote.time Quote.sym q)
    (hsize : ∀ r ∈ q, 0 < r.bidSize + r.askSize) (s : Sym) (k m : Int) (hk : 1 ≤ k) :
    rebucketQuoteBars ((buildQuoteBars q barSize).filter (fun b => decide (b.sym = s)))
          (k * barSize)
        = quoteBarsOf (q.filter (fun r => decide (r.sym = s))) (k * barSize)
      ∧ (∀ b ∈ quoteBarsOf (q.filter (fun r => decide (r.sym = s))) (k * barSize),
          b.2.micro.isSome = true ∧ b.2.qimb.isSome = true)
      ∧ rebucketQuoteBars ((rebucketQuoteBars
            ((buildQuoteBars q barSize).filter (fun b => decide (b.sym = s)))
            (k * barSize)).map (storedAgain s)) (k * m * barSize)
        = rebucketQuoteBars ((buildQuoteBars q barSize).filter (fun b => decide (b.sym = s)))
          (k * m * barSize) := by
  refine ⟨?_, fun b hb => ?_, ?_⟩
  · refine (rebucketQuoteBars_eq_quoteBarsOf_iff (horder s)).mpr (lastBooksAgree_of_nest ?_)
    exact fun r _ => xbar_mul_xbar barSize_pos k r.time
  · exact quoteBarsOf_isSome (fun r hr => hsize r (List.mem_filter.mp hr).1) hb
  · have hwidth : k * m * barSize = m * (k * barSize) := by ring
    have hpos : 0 < k * barSize := mul_pos (by omega) barSize_pos
    rw [hwidth]
    exact rebucketQuoteBars_storedAgain (timeOrdered_buildQuoteBars q barSize s) s hpos m

/-- Two quotes in different minutes, merged to bars of two minutes and then of six. -/
theorem rebucketQuoteBars_six_minutes :
    let q : List Quote := [⟨0, "BTCUSDT", "binance", 1, 99, 2, 101, 1⟩,
      ⟨60000000000, "BTCUSDT", "binance", 2, 100, 3, 102, 1⟩]
    rebucketQuoteBars ((buildQuoteBars q barSize).filter (fun b => decide (b.sym = "BTCUSDT")))
          (2 * barSize) = [(0, ⟨⟨100, 102, 3, 1⟩, 101, 2, some (203 / 2), some (1 / 2)⟩)]
      ∧ rebucketQuoteBars ((rebucketQuoteBars
            ((buildQuoteBars q barSize).filter (fun b => decide (b.sym = "BTCUSDT")))
            (2 * barSize)).map (storedAgain "BTCUSDT")) (2 * 3 * barSize)
        = rebucketQuoteBars ((buildQuoteBars q barSize).filter
            (fun b => decide (b.sym = "BTCUSDT"))) (2 * 3 * barSize) := by
  intro q
  obtain ⟨hbars, -, hagain⟩ := rebucketQuoteBars_exact q
    (TimeOrdered.bySym (by unfold TimeOrdered; decide))
    (by intro r hr; revert r; decide +kernel) "BTCUSDT" 2 3 (by decide)
  exact ⟨hbars.trans (by decide +kernel), hagain⟩

end NanoTick
