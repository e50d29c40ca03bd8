import NanoTick.Analytics.DayBar
import NanoTick.Basic.AsOf
import Mathlib.Tactic

set_option autoImplicit false

/-! # Trades with the quotes in force

`enrichTrades` is kdb's `aj`: each trade gets the columns of the last quote of its symbol that is
not later. On a day as `savedown` stores it that is the quote in force when the trade was made,
whatever the order the rows were inserted in (`enrichTrades_saved`), and nothing later matters
(`enrichTrades_until`). A quote bar is the book in force at its end (`mem_quoteBars_iff`), so the
trades after which no quote of the bar came have its book (`enrichTrades_at_close`).
-/

namespace NanoTick

open Aggregates AsOf Buckets Grouping

/-- A trade with the quote columns; they are null where no quote matches. -/
structure EnrichedTrade extends Trade where
  updateID : Option Int
  bid : Option ℚ
  bidSize : Option ℚ
  ask : Option ℚ
  askSize : Option ℚ
  deriving DecidableEq, Repr

/-- The venue is a column of both tables, where the quote's replaces the trade's. -/
def Trade.enrich (r : Trade) : Option Quote → EnrichedTrade
  | some x => { r with
      venue := x.venue
      updateID := some x.updateID
      bid := some x.bid
      bidSize := some x.bidSize
      ask := some x.ask
      askSize := some x.askSize }
  | none => { r with updateID := none, bid := none, bidSize := none, ask := none, askSize := none }

@[simp] theorem enrich_time (r : Trade) (o : Option Quote) : (r.enrich o).time = r.time := by
  cases o <;> rfl

/-- `enrichTrades`: `aj` on the symbol and the time. -/
def enrichTrades (t : List Trade) (q : List Quote) : List EnrichedTrade :=
  t.map (fun r => r.enrich (asOf Quote.sym Quote.time q r.sym r.time))

/-- The quote of the symbol in force at a time, if there is one yet. -/
def Prevailing (q : List Quote) (s : Sym) (time : Int) : Option Quote → Prop
  | some x => InForce Quote.sym Quote.time q s time x
  | none => ∀ x ∈ q, x.sym = s → time < x.time

section

variable {hdb : Hdb} {d : Date} {t : List Trade} {q : List Quote} {s : Sym}

/-- Trades and quotes of a symbol on a saved day. -/
theorem enrichTrades_rowsOf (hday : hdb.WrittenFrom d t q) :
    enrichTrades (rowsOf Trade.sym hdb.trade s d) (rowsOf Quote.sym hdb.quote s d)
      = (sortOn Trade.time (t.filter (fun r => decide (r.sym = s)))).map
        (fun r => r.enrich (asOf Quote.sym Quote.time (sortOn Quote.time q) s r.time)) := by
  rw [rowsOf, rowsOf, hday.trade, hday.quote, filter_storedRows_eq_sortOn,
    filter_storedRows_eq_sortOn, ← filter_sortOn Quote.time]
  refine List.map_congr_left (fun r hr => ?_)
  have hsym : r.sym = s := of_decide_eq_true (List.mem_filter.mp (mem_sortOn.mp hr)).2
  rw [hsym, asOf_filter_key]

/-- The quote found is the one in force. -/
theorem prevailing_asOf (q : List Quote) (s : Sym) (time : Int) :
    Prevailing q s time (asOf Quote.sym Quote.time (sortOn Quote.time q) s time) := by
  cases hbook : asOf Quote.sym Quote.time (sortOn Quote.time q) s time with
  | none => exact fun x hx hsym => asOf_eq_none.mp hbook x (mem_sortOn.mpr hx) hsym
  | some x => exact asOf_sortOn hbook

/-- Two days with the same trades and quotes of a symbol up to a time have the same enriched trades
up to then. -/
theorem enrichTrades_until {hdb' : Hdb} {d' : Date} {t' : List Trade} {q' : List Quote}
    (hday : hdb.WrittenFrom d t q) (hday' : hdb'.WrittenFrom d' t' q') (s : Sym) (u : Int)
    (ht : t.filter (fun r => decide (r.sym = s ∧ r.time ≤ u))
      = t'.filter (fun r => decide (r.sym = s ∧ r.time ≤ u)))
    (hq : q.filter (fun r => decide (r.sym = s ∧ r.time ≤ u))
      = q'.filter (fun r => decide (r.sym = s ∧ r.time ≤ u))) :
    (enrichTrades (rowsOf Trade.sym hdb.trade s d) (rowsOf Quote.sym hdb.quote s d)).filter
        (fun e => decide (e.time ≤ u))
      = (enrichTrades (rowsOf Trade.sym hdb'.trade s d') (rowsOf Quote.sym hdb'.quote s d')).filter
        (fun e => decide (e.time ≤ u)) := by
  have hrows : ∀ l : List Trade,
      (sortOn Trade.time (l.filter (fun r => decide (r.sym = s)))).filter
          (fun r => decide (r.time ≤ u))
        = sortOn Trade.time (l.filter (fun r => decide (r.sym = s ∧ r.time ≤ u))) := by
    intro l
    rw [filter_sortOn, List.filter_filter]
    congr 1
    refine List.filter_congr (fun r _ => ?_)
    rw [← Bool.decide_and]
    exact decide_eq_decide.mpr and_comm
  have henriched : ∀ (l : List Trade) (book : Int → Option Quote),
      (l.map (fun r => r.enrich (book r.time))).filter (fun e => decide (e.time ≤ u))
        = (l.filter (fun r => decide (r.time ≤ u))).map (fun r => r.enrich (book r.time)) := by
    intro l book
    rw [List.filter_map]
    congr 1
    exact List.filter_congr (fun r _ => by rw [Function.comp_apply, enrich_time])
  rw [enrichTrades_rowsOf hday, enrichTrades_rowsOf hday', henriched, henriched, hrows, hrows, ht]
  refine List.map_congr_left (fun r hr => ?_)
  obtain ⟨-, hle⟩ := of_decide_eq_true (List.mem_filter.mp (mem_sortOn.mp hr)).2
  have hbook : asOf Quote.sym Quote.time (sortOn Quote.time q) s r.time
      = asOf Quote.sym Quote.time (sortOn Quote.time q') s r.time := by
    refine asOf_congr hle ?_
    rw [filter_sortOn, filter_sortOn, hq]
  rw [hbook]

/-- **The as-of join of a saved day.** Each trade of the symbol is there once, in time order, with
the quote in force at its time; the order of insertion decides between rows of one time only. What
was enriched up to a time is the same on any day with the same rows up to then. -/
theorem enrichTrades_saved (hday : hdb.WrittenFrom d t q) (s : Sym) :
    (∃ book : Int → Option Quote, (∀ time, Prevailing q s time (book time))
      ∧ enrichTrades (rowsOf Trade.sym hdb.trade s d) (rowsOf Quote.sym hdb.quote s d)
        = (sortOn Trade.time (t.filter (fun r => decide (r.sym = s)))).map
          (fun r => r.enrich (book r.time)))
    ∧ ∀ (hdb' : Hdb) (d' : Date) (t' : List Trade) (q' : List Quote) (u : Int),
      hdb'.WrittenFrom d' t' q' →
      t.filter (fun r => decide (r.sym = s ∧ r.time ≤ u))
        = t'.filter (fun r => decide (r.sym = s ∧ r.time ≤ u)) →
      q.filter (fun r => decide (r.sym = s ∧ r.time ≤ u))
        = q'.filter (fun r => decide (r.sym = s ∧ r.time ≤ u)) →
      (enrichTrades (rowsOf Trade.sym hdb.trade s d) (rowsOf Quote.sym hdb.quote s d)).filter
          (fun e => decide (e.time ≤ u))
        = (enrichTrades (rowsOf Trade.sym hdb'.trade s d')
            (rowsOf Quote.sym hdb'.quote s d')).filter (fun e => decide (e.time ≤ u)) :=
  ⟨⟨asOf Quote.sym Quote.time (sortOn Quote.time q) s, prevailing_asOf q s,
    enrichTrades_rowsOf hday⟩, fun _ _ _ _ u hday' ht hq => enrichTrades_until hday hday' s u ht hq⟩

/-! ## The book at the end of a bar -/

/-- A quote in force at the end of a bucket it lies in is the last of the bucket. -/
theorem asOf_close {qs : List Quote} (hq : TimeOrdered Quote.time qs) {sz : Int} (hsz : 0 < sz)
    {k : Int} {x : Quote}
    (hx : (groupAt (fun r : Quote => xbar sz r.time)
      (qs.filter (fun r => decide (r.sym = s))) k).getLast? = some x) :
    asOf Quote.sym Quote.time qs s (k + sz - 1) = some x := by
  have hmem := mem_groupAt.mp (List.mem_of_getLast? hx)
  have hbucket : ∀ y : Quote, xbar sz y.time = k ↔ k ≤ y.time ∧ y.time < k + sz := by
    intro y
    rw [← hmem.2, mem_bucket_iff hsz y.time x.time]
    exact eq_comm
  rw [groupAt, List.filter_filter] at hx
  refine asOf_eq_of_last hq (fun y hy => ?_) (fun y _ hsym hle hxy => ?_) hx
  · rw [Bool.and_eq_true, decide_eq_true_eq, decide_eq_true_eq] at hy
    have hlt := ((hbucket y).mp hy.1).2
    exact ⟨hy.2, by omega⟩
  · have hkx := ((hbucket x).mp hmem.2).1
    rw [Bool.and_eq_true, decide_eq_true_eq, decide_eq_true_eq]
    exact ⟨(hbucket y).mpr ⟨by omega, by omega⟩, hsym⟩

/-- **Quote bars are the books in force at their ends**, stored or scanned, for the bars in which
a quote came. -/
theorem mem_quoteBars_iff (hday : hdb.WrittenFrom d t q) (hq : TimeOrdered Quote.time q) (s : Sym)
    (n : Nat) (hn : 0 < n) (b : Int × QuoteFeatures) :
    b ∈ quoteBars hdb s d (n * barSize)
      ↔ ∃ x, asOf Quote.sym Quote.time q s (b.1 + n * barSize - 1) = some x
        ∧ xbar (n * barSize) x.time = b.1 ∧ b.2 = quoteFeatures x.book := by
  have hsz : 0 < (n : Int) * barSize := Int.mul_pos (by omega) barSize_pos
  have hbars : quoteBars hdb s d (n * barSize)
      = quoteBarsOf (q.filter (fun r => decide (r.sym = s))) (n * barSize) := by
    rw [quoteBars_eq hday hq]
    refine (rebucketQuoteBars_eq_quoteBarsOf_iff (hq.bySym s)).mpr (lastBooksAgree_of_nest ?_)
    exact fun r _ => xbar_mul_xbar barSize_pos n r.time
  rw [hbars, quoteBarsOf, selectBy_eq_map_keysOf, List.map_map, List.mem_map]
  constructor
  · rintro ⟨k, hk, rfl⟩
    have hne : groupAt (fun r : Quote => xbar (n * barSize) r.time)
        (q.filter (fun r => decide (r.sym = s))) k ≠ [] := by
      rw [Ne, groupAt_eq_nil, not_not]
      exact hk
    have hlast := List.getLast?_eq_getLast_of_ne_nil hne
    refine ⟨_, asOf_close hq hsz hlast, (mem_groupAt.mp (List.getLast_mem hne)).2, ?_⟩
    show quoteFeatures (lastBook _) = _
    rw [lastBook_eq, hlast]
    rfl
  · rintro ⟨x, hx, hkey, hfeatures⟩
    obtain ⟨hmem, hx'⟩ := List.mem_filter.mp (List.mem_of_getLast? hx)
    have hsym := (of_decide_eq_true hx').1
    have hin : x ∈ q.filter (fun r => decide (r.sym = s)) :=
      List.mem_filter.mpr ⟨hmem, decide_eq_true hsym⟩
    have hne : groupAt (fun r : Quote => xbar (n * barSize) r.time)
        (q.filter (fun r => decide (r.sym = s))) b.1 ≠ [] :=
      List.ne_nil_of_mem (mem_groupAt.mpr ⟨hin, hkey⟩)
    have hlast := List.getLast?_eq_getLast_of_ne_nil hne
    have hsame := (asOf_close hq hsz hlast).symm.trans hx
    refine ⟨b.1, mem_keysOf.mpr ⟨x, hin, hkey⟩, Prod.ext rfl ?_⟩
    show quoteFeatures (lastBook _) = _
    rw [lastBook_eq, hlast, hsame, hfeatures]
    rfl

/-- **Trades at the end of a bar.** A trade after which no quote of its symbol came within the bar
has the columns that the features of the bar were computed from. -/
theorem enrichTrades_at_close (hday : hdb.WrittenFrom d t q) (hq : TimeOrdered Quote.time q)
    (s : Sym) (n : Nat) (hn : 0 < n) (b : Int × QuoteFeatures)
    (hb : b ∈ quoteBars hdb s d (n * barSize)) (e : EnrichedTrade)
    (he : e ∈ enrichTrades (rowsOf Trade.sym hdb.trade s d) (rowsOf Quote.sym hdb.quote s d))
    (hbar : xbar (n * barSize) e.time = b.1)
    (hquiet : ∀ x ∈ q, x.sym = s → e.time < x.time → b.1 + n * barSize ≤ x.time) :
    e.bid = some b.2.bid ∧ e.bidSize = some b.2.bidSize ∧ e.ask = some b.2.ask
      ∧ e.askSize = some b.2.askSize := by
  have hsz : 0 < (n : Int) * barSize := Int.mul_pos (by omega) barSize_pos
  obtain ⟨x, hx, -, hfeatures⟩ := (mem_quoteBars_iff hday hq s n hn b).mp hb
  rw [enrichTrades_rowsOf hday, sortOn_of_pairwise hq] at he
  obtain ⟨r, -, rfl⟩ := List.mem_map.mp he
  rw [enrich_time] at hbar hquiet
  have hlt : r.time < b.1 + n * barSize := by
    rw [← hbar]
    exact ((mem_bucket_iff hsz r.time r.time).mpr rfl).2
  -- no quote between the trade and the end of the bar, so the same one is in force at both
  have hbook : asOf Quote.sym Quote.time q s r.time = some x := by
    rw [← hx, asOf, asOf]
    congr 1
    refine List.filter_congr (fun y hy => decide_eq_decide.mpr ?_)
    constructor
    · rintro ⟨hsym, hle⟩
      exact ⟨hsym, by omega⟩
    · rintro ⟨hsym, hle⟩
      refine ⟨hsym, not_lt.mp (fun hafter => ?_)⟩
      have hout := hquiet y hy hsym hafter
      omega
  rw [hbook, hfeatures]
  exact ⟨rfl, rfl, rfl, rfl⟩

end

/-! ## A day of two quotes -/

/-- Two trades with a quote before each. -/
def quotedDay : HdbWriter :=
  ⟨[⟨30000000000, "BTCUSDT", "binance", 1, 100, 1, 30000000000, false⟩,
      ⟨50000000000, "BTCUSDT", "binance", 2, 101, 1, 50000000000, true⟩],
    [⟨20000000000, "BTCUSDT", "binance", 1, 99, 1, 101, 1⟩,
      ⟨40000000000, "BTCUSDT", "binance", 2, 100, 1, 102, 1⟩], Hdb.empty⟩

/-- The same day without its later rows. -/
def quotedMorning : HdbWriter :=
  ⟨quotedDay.trade.take 1, quotedDay.quote.take 1, Hdb.empty⟩

theorem quotedDay_written : (quotedDay.savedown 10957).hdb.WrittenFrom 10957 quotedDay.trade
    quotedDay.quote := writtenFrom_savedown quotedDay 10957 rfl rfl rfl rfl

theorem enrichTrades_saved_quotedDay :
    (enrichTrades (rowsOf Trade.sym (quotedDay.savedown 10957).hdb.trade "BTCUSDT" 10957)
        (rowsOf Quote.sym (quotedDay.savedown 10957).hdb.quote "BTCUSDT" 10957)).filter
          (fun e => decide (e.time ≤ 30000000000))
      = (enrichTrades (rowsOf Trade.sym (quotedMorning.savedown 10957).hdb.trade "BTCUSDT" 10957)
        (rowsOf Quote.sym (quotedMorning.savedown 10957).hdb.quote "BTCUSDT" 10957)).filter
          (fun e => decide (e.time ≤ 30000000000)) :=
  (enrichTrades_saved quotedDay_written "BTCUSDT").2 _ 10957 quotedMorning.trade
    quotedMorning.quote 30000000000 (writtenFrom_savedown quotedMorning 10957 rfl rfl rfl rfl)
    (by decide +kernel) (by decide +kernel)

/-- The second trade has the second quote, the book of the bar of that minute. -/
theorem enrichTrades_at_close_quotedDay :
    ∃ e ∈ enrichTrades (rowsOf Trade.sym (quotedDay.savedown 10957).hdb.trade "BTCUSDT" 10957)
        (rowsOf Quote.sym (quotedDay.savedown 10957).hdb.quote "BTCUSDT" 10957),
      e.time = 50000000000 ∧ e.bid = some 100 ∧ e.bidSize = some 1 ∧ e.ask = some 102
        ∧ e.askSize = some 1 := by
  have hordered : TimeOrdered Quote.time quotedDay.quote := by
    unfold TimeOrdered
    decide
  have hb : ((0 : Int), quoteFeatures ⟨100, 102, 1, 1⟩)
      ∈ quoteBars (quotedDay.savedown 10957).hdb "BTCUSDT" 10957 ((1 : Nat) * barSize) := by
    decide +kernel
  have hquiet : ∀ x ∈ quotedDay.quote, x.time ≤ 50000000000 := by decide
  have hlast : ∃ e ∈ enrichTrades
      (rowsOf Trade.sym (quotedDay.savedown 10957).hdb.trade "BTCUSDT" 10957)
      (rowsOf Quote.sym (quotedDay.savedown 10957).hdb.quote "BTCUSDT" 10957),
      e.time = 50000000000 := by
    decide +kernel
  obtain ⟨e, he, htime⟩ := hlast
  refine ⟨e, he, htime, enrichTrades_at_close quotedDay_written hordered "BTCUSDT" 1 one_pos _ hb e
    he ?_ ?_⟩
  · rw [htime]
    decide
  · intro x hx _ hafter
    rw [htime] at hafter
    exact absurd (hquiet x hx) (not_le.mpr hafter)

end NanoTick
