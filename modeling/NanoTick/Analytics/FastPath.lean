import NanoTick.Analytics.Rebucket
import Mathlib.Tactic

set_option autoImplicit false

/-! # Stored bars and scanned rows, at any width

`bars` and `quoteBars` take the stored one-minute bars whenever there are any, whatever the
width asked for. The stored bars put a row into the bucket its minute starts in, the scan
into the bucket of its own time. `fastPath_iff` says for which tables the two agree, in exact
arithmetic: rounded sums may differ where these agree.
-/

namespace NanoTick

open Aggregates Buckets Grouping

/-! ## A day of the database -/

/-- The partitions of day `d` are those `savedown` writes from the tables `t` and `q`. -/
structure Hdb.WrittenFrom (hdb : Hdb) (d : Date) (t : List Trade) (q : List Quote) : Prop where
  trade : hdb.trade.rowsAt d = storedRows Trade.time Trade.sym t
  quote : hdb.quote.rowsAt d = storedRows Quote.time Quote.sym q
  bar : hdb.bar.rowsAt d = sortOn BarRow.sym (buildBars t barSize)
  quoteBar : hdb.quoteBar.rowsAt d = sortOn QuoteBarRow.sym (buildQuoteBars q barSize)

/-- The database without the materialised tables. -/
def Hdb.withoutBars (hdb : Hdb) : Hdb := { hdb with bar := ∅, quoteBar := ∅ }

/-- A savedown writes the day it saves from the tables in memory. -/
theorem writtenFrom_savedown (w : HdbWriter) (d : Date) (htrade : w.hdb.trade.rowsAt d = [])
    (hquote : w.hdb.quote.rowsAt d = []) (hbar : w.hdb.bar.rowsAt d = [])
    (hquoteBar : w.hdb.quoteBar.rowsAt d = []) :
    (w.savedown d).hdb.WrittenFrom d w.trade w.quote where
  trade := by
    rw [savedown_hdb_trade, rowsAt_saveTable]
    by_cases ht : w.trade = []
    · rw [if_neg (fun h => h.2 ht), ht, htrade]
      rfl
    · rw [if_pos ⟨rfl, ht⟩]
  quote := by
    rw [savedown_hdb_quote, rowsAt_saveTable]
    by_cases hq : w.quote = []
    · rw [if_neg (fun h => h.2 hq), hq, hquote]
      rfl
    · rw [if_pos ⟨rfl, hq⟩]
  bar := by
    rw [savedown_hdb_bar, rowsAt_saveBars]
    by_cases hb : buildBars w.trade barSize = []
    · rw [if_neg (fun h => h.2 hb), hb, hbar]
      rfl
    · rw [if_pos ⟨rfl, hb⟩]
  quoteBar := by
    rw [savedown_hdb_quoteBar, rowsAt_saveBars]
    by_cases hb : buildQuoteBars w.quote barSize = []
    · rw [if_neg (fun h => h.2 hb), hb, hquoteBar]
      rfl
    · rw [if_pos ⟨rfl, hb⟩]

/-! ## What each path computes -/

/-- The stored rows of one symbol are those of the table, when it is in time order. -/
theorem filter_storedRows {ρ : Type} {time : ρ → Int} {sym : ρ → Sym} {t : List ρ}
    (ht : TimeOrdered time t) (s : Sym) :
    (storedRows time sym t).filter (fun r => decide (sym r = s))
      = t.filter (fun r => decide (sym r = s)) := by
  rw [storedRows, filter_eq_sortOn, sortOn_of_pairwise ht]

section

variable {hdb : Hdb} {d : Date} {t : List Trade} {q : List Quote}

theorem rowsOf_of_not_hasTable {ρ : Type} {sym : ρ → Sym} {p : Parts Date ρ}
    (h : hasTable p = false) (s : Sym) (d : Date) : rowsOf sym p s d = [] := by
  have hkeys : p.keys = ∅ := Finset.not_nonempty_iff_eq_empty.mp (of_decide_eq_false h)
  have hd : d ∉ p := by
    rw [← Finmap.mem_keys, hkeys]
    exact Finset.notMem_empty d
  rw [rowsOf, Parts.rowsAt_of_notMem hd]
  rfl

theorem bars_withoutBars (h : hdb.WrittenFrom d t q) (ht : TimeOrdered Trade.time t) (s : Sym)
    (sz : Int) : bars hdb.withoutBars s d sz
      = barsOf (t.filter (fun r => decide (r.sym = s))) sz := by
  show barsFromTrades hdb.withoutBars s d sz = _
  unfold barsFromTrades rowsOf
  show barsOf ((hdb.trade.rowsAt d).filter _) sz = _
  rw [h.trade, filter_storedRows ht]

theorem quoteBars_withoutBars (h : hdb.WrittenFrom d t q) (hq : TimeOrdered Quote.time q)
    (s : Sym) (sz : Int) : quoteBars hdb.withoutBars s d sz
      = quoteBarsOf (q.filter (fun r => decide (r.sym = s))) sz := by
  show quoteBarsFromQuotes hdb.withoutBars s d sz = _
  unfold quoteBarsFromQuotes rowsOf
  show quoteBarsOf ((hdb.quote.rowsAt d).filter _) sz = _
  rw [h.quote, filter_storedRows hq]

/-- Where the scan gives what no stored bars of the symbol would, the stored ones decide. -/
theorem preferStored_eq {ρ β : Type} {sym : ρ → Sym} {p : Parts Date ρ} {s : Sym}
    {stored scanned : List β} (hempty : rowsOf sym p s d = [] → scanned = stored) :
    (if hasTable p then if 0 < (rowsOf sym p s d).length then stored else scanned else scanned)
      = stored := by
  cases htab : hasTable p with
  | false =>
      rw [if_neg Bool.false_ne_true]
      exact hempty (rowsOf_of_not_hasTable htab s d)
  | true =>
      rw [if_pos rfl]
      by_cases hlen : 0 < (rowsOf sym p s d).length
      · rw [if_pos hlen]
      · rw [if_neg hlen]
        exact hempty (List.length_eq_zero_iff.mp (Nat.eq_zero_of_not_pos hlen))

/-- Trade bars are always read off the stored ones: without any, there is no trade. -/
theorem bars_eq (h : hdb.WrittenFrom d t q) (ht : TimeOrdered Trade.time t) (s : Sym) (sz : Int) :
    bars hdb s d sz
      = rebucketBars ((buildBars t barSize).filter (fun b => decide (b.sym = s))) sz := by
  have hrows : rowsOf BarRow.sym hdb.bar s d
      = (buildBars t barSize).filter (fun b => decide (b.sym = s)) := by
    rw [rowsOf, h.bar, filter_eq_sortOn]
  rw [← hrows]
  refine preferStored_eq (fun hnil => ?_)
  -- no stored bar of the symbol: no trade of it either, and both sides are empty
  have hmerged := rebucketBars_buildBars t barSize sz s
  rw [← hrows, hnil] at hmerged
  have hts : t.filter (fun r => decide (r.sym = s)) = [] := selectBy_eq_nil.mp hmerged.symm
  unfold barsFromTrades
  rw [hnil, rowsOf, h.trade, filter_storedRows ht, hts]
  rfl

theorem quoteBars_eq (h : hdb.WrittenFrom d t q) (hq : TimeOrdered Quote.time q) (s : Sym)
    (sz : Int) : quoteBars hdb s d sz
      = rebucketQuoteBars ((buildQuoteBars q barSize).filter (fun b => decide (b.sym = s))) sz := by
  have hrows : rowsOf QuoteBarRow.sym hdb.quoteBar s d
      = (buildQuoteBars q barSize).filter (fun b => decide (b.sym = s)) := by
    rw [rowsOf, h.quoteBar, filter_eq_sortOn]
  rw [← hrows]
  refine preferStored_eq (fun hnil => ?_)
  have hmerged := rebucketQuoteBars_buildQuoteBars q barSize sz s
  rw [← hrows, hnil] at hmerged
  have hqs : q.filter (fun r => decide (r.sym = s)) = [] :=
    selectBy_eq_nil.mp (List.map_eq_nil_iff.mp hmerged.symm)
  unfold quoteBarsFromQuotes
  rw [hnil, rowsOf, h.quote, filter_storedRows hq, hqs]
  rfl

end

/-! ## When they agree -/

/-- The start of the bucket a row's minute starts in. -/
def storedBucket {ρ : Type} (time : ρ → Int) (sz : Int) (r : ρ) : Int :=
  xbar sz (xbar barSize (time r))

/-- The start of the bucket of a row's own time. -/
def ownBucket {ρ : Type} (time : ρ → Int) (sz : Int) (r : ρ) : Int := xbar sz (time r)

/-- Every trade's minute starts in the trade's own bucket. -/
def MinutesNest (t : List Trade) (sz : Int) : Prop :=
  ∀ r ∈ t, storedBucket Trade.time sz r = ownBucket Trade.time sz r

/-- In every bucket with volume, the minutes without volume have no turnover: always so when
no quantity is negative (`turnoverHasVolume_of_nonneg`). -/
def TurnoverHasVolume (t : List Trade) (sz : Int) : Prop :=
  ∀ k ∈ keysOf (ownBucket Trade.time sz) t,
    sumOf Trade.qty (groupAt (ownBucket Trade.time sz) t k) = 0 ∨
    weightlessTurnover (baseGroups Trade.time barSize (groupAt (ownBucket Trade.time sz) t k)) = 0

/-- The book a quote shows. -/
def Quote.book (r : Quote) : Book := ⟨r.bid, r.ask, r.bidSize, r.askSize⟩

/-- For every bucket, the last quote of the bucket and the last quote of the minutes that
start in it show the same book, or there is neither. -/
def LastBooksAgree (q : List Quote) (sz : Int) : Prop :=
  ∀ k, (groupAt (storedBucket Quote.time sz) q k).getLast?.map Quote.book
    = (groupAt (ownBucket Quote.time sz) q k).getLast?.map Quote.book

theorem turnoverHasVolume_of_nonneg {t : List Trade} (hqty : ∀ r ∈ t, 0 ≤ r.qty) (sz : Int) :
    TurnoverHasVolume t sz := by
  intro k _
  refine Or.inr (weightless_eq_zero (fun a ha => hqty a ?_))
  obtain ⟨g, hg, ha⟩ := List.mem_flatten.mp ha
  obtain ⟨e, he, rfl⟩ := List.mem_map.mp hg
  rw [(mem_groupOn.mp he).2] at ha
  exact (mem_groupAt.mp (mem_groupAt.mp ha).1).1

theorem lastBooksAgree_of_nest {q : List Quote} {sz : Int}
    (h : ∀ r ∈ q, storedBucket Quote.time sz r = ownBucket Quote.time sz r) :
    LastBooksAgree q sz := by
  intro k
  have hsame : groupAt (storedBucket Quote.time sz) q k = groupAt (ownBucket Quote.time sz) q k :=
    List.filter_congr (fun a ha => by rw [h a ha])
  rw [hsame]

theorem storedBucket_le {ρ : Type} {time : ρ → Int} {sz : Int} (hsz : 0 < sz) (r : ρ) :
    storedBucket time sz r ≤ ownBucket time sz r := xbar_xbar_le hsz barSize_pos (time r)

theorem trades_rebucket (gs : List (List Trade)) :
    (rebucket (gs.map ohlcv)).trades = gs.flatten.length := by
  calc ((gs.map ohlcv).map (·.trades)).sum
      = (gs.map List.length).sum := by rw [List.map_map]; rfl
    _ = gs.flatten.length := (List.length_flatten).symm

/-- The trade bars agree exactly when every minute lies within its trades' buckets. -/
theorem rebucketBars_eq_barsOf_iff {t : List Trade} {s : Sym} {sz : Int} (hsz : 0 < sz)
    (ht : TimeOrdered Trade.time (t.filter (fun r => decide (r.sym = s)))) :
    rebucketBars ((buildBars t barSize).filter (fun b => decide (b.sym = s))) sz
        = barsOf (t.filter (fun r => decide (r.sym = s))) sz
      ↔ MinutesNest (t.filter (fun r => decide (r.sym = s))) sz
        ∧ TurnoverHasVolume (t.filter (fun r => decide (r.sym = s))) sz := by
  rw [rebucketBars_buildBars]
  generalize t.filter (fun r => decide (r.sym = s)) = ts at ht ⊢
  have hflat : ∀ (key : Trade → Int) (k : Int),
      (baseGroups Trade.time barSize (groupAt key ts k)).flatten = groupAt key ts k :=
    fun key k => flatten_baseGroups barSize_pos (ht.groupAt key k)
  have hmerge : ∀ k ∈ keysOf (ownBucket Trade.time sz) ts,
      (rebucket ((baseGroups Trade.time barSize (groupAt (ownBucket Trade.time sz) ts k)).map ohlcv)
          = ohlcv (groupAt (ownBucket Trade.time sz) ts k)
        ↔ sumOf Trade.qty (groupAt (ownBucket Trade.time sz) ts k) = 0 ∨
          weightlessTurnover
            (baseGroups Trade.time barSize (groupAt (ownBucket Trade.time sz) ts k)) = 0) := by
    intro k hk
    have h := rebucket_map_ohlcv (baseGroups_groupAt (w := barSize) hk)
      (fun g hg => baseGroups_ne_nil hg)
    rwa [hflat] at h
  show selectBy (storedBucket Trade.time sz) _ ts = selectBy (ownBucket Trade.time sz) ohlcv ts ↔ _
  constructor
  · intro h
    obtain ⟨hkeys, hgroups⟩ := selectBy_eq_iff.mp h
    have hlen : ∀ k, (groupAt (storedBucket Trade.time sz) ts k).length
        = (groupAt (ownBucket Trade.time sz) ts k).length := by
      intro k
      by_cases hk : k ∈ keysOf (storedBucket Trade.time sz) ts
      · have htrades := congrArg Ohlcv.trades (hgroups k hk)
        rw [trades_rebucket, hflat] at htrades
        exact htrades
      · rw [groupAt_eq_nil.mpr hk, groupAt_eq_nil.mpr (hkeys ▸ hk)]
    -- trade counts agree bucket by bucket, and stored buckets never start later
    have hnest : MinutesNest ts sz :=
      eq_of_le_of_length_eq (fun r _ => storedBucket_le hsz r) hlen
    refine ⟨hnest, fun k hk => (hmerge k hk).mp ?_⟩
    have hgroup := hgroups k (hkeys ▸ hk)
    have hsame : groupAt (storedBucket Trade.time sz) ts k
        = groupAt (ownBucket Trade.time sz) ts k :=
      List.filter_congr (fun a ha => by rw [hnest a ha])
    rwa [hsame] at hgroup
  · rintro ⟨hnest, hvol⟩
    rw [selectBy_congr hnest]
    exact selectBy_eq_iff.mpr ⟨rfl, fun k hk => (hmerge k hk).mpr (hvol k hk)⟩

/-- The last book of each group, and of these the last, is the last of all. -/
theorem rebucketBook_flatten {ρ : Type} (book : ρ → Book) {gs : List (List ρ)}
    (hgs : ∀ g ∈ gs, g ≠ []) : rebucketBook (gs.map (fun g => rebucketBook (g.map book)))
      = rebucketBook (gs.flatten.map book) := by
  have hlast : ∀ col : Book → ℚ, (∀ bs, col (rebucketBook bs) = lastOf 0 col bs) →
      lastOf 0 col (gs.map (fun g => rebucketBook (g.map book)))
        = lastOf 0 col (gs.flatten.map book) := by
    intro col hcol
    have hgroup : ∀ g : List ρ,
        col (rebucketBook (g.map book)) = lastOf 0 (fun r => col (book r)) g :=
      fun g => (hcol _).trans (lastOf_map _ _ _ _)
    calc lastOf 0 col (gs.map (fun g => rebucketBook (g.map book)))
        = lastOf 0 (fun g => col (rebucketBook (g.map book))) gs := lastOf_map _ _ _ _
      _ = lastOf 0 (lastOf 0 (fun r => col (book r))) gs :=
          congrArg (lastOf 0 · gs) (funext hgroup)
      _ = lastOf 0 (fun r => col (book r)) gs.flatten := lastOf_flatten _ _ hgs
      _ = lastOf 0 col (gs.flatten.map book) := (lastOf_map _ _ _ _).symm
  rw [rebucketBook, hlast (·.bid) (fun _ => rfl), hlast (·.ask) (fun _ => rfl),
    hlast (·.bidSize) (fun _ => rfl), hlast (·.askSize) (fun _ => rfl)]
  rfl

theorem lastBook_eq_rebucketBook (g : List Quote) :
    lastBook g = rebucketBook (g.map Quote.book) := by
  unfold lastBook rebucketBook
  rw [lastOf_map, lastOf_map, lastOf_map, lastOf_map]
  rfl

theorem rebucketBook_map_lastBook {gs : List (List Quote)} (hgs : ∀ g ∈ gs, g ≠ []) :
    rebucketBook (gs.map lastBook) = lastBook gs.flatten := by
  have hbooks : lastBook = fun g => rebucketBook (g.map Quote.book) :=
    funext lastBook_eq_rebucketBook
  rw [hbooks]
  exact rebucketBook_flatten Quote.book hgs

theorem lastBook_eq (g : List Quote) :
    lastBook g = (g.getLast?.map Quote.book).getD ⟨0, 0, 0, 0⟩ := by
  unfold lastBook lastOf
  simp only [List.getLastD_eq_getLast?, List.getLast?_map]
  cases g.getLast? <;> rfl

/-- The quote bars agree exactly when the last books do. -/
theorem rebucketQuoteBars_eq_quoteBarsOf_iff {q : List Quote} {s : Sym} {sz : Int}
    (hq : TimeOrdered Quote.time (q.filter (fun r => decide (r.sym = s)))) :
    rebucketQuoteBars ((buildQuoteBars q barSize).filter (fun b => decide (b.sym = s))) sz
        = quoteBarsOf (q.filter (fun r => decide (r.sym = s))) sz
      ↔ LastBooksAgree (q.filter (fun r => decide (r.sym = s))) sz := by
  rw [rebucketQuoteBars_buildQuoteBars, quoteBarsOf]
  generalize q.filter (fun r => decide (r.sym = s)) = qs at hq ⊢
  have hinj : Function.Injective (fun b : Int × Book => (b.1, quoteFeatures b.2)) := by
    intro b b' h
    exact Prod.ext (Prod.mk.inj h).1 (quoteFeatures_injective (Prod.mk.inj h).2)
  rw [(List.map_injective_iff.mpr hinj).eq_iff]
  have hstored : selectBy (fun r : Quote => xbar sz (xbar barSize r.time))
        (fun m => rebucketBook ((baseGroups Quote.time barSize m).map lastBook)) qs
      = selectBy (storedBucket Quote.time sz) lastBook qs := by
    refine selectBy_eq_iff.mpr ⟨rfl, fun k _ => ?_⟩
    rw [rebucketBook_map_lastBook (fun g hg => baseGroups_ne_nil hg),
      flatten_baseGroups barSize_pos (hq.groupAt _ k)]
    rfl
  rw [hstored]
  show selectBy _ lastBook qs = selectBy (ownBucket Quote.time sz) lastBook qs ↔ _
  -- a bucket is there exactly when it has a last quote
  have hsome : ∀ (key : Quote → Int) (k : Int),
      k ∈ keysOf key qs ↔ ((groupAt key qs k).getLast?.map Quote.book).isSome = true := by
    intro key k
    rw [Option.isSome_map, List.getLast?_isSome, ← not_iff_not, ← groupAt_eq_nil, not_not]
  rw [selectBy_eq_iff]
  constructor
  · rintro ⟨hkeys, hgroups⟩ k
    by_cases hk : k ∈ keysOf (storedBucket Quote.time sz) qs
    · have hbook := hgroups k hk
      obtain ⟨b, hb⟩ := Option.isSome_iff_exists.mp ((hsome _ k).mp hk)
      obtain ⟨b', hb'⟩ := Option.isSome_iff_exists.mp ((hsome _ k).mp (hkeys ▸ hk))
      rw [lastBook_eq, lastBook_eq, hb, hb'] at hbook
      rw [hb, hb']
      exact congrArg some hbook
    · rw [groupAt_eq_nil.mpr hk, groupAt_eq_nil.mpr (hkeys ▸ hk)]
  · intro h
    constructor
    · refine keysOf_eq (keysOf_pairwise _ _) (fun k => ?_)
      rw [← mem_keysOf, hsome, hsome, h]
    · intro k _
      rw [lastBook_eq, lastBook_eq, h]

/-- **The two paths.** For a day written from tables in time order, the stored bars give what
a scan of the rows gives exactly when every trade's minute starts in the trade's own bucket,
the minutes without volume have no turnover, and the last quotes of the two bucketings show
the same books. -/
theorem fastPath_iff (hdb : Hdb) (d : Date) (t : List Trade) (q : List Quote)
    (hday : hdb.WrittenFrom d t q) (ht : TimeOrdered Trade.time t) (hq : TimeOrdered Quote.time q)
    (s : Sym) (sz : Int) (hsz : 0 < sz) :
    (bars hdb s d sz = bars hdb.withoutBars s d sz
        ∧ quoteBars hdb s d sz = quoteBars hdb.withoutBars s d sz)
      ↔ (MinutesNest (t.filter (fun r => decide (r.sym = s))) sz
          ∧ TurnoverHasVolume (t.filter (fun r => decide (r.sym = s))) sz)
        ∧ LastBooksAgree (q.filter (fun r => decide (r.sym = s))) sz := by
  rw [bars_eq hday ht, quoteBars_eq hday hq, bars_withoutBars hday ht,
    quoteBars_withoutBars hday hq, rebucketBars_eq_barsOf_iff hsz (ht.bySym s),
    rebucketQuoteBars_eq_quoteBarsOf_iff (hq.bySym s)]

/-- A writer holding one trade and one quote, at the given nanosecond of 2000.01.01. -/
def oneRow (time : Int) : HdbWriter :=
  ⟨[⟨time, "BTCUSDT", "binance", 1, 100, 1, time, false⟩],
    [⟨time, "BTCUSDT", "binance", 1, 99, 1, 101, 1⟩], Hdb.empty⟩

/-- Half a minute past midnight is in the first bucket of 90 seconds, and so is its minute. -/
theorem fastPath_first_bucket :
    bars (((oneRow 30000000000).savedown 10957).hdb) "BTCUSDT" 10957 90000000000
        = bars (((oneRow 30000000000).savedown 10957).hdb.withoutBars) "BTCUSDT" 10957 90000000000
      ∧ quoteBars (((oneRow 30000000000).savedown 10957).hdb) "BTCUSDT" 10957 90000000000
        = quoteBars (((oneRow 30000000000).savedown 10957).hdb.withoutBars) "BTCUSDT" 10957
            90000000000 := by
  refine (fastPath_iff _ 10957 (oneRow 30000000000).trade (oneRow 30000000000).quote
    (writtenFrom_savedown _ _ rfl rfl rfl rfl) (List.pairwise_singleton _ _)
    (List.pairwise_singleton _ _) "BTCUSDT" 90000000000 (by decide)).mpr ⟨⟨?_, ?_⟩, ?_⟩
  · unfold MinutesNest
    decide
  · exact turnoverHasVolume_of_nonneg (by decide +kernel) _
  · apply lastBooksAgree_of_nest
    decide

/-- The trade 100 seconds past midnight is in the second bucket of 90 seconds; its minute
starts in the first. -/
theorem fastPath_disagrees : ¬ ∀ (hdb : Hdb) (d : Date) (t : List Trade) (q : List Quote)
    (s : Sym) (sz : Int), hdb.WrittenFrom d t q → TimeOrdered Trade.time t →
    TimeOrdered Quote.time q → 0 < sz → ¬ barSize ∣ sz →
    bars hdb s d sz = bars hdb.withoutBars s d sz
      ∧ quoteBars hdb s d sz = quoteBars hdb.withoutBars s d sz := by
  intro h
  have hday := writtenFrom_savedown (oneRow 100000000000) 10957 rfl rfl rfl rfl
  have hbars := (h _ 10957 _ _ "BTCUSDT" 90000000000 hday (List.pairwise_singleton _ _)
    (List.pairwise_singleton _ _) (by decide) (by decide)).1
  revert hbars
  decide +kernel

end NanoTick
