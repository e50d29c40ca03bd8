import NanoTick.Store.StoredIds
import Mathlib.Order.Bounds.Basic
import Mathlib.Tactic

set_option autoImplicit false

/-! # The resume point

`HdbWriter._max_id` answers from memory when the symbol has a row there, and otherwise from
one partition, the newest that holds the table. Where a symbol's ids increase from partition
to partition and on into memory, the answer is the greatest stored id exactly when the place
it is read from has a row of the symbol, or no place has (`maxId_isResumePoint_iff`). A symbol
that did not trade on the newest saved day is missed (`resumePoint_missed`).
-/

namespace NanoTick

/-- `o` is the greatest of the ids; `none` when there are none. -/
def IsResumePoint (ids : Set Int) (o : Option Int) : Prop :=
  match o with
  | some m => IsGreatest ids m
  | none => ids = ∅

section

variable {ρ : Type} (sym : ρ → Sym) (id : ρ → Int) (t : List ρ) (p : Parts Date ρ) (s : Sym)

/-- The ids a table holds of a symbol, in memory or in any partition. -/
def storedIds : Set Int :=
  {k | ∃ r, (r ∈ t ∨ ∃ d, r ∈ p.rowsAt d) ∧ sym r = s ∧ id r = k}

/-- A symbol's ids increase from one partition to the next, and from the partitions to
memory. -/
structure IdsIncrease : Prop where
  parts : ∀ d d', d < d' → ∀ r ∈ p.rowsAt d, ∀ r' ∈ p.rowsAt d',
    sym r = s → sym r' = s → id r < id r'
  memory : ∀ d, ∀ r ∈ p.rowsAt d, ∀ r' ∈ t, sym r = s → sym r' = s → id r < id r'

/-- The place `_max_id` reads has a row of the symbol (in a partition, with an id that is not
negative), or no place has one. -/
def ReadHolds : Prop :=
  (∃ r ∈ t, sym r = s)
    ∨ (∃ d, latestPartition p = some d ∧ ∃ r ∈ p.rowsAt d, sym r = s ∧ 0 ≤ id r)
    ∨ ((∀ r ∈ t, sym r ≠ s) ∧ ∀ d, ∀ r ∈ p.rowsAt d, sym r ≠ s)

/-! ## What is read -/

variable {sym id t p s}

theorem symMax_eq_some {rows : List ρ} {m : Int} :
    ((rows.filter (fun r => decide (sym r = s))).map id).max? = some m
      ↔ (∃ r ∈ rows, sym r = s ∧ id r = m) ∧ ∀ r ∈ rows, sym r = s → id r ≤ m := by
  rw [List.max?_eq_some_iff]
  simp only [List.mem_map, List.mem_filter, decide_eq_true_eq]
  constructor
  · rintro ⟨⟨r, ⟨hr, hs⟩, hid⟩, hle⟩
    exact ⟨⟨r, hr, hs, hid⟩, fun x hx hxs => hle (id x) ⟨x, ⟨hx, hxs⟩, rfl⟩⟩
  · rintro ⟨⟨r, hr, hs, hid⟩, hle⟩
    refine ⟨⟨r, ⟨hr, hs⟩, hid⟩, ?_⟩
    rintro k ⟨x, ⟨hx, hxs⟩, rfl⟩
    exact hle x hx hxs

theorem symMax_eq_none {rows : List ρ} :
    ((rows.filter (fun r => decide (sym r = s))).map id).max? = none
      ↔ ∀ r ∈ rows, sym r ≠ s := by
  simp only [List.max?_eq_none_iff, List.map_eq_nil_iff, List.filter_eq_nil_iff,
    decide_eq_true_eq]

/-- The sentinel: a partition without a row of the symbol reads like one with negative ids. -/
theorem partMaxId_neg {rows : List ρ} :
    partMaxId sym id rows s < 0 ↔ ∀ r ∈ rows, sym r = s → id r < 0 := by
  unfold partMaxId
  cases hm : ((rows.filter (fun r => decide (sym r = s))).map id).max? with
  | none =>
      have hnone := symMax_eq_none.mp hm
      simp only [Option.getD_none]
      constructor
      · intro _ r hr hs
        exact absurd hs (hnone r hr)
      · intro _
        omega
  | some m =>
      obtain ⟨⟨x, hx, hxs, hxm⟩, hle⟩ := symMax_eq_some.mp hm
      simp only [Option.getD_some]
      constructor
      · intro hneg r hr hs
        exact lt_of_le_of_lt (hle r hr hs) hneg
      · intro h
        rw [← hxm]
        exact h x hx hxs

theorem partMaxId_nonneg {rows : List ρ} (h : 0 ≤ partMaxId sym id rows s) :
    (∃ r ∈ rows, sym r = s ∧ id r = partMaxId sym id rows s)
      ∧ ∀ r ∈ rows, sym r = s → id r ≤ partMaxId sym id rows s := by
  unfold partMaxId at h ⊢
  cases hm : ((rows.filter (fun r => decide (sym r = s))).map id).max? with
  | none =>
      rw [hm] at h
      exact absurd h (by decide)
  | some m =>
      simp only [Option.getD_some]
      exact symMax_eq_some.mp hm

theorem latestPartition_eq_none : latestPartition p = none ↔ ∀ d, d ∉ p := by
  unfold latestPartition
  constructor
  · intro h d hd
    rw [dif_pos ⟨d, Finmap.mem_keys.mpr hd⟩] at h
    cases h
  · intro h
    rw [dif_neg]
    rintro ⟨d, hd⟩
    exact h d (Finmap.mem_keys.mp hd)

theorem latestPartition_eq_some {d : Date} (h : latestPartition p = some d) :
    ∀ d' ∈ p, d' ≤ d := by
  unfold latestPartition at h
  split at h
  · cases h
    intro d' hd'
    exact Finset.le_max' _ _ (Finmap.mem_keys.mpr hd')
  · cases h

/-- No partition past the newest has rows. -/
theorem rowsAt_past_latest {d d' : Date} (h : latestPartition p = some d) (hlt : d < d') :
    p.rowsAt d' = [] := by
  apply Parts.rowsAt_of_notMem
  intro hmem
  exact absurd (latestPartition_eq_some h d' hmem) (not_le.mpr hlt)

/-! ## The answer -/

theorem storedIds_eq_empty :
    storedIds sym id t p s = ∅
      ↔ (∀ r ∈ t, sym r ≠ s) ∧ ∀ d, ∀ r ∈ p.rowsAt d, sym r ≠ s := by
  rw [Set.eq_empty_iff_forall_notMem]
  constructor
  · intro h
    exact ⟨fun r hr hs => h (id r) ⟨r, Or.inl hr, hs, rfl⟩,
      fun d r hr hs => h (id r) ⟨r, Or.inr ⟨d, hr⟩, hs, rfl⟩⟩
  · rintro ⟨ht, hp⟩ k ⟨r, hr | ⟨d, hr⟩, hs, -⟩
    · exact ht r hr hs
    · exact hp d r hr hs

/-- The greatest id in memory is the greatest there is. -/
theorem isGreatest_memory (h : IdsIncrease sym id t p s) {m : Int}
    (hm : ((t.filter (fun r => decide (sym r = s))).map id).max? = some m) :
    IsGreatest (storedIds sym id t p s) m := by
  obtain ⟨⟨x, hx, hxs, hxm⟩, hle⟩ := symMax_eq_some.mp hm
  refine ⟨⟨x, Or.inl hx, hxs, hxm⟩, ?_⟩
  rintro k ⟨r, hr | ⟨d, hr⟩, hs, rfl⟩
  · exact hle r hr hs
  · calc id r ≤ id x := (h.memory d r hr x hx hs hxs).le
      _ = m := hxm

/-- With nothing in memory, the greatest id of the newest partition is the greatest there is
when that partition has a row of the symbol. -/
theorem isGreatest_newest (h : IdsIncrease sym id t p s) (ht : ∀ r ∈ t, sym r ≠ s) {d : Date}
    (hd : latestPartition p = some d) (hnonneg : 0 ≤ partMaxId sym id (p.rowsAt d) s) :
    IsGreatest (storedIds sym id t p s) (partMaxId sym id (p.rowsAt d) s) := by
  obtain ⟨⟨x, hx, hxs, hxm⟩, hle⟩ := partMaxId_nonneg hnonneg
  refine ⟨⟨x, Or.inr ⟨d, hx⟩, hxs, hxm⟩, ?_⟩
  rintro k ⟨r, hr | ⟨d', hr⟩, hs, rfl⟩
  · exact absurd hs (ht r hr)
  · rcases lt_trichotomy d' d with hlt | rfl | hlt
    · rw [← hxm]
      exact (h.parts d' d hlt r hr x hx hs hxs).le
    · exact hle r hr hs
    · rw [rowsAt_past_latest hd hlt] at hr
      exact absurd hr List.not_mem_nil

/-- **The resume point.** `_max_id` is the greatest stored id exactly when the place it reads
has a row of the symbol, or no place has one. -/
theorem maxId_isResumePoint_iff (h : IdsIncrease sym id t p s) :
    IsResumePoint (storedIds sym id t p s) (maxId sym id t p s) ↔ ReadHolds sym id t p s := by
  unfold maxId
  cases hmem : ((t.filter (fun r => decide (sym r = s))).map id).max? with
  | some m =>
      obtain ⟨⟨x, hx, hxs, -⟩, -⟩ := symMax_eq_some.mp hmem
      exact ⟨fun _ => Or.inl ⟨x, hx, hxs⟩, fun _ => isGreatest_memory h hmem⟩
  | none =>
      have ht := symMax_eq_none.mp hmem
      have hread : ReadHolds sym id t p s ↔
          (∃ d, latestPartition p = some d ∧ ∃ r ∈ p.rowsAt d, sym r = s ∧ 0 ≤ id r)
            ∨ storedIds sym id t p s = ∅ := by
        rw [storedIds_eq_empty, ReadHolds]
        constructor
        · rintro (⟨r, hr, hs⟩ | h | h)
          · exact absurd hs (ht r hr)
          · exact Or.inl h
          · exact Or.inr h
        · exact Or.inr
      rw [hread]
      cases hd : latestPartition p with
      | none =>
          have hempty : storedIds sym id t p s = ∅ := by
            refine storedIds_eq_empty.mpr ⟨ht, fun d r hr => ?_⟩
            rw [Parts.rowsAt_of_notMem (latestPartition_eq_none.mp hd d)] at hr
            exact absurd hr List.not_mem_nil
          exact ⟨fun _ => Or.inr hempty, fun _ => hempty⟩
      | some d =>
          by_cases hv : partMaxId sym id (p.rowsAt d) s < 0
          · -- nothing read there: right only if nothing is stored at all
            simp only [if_pos hv]
            constructor
            · exact Or.inr
            · rintro (⟨d', hd', r, hr, hs, hid⟩ | hempty)
              · cases hd'
                exact absurd (partMaxId_neg.mp hv r hr hs) (not_lt.mpr hid)
              · exact hempty
          · simp only [if_neg hv]
            have hnonneg := not_lt.mp hv
            obtain ⟨⟨x, hx, hxs, hxm⟩, -⟩ := partMaxId_nonneg hnonneg
            refine ⟨fun _ => Or.inl ⟨d, rfl, x, hx, hxs, ?_⟩,
              fun _ => isGreatest_newest h ht hd hnonneg⟩
            rwa [hxm]

end

/-! ## Both tables -/

namespace HdbWriter

/-- The ids of a symbol increase through the store, in both tables. -/
def Increasing (w : HdbWriter) (s : Sym) : Prop :=
  IdsIncrease Trade.sym Trade.tradeID w.trade w.hdb.trade s
    ∧ IdsIncrease Quote.sym Quote.updateID w.quote w.hdb.quote s

/-- The trade ids and the quote ids stored of a symbol. -/
def tradeIds (w : HdbWriter) (s : Sym) : Set Int :=
  storedIds Trade.sym Trade.tradeID w.trade w.hdb.trade s

def quoteIds (w : HdbWriter) (s : Sym) : Set Int :=
  storedIds Quote.sym Quote.updateID w.quote w.hdb.quote s

/-- `trueMaxId` is the resume point of the trade ids. -/
theorem isResumePoint_trueMaxId (w : HdbWriter) (s : Sym) :
    IsResumePoint (w.tradeIds s) (w.trueMaxId s) := by
  have hids : ∀ k, k ∈ w.tradeIds s ↔ k ∈ w.ids s := by
    intro k
    rw [mem_ids]
    constructor
    · rintro ⟨r, hr, hs, hk⟩
      exact ⟨r, (mem_storedTrades w).mpr hr, hs, hk⟩
    · rintro ⟨r, hr, hs, hk⟩
      exact ⟨r, (mem_storedTrades w).mp hr, hs, hk⟩
  cases hm : w.trueMaxId s with
  | none =>
      rw [IsResumePoint, Set.eq_empty_iff_forall_notMem]
      intro k hk
      exact trueMaxId_eq_none.mp hm k ((hids k).mp hk)
  | some m =>
      obtain ⟨hmem, hle⟩ := trueMaxId_eq_some.mp hm
      exact ⟨(hids m).mpr hmem, fun k hk => hle k ((hids k).mp hk)⟩

/-- **Both resume points**, for every store whose ids increase, and every symbol. -/
theorem resumePoint_iff (w : HdbWriter) (s : Sym) (h : w.Increasing s) :
    (IsResumePoint (w.tradeIds s) (w.maxStoredId s)
        ↔ ReadHolds Trade.sym Trade.tradeID w.trade w.hdb.trade s)
      ∧ (IsResumePoint (w.quoteIds s) (w.maxStoredQuoteId s)
        ↔ ReadHolds Quote.sym Quote.updateID w.quote w.hdb.quote s) :=
  ⟨maxId_isResumePoint_iff h.1, maxId_isResumePoint_iff h.2⟩

/-- A trade of each symbol on the first day of 2020, and one of BTCUSDT alone the day after. -/
def btcFirst : Trade := ⟨1577836800000, "BTCUSDT", "binance", 1, 100, 1, 1577836800000, false⟩
def ethFirst : Trade := ⟨1577836801000, "ETHUSDT", "binance", 7, 10, 1, 1577836801000, false⟩
def btcNext : Trade := ⟨1577923200000, "BTCUSDT", "binance", 2, 101, 1, 1577923200000, false⟩

/-- The store after both days are saved down: memory is empty, and the newest partition has
no row of ETHUSDT. -/
def twoDays : HdbWriter :=
  (((fresh Hdb.empty).insert [btcFirst, ethFirst]).savedown 18262
    |>.insert [btcNext]).savedown 18263

theorem rowsAt_twoDays (d : Date) : twoDays.hdb.trade.rowsAt d
    = if d = 18263 then [btcNext.ofRaw]
      else if d = 18262 then [btcFirst.ofRaw, ethFirst.ofRaw] else [] := by
  have hnext : storedRows Trade.time Trade.sym [btcNext.ofRaw] = [btcNext.ofRaw] := by
    decide +kernel
  have hfirst : storedRows Trade.time Trade.sym [btcFirst.ofRaw, ethFirst.ofRaw]
      = [btcFirst.ofRaw, ethFirst.ofRaw] := by decide +kernel
  unfold twoDays
  simp [savedown_hdb_trade, rowsAt_saveTable, fresh, Hdb.empty, hnext, hfirst]

theorem increasing_twoDays (s : Sym) : twoDays.Increasing s := by
  have hquote : ∀ d, twoDays.hdb.quote.rowsAt d = [] := fun d => Parts.rowsAt_empty d
  refine ⟨⟨?_, fun d r _ r' hr' => absurd hr' List.not_mem_nil⟩, ⟨?_, ?_⟩⟩
  · intro d d' hlt r hr r' hr' hs hs'
    rw [rowsAt_twoDays] at hr hr'
    split at hr'
    · rename_i hd'
      subst hd'
      rw [if_neg hlt.ne] at hr
      split at hr
      · -- of the first day's trades only the one of BTCUSDT has the later trade's symbol
        rw [List.mem_singleton.mp hr'] at hs' ⊢
        rcases List.mem_pair.mp hr with rfl | rfl
        · decide
        · rw [← hs] at hs'
          exact absurd hs' (by decide)
      · exact absurd hr List.not_mem_nil
    · split at hr'
      · rename_i hd'
        subst hd'
        rw [if_neg (fun hd => absurd hlt (by rw [hd]; decide)), if_neg hlt.ne] at hr
        exact absurd hr List.not_mem_nil
      · exact absurd hr' List.not_mem_nil
  · intro d d' _ r hr
    rw [hquote] at hr
    cases hr
  · intro d r hr
    rw [hquote] at hr
    cases hr

theorem resumePoint_twoDays :
    (IsResumePoint (twoDays.tradeIds "BTCUSDT") (twoDays.maxStoredId "BTCUSDT")
        ↔ ReadHolds Trade.sym Trade.tradeID twoDays.trade twoDays.hdb.trade "BTCUSDT")
      ∧ (IsResumePoint (twoDays.quoteIds "BTCUSDT") (twoDays.maxStoredQuoteId "BTCUSDT")
        ↔ ReadHolds Quote.sym Quote.updateID twoDays.quote twoDays.hdb.quote "BTCUSDT") :=
  resumePoint_iff twoDays "BTCUSDT" (increasing_twoDays _)

/-- **A symbol that was quiet on the newest saved day** has no resume point, though its
trades are stored. -/
theorem resumePoint_missed : ¬ ∀ (w : HdbWriter) (s : Sym), w.Increasing s →
    IsResumePoint (w.tradeIds s) (w.maxStoredId s)
      ∧ IsResumePoint (w.quoteIds s) (w.maxStoredQuoteId s) := by
  intro h
  have hnone : twoDays.maxStoredId "ETHUSDT" = none := by decide +kernel
  have hres := (h twoDays "ETHUSDT" (increasing_twoDays _)).1
  rw [hnone] at hres
  have hmem : (7 : Int) ∈ twoDays.tradeIds "ETHUSDT" := by
    refine ⟨ethFirst.ofRaw, Or.inr ⟨18262, ?_⟩, rfl, rfl⟩
    rw [rowsAt_twoDays]
    decide +kernel
  rw [show twoDays.tradeIds "ETHUSDT" = ∅ from hres] at hmem
  exact hmem

end HdbWriter

end NanoTick
