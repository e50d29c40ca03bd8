import NanoTick.Store.Roller
import Mathlib.Tactic

set_option autoImplicit false

/-! # The ids a store holds

`HdbWriter.ids w s` are the trade ids stored for a symbol, in memory or in any partition, and
`trueMaxId` is the greatest of them. Inserting adds the inserted ids; a savedown under a date
loses at most the ids of the rows the date held before (`ids_savedown`).

A roller saves each date at most once before it is flushed, so the rows it writes over are
rows the store was started with: `DaysKept` is the invariant, `ids_roll` what it gives.
-/

namespace NanoTick

/-- The trade ids stored for a symbol, with multiplicity. -/
def HdbWriter.ids (w : HdbWriter) (s : Sym) : Multiset Int :=
  (w.storedTrades.filter (fun r => r.sym = s)).map Trade.tradeID

/-- The greatest stored id of a symbol. -/
def HdbWriter.trueMaxId (w : HdbWriter) (s : Sym) : Option Int :=
  if h : (w.ids s).toFinset.Nonempty then some ((w.ids s).toFinset.max' h) else none

section

variable {w : HdbWriter} {s : Sym}

theorem mem_ids {k : Int} :
    k ∈ w.ids s ↔ ∃ r ∈ w.storedTrades, r.sym = s ∧ r.tradeID = k := by
  rw [HdbWriter.ids, Multiset.mem_map]
  constructor
  · rintro ⟨r, hr, hk⟩
    obtain ⟨hmem, hs⟩ := Multiset.mem_filter.mp hr
    exact ⟨r, hmem, hs, hk⟩
  · rintro ⟨r, hmem, hs, hk⟩
    exact ⟨r, Multiset.mem_filter.mpr ⟨hmem, hs⟩, hk⟩

theorem trueMaxId_eq_some {m : Int} :
    w.trueMaxId s = some m ↔ m ∈ w.ids s ∧ ∀ k ∈ w.ids s, k ≤ m := by
  unfold HdbWriter.trueMaxId
  constructor
  · intro h
    split at h
    · rename_i hne
      cases h
      refine ⟨Multiset.mem_toFinset.mp (Finset.max'_mem _ hne), fun k hk => ?_⟩
      exact Finset.le_max' _ k (Multiset.mem_toFinset.mpr hk)
    · cases h
  · rintro ⟨hm, hle⟩
    have hmem : m ∈ (w.ids s).toFinset := Multiset.mem_toFinset.mpr hm
    rw [dif_pos ⟨m, hmem⟩]
    refine congrArg some (le_antisymm ?_ (Finset.le_max' _ m hmem))
    exact Finset.max'_le _ _ _ (fun k hk => hle k (Multiset.mem_toFinset.mp hk))

theorem trueMaxId_eq_none : w.trueMaxId s = none ↔ ∀ k, k ∉ w.ids s := by
  unfold HdbWriter.trueMaxId
  constructor
  · intro h k hk
    rw [dif_pos ⟨k, Multiset.mem_toFinset.mpr hk⟩] at h
    cases h
  · intro h
    rw [dif_neg]
    rintro ⟨k, hk⟩
    exact h k (Multiset.mem_toFinset.mp hk)

theorem mem_ids_insert {cols : List Trade} {k : Int} :
    k ∈ (w.insert cols).ids s ↔ k ∈ w.ids s ∨ ∃ r ∈ cols, r.sym = s ∧ r.tradeID = k := by
  rw [mem_ids, mem_ids, storedTrades_insert]
  constructor
  · rintro ⟨r, hr, hs, hk⟩
    rcases Multiset.mem_add.mp hr with hr | hr
    · exact Or.inl ⟨r, hr, hs, hk⟩
    · obtain ⟨c, hc, rfl⟩ := List.mem_map.mp (Multiset.mem_coe.mp hr)
      exact Or.inr ⟨c, hc, hs, hk⟩
  · rintro (⟨r, hr, hs, hk⟩ | ⟨c, hc, hs, hk⟩)
    · exact ⟨r, Multiset.mem_add.mpr (Or.inl hr), hs, hk⟩
    · have hmem : c.ofRaw ∈ (cols.map Trade.ofRaw : Multiset Trade) :=
        Multiset.mem_coe.mpr (List.mem_map_of_mem hc)
      exact ⟨c.ofRaw, Multiset.mem_add.mpr (Or.inr hmem), hs, hk⟩

@[simp] theorem ids_insertQuote (cols : List Quote) : (w.insertQuote cols).ids s = w.ids s := rfl

/-- A savedown adds no id, and loses only ids of rows its date held. -/
theorem ids_savedown (dt : Date) (k : Int) :
    (k ∈ (w.savedown dt).ids s → k ∈ w.ids s)
      ∧ (k ∈ w.ids s → k ∈ (w.savedown dt).ids s
          ∨ ∃ r ∈ w.hdb.trade.rowsAt dt, r.sym = s ∧ r.tradeID = k) := by
  have hsave := storedTrades_savedown w dt
  rw [mem_ids, mem_ids]
  constructor
  · rintro ⟨r, hr, hs, hk⟩
    refine ⟨r, ?_, hs, hk⟩
    rw [← hsave]
    exact Multiset.mem_add.mpr (Or.inl hr)
  · rintro ⟨r, hr, hs, hk⟩
    rw [← hsave] at hr
    rcases Multiset.mem_add.mp hr with hr | hr
    · exact Or.inl ⟨r, hr, hs, hk⟩
    · refine Or.inr ⟨r, ?_, hs, hk⟩
      split at hr
      · exact absurd hr (Multiset.notMem_zero r)
      · exact Multiset.mem_coe.mp hr

end

/-! ## The days a roller has not saved yet -/

/-- The partitions from the current day on are as the store was started with. -/
def DaysKept (hdb : Hdb) (r : RdbRoller) : Prop :=
  ∀ d, (∀ c, r.currentDay = some c → c ≤ d) → r.writer.hdb.trade.rowsAt d = hdb.trade.rowsAt d

section

variable {hdb : Hdb} {r : RdbRoller}

theorem daysKept_roll (h : DaysKept hdb r) (day : Date) : DaysKept hdb (r.roll day).1 := by
  cases hc : r.currentDay with
  | none =>
      rw [RdbRoller.roll_none hc]
      intro d _
      exact h d (fun c hc' => by rw [hc] at hc'; cases hc')
  | some cur =>
      by_cases hlt : cur < day
      · rw [RdbRoller.roll_past hc hlt]
        intro d hd
        have hle : day ≤ d := hd day rfl
        -- the day saved is before every day still to come
        have hne : ¬(d = cur ∧ r.writer.trade ≠ []) := by
          rintro ⟨rfl, -⟩
          exact absurd hlt (not_lt.mpr hle)
        show (r.writer.savedown cur).hdb.trade.rowsAt d = _
        rw [savedown_hdb_trade, rowsAt_saveTable, if_neg hne]
        apply h d
        intro c hc'
        rw [hc] at hc'
        cases hc'
        exact le_trans hlt.le hle
      · rw [RdbRoller.roll_within hc (not_lt.mp hlt)]
        exact h

/-- **A roll** adds no id, and loses only ids the store was started with. -/
theorem ids_roll (h : DaysKept hdb r) (day : Date) (s : Sym) (k : Int) :
    (k ∈ (r.roll day).1.writer.ids s → k ∈ r.writer.ids s)
      ∧ (k ∈ r.writer.ids s → k ∈ (r.roll day).1.writer.ids s
          ∨ ∃ x ∈ hdb.trade.rows, x.sym = s ∧ x.tradeID = k) := by
  cases hc : r.currentDay with
  | none =>
      rw [RdbRoller.roll_none hc]
      exact ⟨id, Or.inl⟩
  | some cur =>
      by_cases hlt : cur < day
      · rw [RdbRoller.roll_past hc hlt]
        obtain ⟨hsub, hlost⟩ := ids_savedown (w := r.writer) (s := s) cur k
        refine ⟨hsub, fun hk => ?_⟩
        rcases hlost hk with hk | ⟨x, hx, hs, hid⟩
        · exact Or.inl hk
        · have hkept : r.writer.hdb.trade.rowsAt cur = hdb.trade.rowsAt cur := by
            apply h cur
            intro c hc'
            rw [hc] at hc'
            cases hc'
            exact le_refl cur
          rw [hkept] at hx
          exact Or.inr ⟨x, Parts.mem_rows.mpr ⟨cur, hx⟩, hs, hid⟩
      · rw [RdbRoller.roll_within hc (not_lt.mp hlt)]
        exact ⟨id, Or.inl⟩

end

end NanoTick
