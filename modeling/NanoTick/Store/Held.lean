import NanoTick.Store.StoredIds
import Mathlib.Tactic

set_option autoImplicit false

/-! # The rows a roller has received

A row inserted during a process is in memory until its day is saved, and then in the partition
of a day before the current one. No later savedown of the process writes over that partition,
so a row once received stays (`holdsTrade_roll`); the flush puts it into a partition when there
is a current day, and leaves it in memory when there is none.
-/

namespace NanoTick

/-- In memory, or in the partition of a day before the current one. -/
def Held {ρ : Type} (mem : List ρ) (p : Parts Date ρ) (cur : Option Date) (x : ρ) : Prop :=
  x ∈ mem ∨ ∃ d c, cur = some c ∧ d < c ∧ x ∈ p.rowsAt d

section

variable {ρ : Type} {mem : List ρ} {p : Parts Date ρ} {x : ρ}

theorem held_none : Held mem p none x ↔ x ∈ mem := by
  constructor
  · rintro (h | ⟨d, c, hc, -⟩)
    · exact h
    · cases hc
  · exact Or.inl

theorem Held.append {cur : Option Date} (h : Held mem p cur x) (rows : List ρ) :
    Held (mem ++ rows) p cur x :=
  h.imp_left (List.mem_append_left rows)

/-- What is held and the current day saved: it is in a partition. -/
theorem Held.saveTable (time : ρ → Int) (sym : ρ → Sym) {cur : Date}
    (h : Held mem p (some cur) x) :
    ∃ d ≤ cur, x ∈ (saveTable time sym cur mem p).2.rowsAt d := by
  rcases h with h | ⟨d, c, hc, hlt, hx⟩
  · refine ⟨cur, le_refl _, ?_⟩
    rw [rowsAt_saveTable, if_pos ⟨rfl, List.ne_nil_of_mem h⟩]
    exact (perm_storedRows time sym mem).mem_iff.mpr h
  · cases hc
    refine ⟨d, hlt.le, ?_⟩
    rw [rowsAt_saveTable, if_neg (fun h => hlt.ne h.1)]
    exact hx

end

/-- In a partition once the current day is saved, if there is one. -/
def Survives {ρ : Type} (mem : List ρ) (p : Parts Date ρ) (cur : Option Date) (x : ρ) : Prop :=
  match cur with
  | none => ∃ d, x ∈ p.rowsAt d
  | some c => x ∈ mem ∨ ∃ d, (d = c → mem = []) ∧ x ∈ p.rowsAt d

section

variable {ρ : Type} {mem : List ρ} {p : Parts Date ρ} {x : ρ}

theorem survives_saveTable (time : ρ → Int) (sym : ρ → Sym) {cur : Date} :
    (∃ d, x ∈ (saveTable time sym cur mem p).2.rowsAt d) ↔ Survives mem p (some cur) x := by
  constructor
  · rintro ⟨d, hx⟩
    rw [rowsAt_saveTable] at hx
    split at hx
    · exact Or.inl ((perm_storedRows time sym mem).mem_iff.mp hx)
    · rename_i hnot
      exact Or.inr ⟨d, fun hd => not_not.mp (fun hmem => hnot ⟨hd, hmem⟩), hx⟩
  · rintro (hx | ⟨d, hd, hx⟩)
    · have hheld : Held mem p (some cur) x := Or.inl hx
      obtain ⟨d, -, h⟩ := hheld.saveTable time sym
      exact ⟨d, h⟩
    · refine ⟨d, ?_⟩
      rw [rowsAt_saveTable, if_neg (fun h => h.2 (hd h.1))]
      exact hx

/-- What is held survives when there is a current day. -/
theorem Held.survives {cur : Option Date} (h : Held mem p cur x) (hcur : cur ≠ none) :
    Survives mem p cur x := by
  obtain ⟨c, rfl⟩ := Option.ne_none_iff_exists'.mp hcur
  rcases h with h | ⟨d, c', hc, hlt, hx⟩
  · exact Or.inl h
  · cases hc
    exact Or.inr ⟨d, fun hd => absurd hd hlt.ne, hx⟩

end

/-- The trade is held. -/
def RdbRoller.HoldsTrade (r : RdbRoller) (x : Trade) : Prop :=
  Held r.writer.trade r.writer.hdb.trade r.currentDay x

/-- The quote is held. -/
def RdbRoller.HoldsQuote (r : RdbRoller) (x : Quote) : Prop :=
  Held r.writer.quote r.writer.hdb.quote r.currentDay x

namespace RdbRoller

variable {r : RdbRoller}

/-- **A roll** keeps what a table holds: it leaves the table alone, or saves it under the day
before the one it moves to. -/
theorem held_roll {ρ : Type} (time : ρ → Int) (sym : ρ → Sym) (mem : HdbWriter → List ρ)
    (parts : Hdb → Parts Date ρ) (hsaved : ∀ w dt,
      parts (w.savedown dt).hdb = (saveTable time sym dt (mem w) (parts w.hdb)).2) {x : ρ}
    (h : Held (mem r.writer) (parts r.writer.hdb) r.currentDay x) (day : Date) :
    Held (mem (r.roll day).1.writer) (parts (r.roll day).1.writer.hdb)
      (r.roll day).1.currentDay x := by
  cases hc : r.currentDay with
  | none =>
      rw [hc, held_none] at h
      rw [roll_none hc]
      exact Or.inl h
  | some cur =>
      by_cases hlt : cur < day
      · rw [hc] at h
        rw [roll_past hc hlt]
        obtain ⟨d, hd, hx⟩ := h.saveTable time sym
        refine Or.inr ⟨d, day, rfl, lt_of_le_of_lt hd hlt, ?_⟩
        rw [hsaved]
        exact hx
      · rw [roll_within hc (not_lt.mp hlt)]
        exact h

theorem holdsTrade_roll {x : Trade} (h : r.HoldsTrade x) (day : Date) :
    (r.roll day).1.HoldsTrade x :=
  held_roll Trade.time Trade.sym HdbWriter.trade Hdb.trade savedown_hdb_trade h day

theorem holdsQuote_roll {x : Quote} (h : r.HoldsQuote x) (day : Date) :
    (r.roll day).1.HoldsQuote x :=
  held_roll Quote.time Quote.sym HdbWriter.quote Hdb.quote savedown_hdb_quote h day

/-- **A trade chunk**: the rows of it are held, and what was. -/
theorem holdsTrade_afterFeed (day : Date) (cols : List Trade) :
    (∀ x, r.HoldsTrade x → (r.afterFeed day cols).HoldsTrade x)
      ∧ (∀ x ∈ cols, (r.afterFeed day cols).HoldsTrade x.ofRaw)
      ∧ ∀ x, r.HoldsQuote x → (r.afterFeed day cols).HoldsQuote x := by
  refine ⟨fun x h => ?_, fun x hx => ?_, fun x h => holdsQuote_roll h day⟩
  · exact (holdsTrade_roll h day).append _
  · exact Or.inl (List.mem_append_right _ (List.mem_map_of_mem hx))

/-- **A quote chunk.** -/
theorem holdsQuote_afterFeedQuote (day : Date) (cols : List Quote) :
    (∀ x, r.HoldsQuote x → (r.afterFeedQuote day cols).HoldsQuote x)
      ∧ (∀ x ∈ cols, (r.afterFeedQuote day cols).HoldsQuote x.ofRaw)
      ∧ ∀ x, r.HoldsTrade x → (r.afterFeedQuote day cols).HoldsTrade x := by
  refine ⟨fun x h => ?_, fun x hx => ?_, fun x h => holdsTrade_roll h day⟩
  · exact (holdsQuote_roll h day).append _
  · exact Or.inl (List.mem_append_right _ (List.mem_map_of_mem hx))

/-- Rows inserted past the roller are held, and what was. -/
theorem holdsTrade_insert (cols : List Trade) :
    (∀ x, r.HoldsTrade x → HoldsTrade { r with writer := r.writer.insert cols } x)
      ∧ ∀ x ∈ cols, HoldsTrade { r with writer := r.writer.insert cols } x.ofRaw :=
  ⟨fun _ h => h.append _, fun _ hx => Or.inl (List.mem_append_right _ (List.mem_map_of_mem hx))⟩

/-- What is held is stored. -/
theorem HoldsTrade.mem_ids {x : Trade} (h : r.HoldsTrade x) :
    x.tradeID ∈ r.writer.ids x.sym := by
  refine NanoTick.mem_ids.mpr ⟨x, (mem_storedTrades _).mpr ?_, rfl, rfl⟩
  rcases h with h | ⟨d, -, -, -, h⟩
  · exact Or.inl h
  · exact Or.inr ⟨d, h⟩

/-! ## The flush -/

theorem currentDay_roll (r : RdbRoller) (day : Date) : (r.roll day).1.currentDay ≠ none := by
  cases hc : r.currentDay with
  | none =>
      rw [roll_none hc]
      nofun
  | some cur =>
      by_cases hlt : cur < day
      · rw [roll_past hc hlt]
        nofun
      · rw [roll_within hc (not_lt.mp hlt), hc]
        nofun

/-- **What a flush leaves in the partitions.** -/
theorem flush_trade (r : RdbRoller) (x : Trade) :
    (∃ d, x ∈ r.flush.1.writer.hdb.trade.rowsAt d)
      ↔ Survives r.writer.trade r.writer.hdb.trade r.currentDay x := by
  unfold flush
  cases r.currentDay with
  | none => exact Iff.rfl
  | some cur => exact survives_saveTable Trade.time Trade.sym

theorem flush_quote (r : RdbRoller) (x : Quote) :
    (∃ d, x ∈ r.flush.1.writer.hdb.quote.rowsAt d)
      ↔ Survives r.writer.quote r.writer.hdb.quote r.currentDay x := by
  unfold flush
  cases r.currentDay with
  | none => exact Iff.rfl
  | some cur => exact survives_saveTable Quote.time Quote.sym

end RdbRoller

end NanoTick
