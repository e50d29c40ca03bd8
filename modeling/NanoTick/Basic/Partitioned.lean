import Mathlib.Data.Finmap
import Mathlib.Data.Multiset.Bind
import Mathlib.Tactic

set_option autoImplicit false

/-! # Partitioned tables

A partitioned table `Parts κ ρ` holds, under each of finitely many keys, a list of rows.
`save` replaces what a key held: the only write such a table has.

Rows are counted with multiplicity. `rows_save` is the conservation law of a write: the
table gains the new rows and loses what the key held before.
-/

/-- Rows in partitions, one list of rows for each key present. -/
abbrev Parts (κ ρ : Type) : Type := Finmap (fun _ : κ => List ρ)

namespace Parts

variable {κ ρ : Type} [DecidableEq κ]

/-- What the key holds; nothing if it is absent. -/
def rowsAt (p : Parts κ ρ) (k : κ) : List ρ := (p.lookup k).getD []

/-- Replace what the key holds. -/
def save (k : κ) (l : List ρ) (p : Parts κ ρ) : Parts κ ρ := p.insert k l

/-- All rows of the table, with multiplicity. -/
def rows (p : Parts κ ρ) : Multiset ρ :=
  p.entries.bind (fun e => (e.2 : Multiset ρ))

@[simp] theorem rowsAt_empty (k : κ) : rowsAt (∅ : Parts κ ρ) k = [] := by
  rw [rowsAt, Finmap.lookup_empty]
  rfl

@[simp] theorem rowsAt_save_self (k : κ) (l : List ρ) (p : Parts κ ρ) :
    (p.save k l).rowsAt k = l := by
  rw [rowsAt, save, Finmap.lookup_insert]
  rfl

@[simp] theorem rowsAt_save_ne {k k' : κ} (h : k' ≠ k) (l : List ρ) (p : Parts κ ρ) :
    (p.save k l).rowsAt k' = p.rowsAt k' := by
  rw [rowsAt, save, Finmap.lookup_insert_of_ne p h]
  rfl

theorem rowsAt_of_notMem {p : Parts κ ρ} {k : κ} (h : k ∉ p) : p.rowsAt k = [] := by
  rw [rowsAt, Finmap.lookup_eq_none.mpr h]
  rfl

theorem rows_insert_of_notMem {p : Parts κ ρ} {k : κ} (h : k ∉ p) (l : List ρ) :
    rows (Finmap.insert k l p) = (l : Multiset ρ) + p.rows := by
  rw [rows, Finmap.entries_insert_of_notMem h, Multiset.cons_bind]
  rfl

theorem rows_erase (p : Parts κ ρ) (k : κ) :
    (p.rowsAt k : Multiset ρ) + rows (p.erase k) = p.rows := by
  by_cases hk : k ∈ p
  · obtain ⟨l, hl⟩ := Finmap.mem_iff.mp hk
    -- erasing the key and putting its rows back changes nothing
    have hins : Finmap.insert k l (p.erase k) = p := by
      refine Finmap.ext_lookup (fun x => ?_)
      by_cases hx : x = k
      · subst hx
        rw [Finmap.lookup_insert, hl]
      · rw [Finmap.lookup_insert_of_ne _ hx, Finmap.lookup_erase_ne hx]
    have hrows := rows_insert_of_notMem (Finmap.notMem_erase_self (a := k) (s := p)) l
    rw [hins] at hrows
    rw [hrows, rowsAt, hl]
    rfl
  · have herase : p.erase k = p := by
      refine Finmap.ext_lookup (fun x => ?_)
      by_cases hx : x = k
      · subst hx
        rw [Finmap.lookup_erase, Finmap.lookup_eq_none.mpr hk]
      · rw [Finmap.lookup_erase_ne hx]
    rw [herase, rowsAt_of_notMem hk]
    simp

/-- **Conservation.** A write adds the new rows and drops what the key held. -/
theorem rows_save (k : κ) (l : List ρ) (p : Parts κ ρ) :
    (p.save k l).rows + (p.rowsAt k : Multiset ρ) = p.rows + (l : Multiset ρ) := by
  have h₁ := rows_erase (p.save k l) k
  have h₂ := rows_erase p k
  have herase : (p.save k l).erase k = p.erase k := by
    refine Finmap.ext_lookup (fun x => ?_)
    by_cases hx : x = k
    · subst hx
      rw [Finmap.lookup_erase, Finmap.lookup_erase]
    · rw [Finmap.lookup_erase_ne hx, Finmap.lookup_erase_ne hx, save,
        Finmap.lookup_insert_of_ne _ hx]
  rw [rowsAt_save_self, herase] at h₁
  rw [← h₁, ← h₂]
  abel

/-- The partitions whose key passes `q`. -/
def keep (q : κ → Bool) (p : Parts κ ρ) : Parts κ ρ where
  entries := p.entries.filter (fun e => q e.1 = true)
  nodupKeys := Multiset.nodup_keys.mp
    (Multiset.nodup_of_le (Multiset.map_le_map (Multiset.filter_le _ _)) p.nodupKeys.nodup_keys)

omit [DecidableEq κ] in
theorem rows_keep_le (q : κ → Bool) (p : Parts κ ρ) : (p.keep q).rows ≤ p.rows := by
  have hsplit := Multiset.filter_add_not (fun e : Sigma (fun _ : κ => List ρ) => q e.1 = true)
    p.entries
  rw [rows, rows, ← hsplit, Multiset.add_bind]
  exact Multiset.le_add_right _ _

theorem mem_rowsAt_of_keep {q : κ → Bool} {p : Parts κ ρ} {k : κ} {r : ρ}
    (h : r ∈ (p.keep q).rowsAt k) : r ∈ p.rowsAt k := by
  unfold rowsAt at h ⊢
  cases hl : (p.keep q).lookup k with
  | none =>
      rw [hl] at h
      exact absurd h List.not_mem_nil
  | some l =>
      rw [hl] at h
      have hmem : (⟨k, l⟩ : Sigma (fun _ : κ => List ρ)) ∈ p.entries :=
        Multiset.mem_of_mem_filter (Finmap.mem_lookup_iff.mp hl)
      rw [Finmap.mem_lookup_iff.mpr hmem]
      exact h

theorem mem_rows {p : Parts κ ρ} {r : ρ} : r ∈ p.rows ↔ ∃ k, r ∈ p.rowsAt k := by
  constructor
  · intro h
    obtain ⟨e, he, hr⟩ := Multiset.mem_bind.mp h
    refine ⟨e.1, ?_⟩
    have hl : p.lookup e.1 = some e.2 := Finmap.mem_lookup_iff.mpr he
    rw [rowsAt, hl]
    exact hr
  · rintro ⟨k, hr⟩
    rw [← rows_erase p k]
    exact Multiset.mem_add.mpr (Or.inl hr)

end Parts
