import NanoTick.Basic.Grouping
import Mathlib.Tactic

set_option autoImplicit false

/-! # The first record of each key

A pass over a sorted batch accepts a record when its key is strictly above the last key accepted,
and above a floor to begin with. What it accepts are the records of the batch, in key order, whose
key is above the floor and which are the first of the batch with that key (`keep_sortOn`): a stable
sort keeps the first of equal keys in front.
-/

namespace FirstOfKey

open Grouping

variable {α κ : Type} [LinearOrder κ] (key : α → κ)

/-- `k` is above the floor; everything is above an absent one. -/
def beyond (floor : Option κ) (k : κ) : Bool := floor.all (fun l => decide (l < k))

/-- One pass: what is strictly above the last key accepted. -/
def keep : Option κ → List α → List α
  | _, [] => []
  | floor, a :: t => if beyond floor (key a) then a :: keep (some (key a)) t else keep floor t

/-- The first record of each key. -/
def firstOfKey : List α → List α
  | [] => []
  | a :: t => a :: (firstOfKey t).filter (fun b => decide (key b ≠ key a))

/-- In key order, the first record of each key above the floor. -/
def newOf (floor : Option κ) (l : List α) : List α :=
  sortOn key ((firstOfKey key l).filter (fun a => beyond floor (key a)))

variable {key}

theorem mem_of_mem_firstOfKey {l : List α} {a : α} (h : a ∈ firstOfKey key l) : a ∈ l := by
  induction l with
  | nil => exact h
  | cons b t ih =>
      rcases List.mem_cons.mp h with rfl | h
      · exact List.mem_cons_self
      · exact List.mem_cons_of_mem b (ih (List.mem_filter.mp h).1)

/-- A record is the first of its key when nothing of that key stands before it. -/
theorem mem_firstOfKey {l : List α} {a : α} :
    a ∈ firstOfKey key l ↔ (l.filter (fun b => decide (key b = key a))).head? = some a := by
  induction l with
  | nil => simp [firstOfKey]
  | cons b t ih =>
      rw [firstOfKey, List.mem_cons, List.mem_filter, ih, List.filter_cons]
      by_cases hb : key b = key a
      · simp [hb, eq_comm]
      · have hne : a ≠ b := fun h => hb (by rw [h])
        simp [hb, hne, Ne.symm hb]

theorem firstOfKey_pairwise_ne (l : List α) :
    (firstOfKey key l).Pairwise (fun a b => key a ≠ key b) := by
  induction l with
  | nil => exact List.Pairwise.nil
  | cons a t ih =>
      refine List.Pairwise.cons (fun b hb => ?_) (ih.filter _)
      exact Ne.symm (of_decide_eq_true (List.mem_filter.mp hb).2)

/-- Sorted records of distinct keys ascend strictly. -/
theorem pairwise_lt {l : List α} (hle : l.Pairwise (fun a b => key a ≤ key b))
    (hne : l.Pairwise (fun a b => key a ≠ key b)) : l.Pairwise (fun a b => key a < key b) :=
  (hle.and hne).imp (fun h => lt_of_le_of_ne h.1 h.2)

theorem sublist_firstOfKey (l : List α) : (firstOfKey key l).Sublist l := by
  induction l with
  | nil => exact List.Sublist.refl _
  | cons a t ih => exact (List.filter_sublist.trans ih).cons_cons a

/-- The first records of a sorted batch are those of the batch, sorted. -/
theorem firstOfKey_sortOn (l : List α) :
    firstOfKey key (sortOn key l) = sortOn key (firstOfKey key l) := by
  have hleft : (firstOfKey key (sortOn key l)).Pairwise (fun a b => key a < key b) :=
    pairwise_lt ((sortOn_pairwise key l).sublist (sublist_firstOfKey _))
      (firstOfKey_pairwise_ne _)
  have hright : (sortOn key (firstOfKey key l)).Pairwise (fun a b => key a < key b) := by
    refine pairwise_lt (sortOn_pairwise key _) ?_
    exact (perm_sortOn key _).symm.pairwise (firstOfKey_pairwise_ne l) (fun h => Ne.symm h)
  have hmem : ∀ a, a ∈ firstOfKey key (sortOn key l) ↔ a ∈ sortOn key (firstOfKey key l) := by
    intro a
    rw [mem_sortOn, mem_firstOfKey, mem_firstOfKey, filter_eq_sortOn]
  have hnodup : ∀ {m : List α}, m.Pairwise (fun a b => key a < key b) → m.Nodup := fun h =>
    h.imp (fun hlt heq => absurd hlt (by rw [heq]; exact lt_irrefl _))
  refine ((List.perm_ext_iff_of_nodup (hnodup hleft) (hnodup hright)).mpr hmem).eq_of_pairwise
    (fun a b _ _ hab hba => ?_) hleft hright
  exact absurd (hab.trans hba) (lt_irrefl _)

/-- A pass over a sorted list accepts the first record of each key above the floor. -/
theorem keep_of_sorted {floor : Option κ} {l : List α}
    (hl : l.Pairwise (fun a b => key a ≤ key b)) :
    keep key floor l = (firstOfKey key l).filter (fun a => beyond floor (key a)) := by
  induction l generalizing floor with
  | nil => rfl
  | cons a t ih =>
      obtain ⟨hle, ht⟩ := List.pairwise_cons.mp hl
      rw [keep, firstOfKey]
      cases ha : beyond floor (key a) with
      | true =>
          rw [if_pos rfl, ih ht, List.filter_cons, if_pos ha, List.filter_filter]
          refine congrArg (a :: ·) (List.filter_congr (fun b hb => ?_))
          have hab : key a ≤ key b := hle b (mem_of_mem_firstOfKey hb)
          -- what comes after `a` is above the floor, and above `a` unless it has its key
          have hfloor : key a < key b → beyond floor (key b) = true := by
            intro hlt
            cases floor with
            | none => rfl
            | some l => exact decide_eq_true ((of_decide_eq_true ha).trans hlt)
          by_cases heq : key b = key a
          · simp [beyond, heq]
          · have hlt : key a < key b := lt_of_le_of_ne hab (Ne.symm heq)
            simp [beyond, heq, hlt]
            exact hfloor hlt
      | false =>
          rw [if_neg Bool.false_ne_true, ih ht, List.filter_cons, if_neg (by rw [ha]; nofun),
            List.filter_filter]
          refine List.filter_congr (fun b _ => ?_)
          by_cases heq : key b = key a
          · rw [heq, ha]
            rfl
          · simp [heq]

/-- **What a batch accepts.** -/
theorem keep_sortOn (floor : Option κ) (l : List α) :
    keep key floor (sortOn key l) = newOf key floor l := by
  rw [keep_of_sorted (sortOn_pairwise key l), firstOfKey_sortOn, filter_sortOn, newOf]

theorem mem_newOf {floor : Option κ} {l : List α} {a : α} : a ∈ newOf key floor l
    ↔ (l.filter (fun b => decide (key b = key a))).head? = some a
      ∧ beyond floor (key a) = true := by
  rw [newOf, mem_sortOn, List.mem_filter, mem_firstOfKey]

end FirstOfKey
