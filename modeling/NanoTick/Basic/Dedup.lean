import NanoTick.Basic.Grouping
import NanoTick.Basic.Paging
import Mathlib.Tactic

set_option autoImplicit false

/-! # Deduplication against a floor

A consumer that remembers the highest key it accepted, its floor, and accepts of each batch,
in key order, only what is strictly above the floor. `keepAbove` is the pass over a sorted
batch; the floor after it is the old floor raised to every key of the batch (`keepAbove_snd`),
whatever the order, and the accepted keys are the batch's keys above the old floor
(`key_mem_dedup`), each once and in ascending order (`ascending_dedup`). With one floor for each
key, redelivered items are accepted where they come first (`isAbove_floorAfter`).
-/

namespace Dedup

open Grouping

/-- `k` is above the floor; everything is above an absent one. -/
def isAbove (floor : Option Int) (k : Int) : Bool := floor.all (fun l => decide (l < k))

/-- The floor after accepting or rejecting `k`. -/
def raise (floor : Option Int) (k : Int) : Option Int := some (floor.elim k (fun l => max l k))

@[simp] theorem isAbove_none (k : Int) : isAbove none k = true := rfl

@[simp] theorem isAbove_some {l k : Int} : isAbove (some l) k = true ↔ l < k :=
  decide_eq_true_iff

theorem raise_of_above {floor : Option Int} {k : Int} (h : isAbove floor k = true) :
    raise floor k = some k := by
  cases floor with
  | none => rfl
  | some l => exact congrArg some (max_eq_right (isAbove_some.mp h).le)

theorem raise_of_not_above {floor : Option Int} {k : Int} (h : isAbove floor k = false) :
    raise floor k = floor := by
  cases floor with
  | none => cases h
  | some l =>
      have hle : k ≤ l := not_lt.mp (of_decide_eq_false h)
      exact congrArg some (max_eq_left hle)

/-- What is above a raised floor. -/
theorem isAbove_raise {floor : Option Int} {j k : Int} :
    isAbove (raise floor j) k = true ↔ isAbove floor k = true ∧ j < k := by
  cases floor with
  | none => simp [raise]
  | some l => simp [raise]

/-- A floor raised to each of some keys: the greatest of them and of the old floor. -/
theorem foldl_raise_some (l : Int) (ks : List Int) : ∃ m, ks.foldl raise (some l) = some m
    ∧ l ≤ m ∧ (∀ k ∈ ks, k ≤ m) ∧ (m = l ∨ m ∈ ks) := by
  induction ks generalizing l with
  | nil => exact ⟨l, rfl, le_refl l, fun k hk => absurd hk List.not_mem_nil, Or.inl rfl⟩
  | cons a t ih =>
      obtain ⟨m, hm, hle, hall, hmem⟩ := ih (max l a)
      refine ⟨m, hm, le_trans (le_max_left l a) hle, ?_, ?_⟩
      · intro k hk
        rcases List.mem_cons.mp hk with rfl | hk
        · exact le_trans (le_max_right l k) hle
        · exact hall k hk
      · rcases hmem with hmax | hmem
        · rcases max_choice l a with h | h
          · exact Or.inl (hmax.trans h)
          · rw [hmax, h]
            exact Or.inr List.mem_cons_self
        · exact Or.inr (List.mem_cons_of_mem a hmem)

/-- An absent floor raised to some keys: the greatest of them. -/
theorem foldl_raise_none {ks : List Int} (h : ks ≠ []) :
    ∃ m, ks.foldl raise none = some m ∧ (∀ k ∈ ks, k ≤ m) ∧ m ∈ ks := by
  cases ks with
  | nil => exact absurd rfl h
  | cons a t =>
      obtain ⟨m, hm, hle, hall, hmem⟩ := foldl_raise_some a t
      refine ⟨m, hm, ?_, ?_⟩
      · intro k hk
        rcases List.mem_cons.mp hk with rfl | hk
        · exact hle
        · exact hall k hk
      · rcases hmem with rfl | hmem
        · exact List.mem_cons_self
        · exact List.mem_cons_of_mem a hmem

variable {α : Type} (key : α → Int)

/-- One pass over a batch: what is accepted, and the floor after it. -/
def keepAbove : Option Int → List α → List α × Option Int
  | floor, [] => ([], floor)
  | floor, a :: t =>
      if isAbove floor (key a) then
        (a :: (keepAbove (some (key a)) t).1, (keepAbove (some (key a)) t).2)
      else keepAbove floor t

/-- Sort a batch by key and accept what is strictly above the floor. -/
def dedup (items : List α) (floor : Option Int) : List α × Option Int :=
  keepAbove key floor (sortOn key items)

variable {key}

theorem keepAbove_snd (floor : Option Int) (l : List α) :
    (keepAbove key floor l).2 = (l.map key).foldl raise floor := by
  induction l generalizing floor with
  | nil => rfl
  | cons a t ih =>
      rw [keepAbove, List.map_cons, List.foldl_cons]
      cases h : isAbove floor (key a) with
      | true => rw [if_pos rfl, raise_of_above h, ← ih]
      | false => rw [if_neg Bool.false_ne_true, raise_of_not_above h, ih]

/-- One item more is accepted if it is above the floor that the others left. -/
theorem keepAbove_concat (floor : Option Int) (l : List α) (a : α) :
    (keepAbove key floor (l ++ [a])).1
      = (keepAbove key floor l).1
        ++ if isAbove (keepAbove key floor l).2 (key a) then [a] else [] := by
  induction l generalizing floor with
  | nil =>
      show (if isAbove floor (key a) then _ else _ : List α × Option Int).1 = _
      cases h : isAbove floor (key a) with
      | true => simp [keepAbove, h]
      | false => simp [keepAbove, h]
  | cons b l ih =>
      rw [List.cons_append, keepAbove, keepAbove]
      cases isAbove floor (key b) with
      | true => simp only [if_pos, ih, List.cons_append]
      | false => exact ih floor

/-- What is accepted comes from the batch and is above the floor. -/
theorem mem_of_mem_keepAbove {floor : Option Int} {l : List α} {a : α}
    (h : a ∈ (keepAbove key floor l).1) : a ∈ l ∧ isAbove floor (key a) = true := by
  induction l generalizing floor with
  | nil => exact absurd h List.not_mem_nil
  | cons b t ih =>
      rw [keepAbove] at h
      cases hb : isAbove floor (key b) with
      | true =>
          rw [hb, if_pos rfl] at h
          rcases List.mem_cons.mp h with rfl | h
          · exact ⟨List.mem_cons_self, hb⟩
          · obtain ⟨hmem, habove⟩ := ih h
            rw [← raise_of_above hb] at habove
            exact ⟨List.mem_cons_of_mem b hmem, (isAbove_raise.mp habove).1⟩
      | false =>
          rw [hb, if_neg Bool.false_ne_true] at h
          obtain ⟨hmem, habove⟩ := ih h
          exact ⟨List.mem_cons_of_mem b hmem, habove⟩

/-- Of a sorted batch every key above the floor is accepted. -/
theorem key_mem_keepAbove {floor : Option Int} {l : List α}
    (hl : l.Pairwise (fun a b => key a ≤ key b)) {k : Int} (hk : k ∈ l.map key)
    (habove : isAbove floor k = true) : k ∈ (keepAbove key floor l).1.map key := by
  induction l generalizing floor with
  | nil => exact absurd hk List.not_mem_nil
  | cons a t ih =>
      obtain ⟨hle, ht⟩ := List.pairwise_cons.mp hl
      rw [keepAbove]
      rcases List.mem_cons.mp hk with rfl | hk
      · rw [if_pos habove]
        exact List.mem_cons_self
      · cases ha : isAbove floor (key a) with
        | true =>
            rw [if_pos rfl]
            by_cases hka : k = key a
            · rw [hka]
              exact List.mem_cons_self
            · obtain ⟨b, hb, rfl⟩ := List.mem_map.mp hk
              -- the batch is sorted, so the raised floor is still below `k`
              have hlt : key a < key b := lt_of_le_of_ne (hle b hb) (Ne.symm hka)
              exact List.mem_cons_of_mem _ (ih ht hk (isAbove_some.mpr hlt))
        | false =>
            rw [if_neg Bool.false_ne_true]
            exact ih ht hk habove

theorem ascending_keepAbove (floor : Option Int) (l : List α) :
    Paging.Ascending key (keepAbove key floor l).1 := by
  induction l generalizing floor with
  | nil => exact List.Pairwise.nil
  | cons a t ih =>
      rw [keepAbove]
      cases isAbove floor (key a) with
      | true =>
          rw [if_pos rfl]
          refine List.Pairwise.cons (fun b hb => ?_) (ih _)
          exact isAbove_some.mp (mem_of_mem_keepAbove hb).2
      | false =>
          rw [if_neg Bool.false_ne_true]
          exact ih floor

instance : RightCommutative raise where
  right_comm floor i j := by
    cases floor with
    | none => exact congrArg some (max_comm i j)
    | some l => exact congrArg some (max_right_comm l i j)

/-- **The floor after a batch**, whatever its order. -/
theorem dedup_snd (items : List α) (floor : Option Int) :
    (dedup key items floor).2 = (items.map key).foldl raise floor := by
  -- raising commutes, so the order of the batch does not matter
  calc (dedup key items floor).2 = ((sortOn key items).map key).foldl raise floor :=
        keepAbove_snd floor _
    _ = (items.map key).foldl raise floor := ((perm_sortOn key items).map key).foldl_eq _

theorem mem_of_mem_dedup {items : List α} {floor : Option Int} {a : α}
    (h : a ∈ (dedup key items floor).1) : a ∈ items ∧ isAbove floor (key a) = true := by
  obtain ⟨hmem, habove⟩ := mem_of_mem_keepAbove h
  exact ⟨mem_sortOn.mp hmem, habove⟩

/-- **What a batch accepts**: its keys above the floor. -/
theorem key_mem_dedup {items : List α} {floor : Option Int} {k : Int} :
    k ∈ (dedup key items floor).1.map key ↔ k ∈ items.map key ∧ isAbove floor k = true := by
  constructor
  · intro h
    obtain ⟨a, ha, rfl⟩ := List.mem_map.mp h
    obtain ⟨hmem, habove⟩ := mem_of_mem_dedup ha
    exact ⟨List.mem_map_of_mem hmem, habove⟩
  · rintro ⟨hk, habove⟩
    have hk' : k ∈ (sortOn key items).map key :=
      ((perm_sortOn key items).map key).mem_iff.mpr hk
    exact key_mem_keepAbove (sortOn_pairwise key items) hk' habove

/-- A batch accepts each key once, in ascending order. -/
theorem ascending_dedup (items : List α) (floor : Option Int) :
    Paging.Ascending key (dedup key items floor).1 :=
  ascending_keepAbove floor _

/-! ## One batch after the other -/

/-- What is accepted of some batches, each deduplicated against the floor the one before left. -/
def dedupAll (key : α → Int) : Option Int → List (List α) → List α
  | _, [] => []
  | floor, b :: bs => (dedup key b floor).1 ++ dedupAll key (dedup key b floor).2 bs

/-- The keys above the floor, each where it comes first. -/
def firsts (floor : Option Int) (ks : List Int) : List Int :=
  (ks.filter (isAbove floor)).eraseDups

theorem dedupAll_append (floor : Option Int) (bs cs : List (List α)) :
    dedupAll key floor (bs ++ cs)
      = dedupAll key floor bs ++ dedupAll key ((bs.flatten.map key).foldl raise floor) cs := by
  induction bs generalizing floor with
  | nil => rfl
  | cons b bs ih =>
      rw [List.cons_append, dedupAll, dedupAll, ih, dedup_snd, List.flatten_cons, List.map_append,
        List.foldl_append, List.append_assoc]

/-- What is above a floor raised to some keys: what is above the floor and above each key. -/
theorem isAbove_foldl_raise {floor : Option Int} {ks : List Int} {k : Int} :
    isAbove (ks.foldl raise floor) k = true ↔ isAbove floor k = true ∧ ∀ j ∈ ks, j < k := by
  induction ks generalizing floor with
  | nil => simp
  | cons j ks ih =>
      rw [List.foldl_cons, ih, isAbove_raise, List.forall_mem_cons, and_assoc]

/-- Two strictly ascending lists with the same members are one list. -/
theorem eq_of_ascending {l l' : List Int} (h : l.Pairwise (· < ·)) (h' : l'.Pairwise (· < ·))
    (hmem : ∀ k, k ∈ l ↔ k ∈ l') : l = l' :=
  ((List.perm_ext_iff_of_nodup h.nodup h'.nodup).mpr hmem).eq_of_pairwise'
    h h'

/-- **The cut into batches does not matter** when the keys above the floor come first in
ascending order: what is accepted is each of them, once. -/
theorem dedupAll_eq_firsts {floor : Option Int} {bs : List (List α)}
    (h : (firsts floor (bs.flatten.map key)).Pairwise (· < ·)) :
    (dedupAll key floor bs).map key = firsts floor (bs.flatten.map key) := by
  induction bs generalizing floor with
  | nil => rfl
  | cons b bs ih =>
      have hsplit : firsts floor ((b :: bs).flatten.map key)
          = firsts floor (b.map key)
            ++ (((bs.flatten.map key).filter (isAbove floor)).removeAll
                ((b.map key).filter (isAbove floor))).eraseDups := by
        rw [firsts, List.flatten_cons, List.map_append, List.filter_append, List.eraseDups_append]
        rfl
      rw [hsplit] at h ⊢
      obtain ⟨hb, hrest, hlt⟩ := List.pairwise_append.mp h
      -- the first batch accepts its keys above the floor
      have hfirst : (dedup key b floor).1.map key = firsts floor (b.map key) := by
        refine eq_of_ascending (List.pairwise_map.mpr (ascending_dedup b floor)) hb (fun k => ?_)
        rw [key_mem_dedup, firsts, List.mem_eraseDups, List.mem_filter]
      -- the others come later, so the raised floor lets the same keys through
      have hfilter : (bs.flatten.map key).filter (isAbove (dedup key b floor).2)
          = ((bs.flatten.map key).filter (isAbove floor)).removeAll
              ((b.map key).filter (isAbove floor)) := by
        rw [dedup_snd, List.removeAll, List.filter_filter]
        refine List.filter_congr (fun k hk => ?_)
        rw [Bool.eq_iff_iff, isAbove_foldl_raise, Bool.and_eq_true, Bool.not_eq_true',
          List.elem_eq_contains, List.contains_eq_mem, decide_eq_false_iff_not]
        constructor
        · rintro ⟨habove, hall⟩
          refine ⟨fun hmem => ?_, habove⟩
          exact lt_irrefl k (hall k (List.mem_filter.mp hmem).1)
        · rintro ⟨hnot, habove⟩
          refine ⟨habove, fun j hj => ?_⟩
          have hlater : k ∈ (((bs.flatten.map key).filter (isAbove floor)).removeAll
              ((b.map key).filter (isAbove floor))).eraseDups := by
            rw [List.mem_eraseDups, List.removeAll, List.mem_filter, List.mem_filter]
            refine ⟨⟨hk, habove⟩, ?_⟩
            rw [Bool.not_eq_true', List.elem_eq_contains, List.contains_eq_mem,
              decide_eq_false_iff_not]
            exact hnot
          cases hj' : isAbove floor j with
          | true =>
              refine hlt j ?_ k hlater
              rw [firsts, List.mem_eraseDups, List.mem_filter]
              exact ⟨hj, hj'⟩
          | false =>
              -- a key at or below the floor is below what is above it
              cases floor with
              | none => cases hj'
              | some l =>
                  have hle : j ≤ l := not_lt.mp (of_decide_eq_false hj')
                  exact lt_of_le_of_lt hle (isAbove_some.mp habove)
      have hnext : firsts (dedup key b floor).2 (bs.flatten.map key)
          = (((bs.flatten.map key).filter (isAbove floor)).removeAll
              ((b.map key).filter (isAbove floor))).eraseDups := by rw [firsts, hfilter]
      rw [dedupAll, List.map_append, hfirst, ih (hnext ▸ hrest), hnext]

/-! ## A floor for each key -/

section

variable {α κ : Type} [DecidableEq κ] (key : α → κ) (id : α → Int)

/-- The floors after some items were offered, with one floor for each key. -/
def floorAfter (floor : κ → Option Int) (l : List α) (k : κ) : Option Int :=
  ((l.filter (fun a => decide (key a = k))).map id).foldl raise (floor k)

variable {key id}

theorem floorAfter_concat (floor : κ → Option Int) (l : List α) (a : α) :
    floorAfter key id floor (l ++ [a])
      = Function.update (floorAfter key id floor l) (key a)
        (raise (floorAfter key id floor l (key a)) (id a)) := by
  funext k
  rw [floorAfter, List.filter_append, List.map_append, List.foldl_append]
  by_cases hk : k = key a
  · subst hk
    rw [Function.update_self, List.filter_cons, if_pos (decide_eq_true rfl)]
    rfl
  · rw [Function.update_of_ne hk, List.filter_cons_of_neg (by simpa using Ne.symm hk)]
    rfl

theorem eraseDups_concat [DecidableEq α] (l : List α) (a : α) :
    (l ++ [a]).eraseDups = if a ∈ l then l.eraseDups else l.eraseDups ++ [a] := by
  rw [List.eraseDups_append]
  by_cases ha : a ∈ l
  · rw [if_pos ha]
    simp [List.removeAll, ha]
  · rw [if_neg ha]
    have hone : [a].removeAll l = [a] := by simp [List.removeAll, ha]
    rw [hone, List.eraseDups_cons, List.filter_nil, List.eraseDups_nil]

/-- **Redelivery.** When the items of a key come first in ascending order, an item above the first
floor of its key is accepted where it comes first, and never again. -/
theorem isAbove_floorAfter [DecidableEq α] {floor : κ → Option Int} {l t : List α} {a : α}
    (hfloor : isAbove (floor (key a)) (id a) = true)
    (hasc : (l ++ a :: t).eraseDups.Pairwise (fun a b => key a = key b → id a < id b)) :
    isAbove (floorAfter key id floor l (key a)) (id a) = true ↔ a ∉ l := by
  constructor
  · intro habove ha
    have hlt := (isAbove_foldl_raise.mp habove).2 (id a) (List.mem_map_of_mem
      (List.mem_filter.mpr ⟨ha, decide_eq_true rfl⟩))
    exact lt_irrefl _ hlt
  · intro ha
    refine isAbove_foldl_raise.mpr ⟨hfloor, fun j hj => ?_⟩
    obtain ⟨b, hb, rfl⟩ := List.mem_map.mp hj
    obtain ⟨hb, hkey⟩ := List.mem_filter.mp hb
    have hsplit : l ++ a :: t = (l ++ [a]) ++ t := by simp
    rw [hsplit, List.eraseDups_append, eraseDups_concat, if_neg ha, List.append_assoc] at hasc
    refine (List.pairwise_append.mp hasc).2.2 b (List.mem_eraseDups.mpr hb) a ?_
      (of_decide_eq_true hkey)
    exact List.mem_append_left _ (List.mem_singleton_self a)

end

/-! ## A stream of batches -/

/-- A consumer seen from outside: what waits, the keys it handed on, and its floor. -/
structure Stream (α : Type) where
  pending : List α
  handed : List Int
  floor : Option Int

/-- Between two states of a consumer `new` arrived, and some batches were taken from the front
of what waited and deduplicated one after the other. -/
def Takes (key : α → Int) (x y : Stream α) (new : List α) : Prop :=
  ∃ bs : List (List α), x.pending ++ new = bs.flatten ++ y.pending
    ∧ y.handed = x.handed ++ (dedupAll key x.floor bs).map key
    ∧ y.floor = (bs.flatten.map key).foldl raise x.floor

namespace Takes

variable {x y z : Stream α} {new new' : List α}

/-- What arrives waits. -/
theorem arrive (hpending : y.pending = x.pending ++ new) (hhanded : y.handed = x.handed)
    (hfloor : y.floor = x.floor) : Takes key x y new := by
  refine ⟨[], hpending.symm, ?_, hfloor⟩
  rw [hhanded]
  exact (List.append_nil _).symm

/-- Nothing arrives and nothing is taken. -/
theorem rest (hpending : y.pending = x.pending) (hhanded : y.handed = x.handed)
    (hfloor : y.floor = x.floor) : Takes key x y [] :=
  arrive (hpending.trans (List.append_nil _).symm) hhanded hfloor

/-- One batch is taken. -/
theorem batch {b : List α} (hpending : x.pending = b ++ y.pending)
    (hhanded : y.handed = x.handed ++ (dedup key b x.floor).1.map key)
    (hfloor : y.floor = (b.map key).foldl raise x.floor) : Takes key x y [] := by
  refine ⟨[b], ?_, ?_, ?_⟩
  · rw [List.append_nil, List.flatten_singleton, hpending]
  · rw [hhanded, dedupAll, dedupAll, List.append_nil]
  · rw [hfloor, List.flatten_singleton]

theorem trans (h : Takes key x y new) (h' : Takes key y z new') :
    Takes key x z (new ++ new') := by
  obtain ⟨bs, hpending, hhanded, hfloor⟩ := h
  obtain ⟨cs, hpending', hhanded', hfloor'⟩ := h'
  refine ⟨bs ++ cs, ?_, ?_, ?_⟩
  · calc x.pending ++ (new ++ new') = bs.flatten ++ (y.pending ++ new') := by
          rw [← List.append_assoc, hpending, List.append_assoc]
      _ = (bs ++ cs).flatten ++ z.pending := by
          rw [hpending', List.flatten_append, List.append_assoc]
  · rw [hhanded', hhanded, hfloor, dedupAll_append, List.map_append, List.append_assoc]
  · rw [hfloor', hfloor, List.flatten_append, List.map_append, List.foldl_append]

/-- **Whatever the batches**: a consumer that had nothing waiting and has nothing waiting now
handed on each new key above its floor once, if these came first in ascending order. -/
theorem handed_eq (h : Takes key x y new) (hx : x.pending = []) (hy : y.pending = [])
    (hasc : (firsts x.floor (new.map key)).Pairwise (· < ·)) :
    y.handed = x.handed ++ firsts x.floor (new.map key) := by
  obtain ⟨bs, hpending, hhanded, -⟩ := h
  rw [hx, hy, List.nil_append, List.append_nil] at hpending
  subst hpending
  rw [hhanded, dedupAll_eq_firsts hasc]

end Takes

end Dedup
