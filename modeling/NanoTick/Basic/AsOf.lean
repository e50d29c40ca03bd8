import NanoTick.Basic.Grouping
import Mathlib.Tactic

set_option autoImplicit false

/-! # The row in force at a time

`asOf` looks a key up as of a time: the last row of the key that is not later. In rows sorted by
time it is the latest such row, and of several of one time the one that stood last before sorting
(`asOf_sortOn`); rows later than the time do not matter (`asOf_congr`).
-/

namespace AsOf

open Grouping

variable {ρ κ τ : Type} [DecidableEq κ] [LinearOrder τ]

/-- The last row of the key `k` not later than `t`. -/
def asOf (key : ρ → κ) (time : ρ → τ) (l : List ρ) (k : κ) (t : τ) : Option ρ :=
  (l.filter (fun r => decide (key r = k ∧ time r ≤ t))).getLast?

/-- Of the rows of the key `k` not later than `t`, `r` is the latest and stands last: those
before it are not later than `r`, those after it are earlier. -/
structure InForce (key : ρ → κ) (time : ρ → τ) (l : List ρ) (k : κ) (t : τ) (r : ρ) : Prop where
  key_eq : key r = k
  le : time r ≤ t
  split : ∃ a b, l = a ++ r :: b ∧ (∀ x ∈ a, key x = k → time x ≤ t → time x ≤ time r)
    ∧ ∀ x ∈ b, key x = k → time x ≤ t → time x < time r

section

variable {key : ρ → κ} {time : ρ → τ} {l : List ρ} {k : κ} {t : τ} {r : ρ}

theorem asOf_eq_none : asOf key time l k t = none ↔ ∀ x ∈ l, key x = k → t < time x := by
  rw [asOf, List.getLast?_eq_none_iff, List.filter_eq_nil_iff]
  refine forall₂_congr (fun x _ => ?_)
  rw [decide_eq_true_eq, not_and, not_le]

/-- Later rows do not matter. -/
theorem asOf_congr {l' : List ρ} {u : τ} (ht : t ≤ u)
    (h : l.filter (fun x => decide (key x = k ∧ time x ≤ u))
      = l'.filter (fun x => decide (key x = k ∧ time x ≤ u))) :
    asOf key time l k t = asOf key time l' k t := by
  have hearlier : ∀ m : List ρ, m.filter (fun x => decide (key x = k ∧ time x ≤ t))
      = (m.filter (fun x => decide (key x = k ∧ time x ≤ u))).filter
          (fun x => decide (time x ≤ t)) := by
    intro m
    rw [List.filter_filter]
    refine List.filter_congr (fun x _ => ?_)
    rw [← Bool.decide_and]
    exact decide_eq_decide.mpr
      ⟨fun hx => ⟨hx.2, hx.1, hx.2.trans ht⟩, fun hx => ⟨hx.2.1, hx.1⟩⟩
  rw [asOf, asOf, hearlier l, hearlier l', h]

/-- The key and the time decide, whatever else was filtered by the key before. -/
theorem asOf_filter_key : asOf key time (l.filter (fun x => decide (key x = k))) k t
    = asOf key time l k t := by
  rw [asOf, asOf, List.filter_filter]
  congr 1
  refine List.filter_congr (fun x _ => ?_)
  rw [← Bool.decide_and]
  exact decide_eq_decide.mpr ⟨fun hx => hx.1, fun hx => ⟨hx, hx.1⟩⟩

/-- In rows in time order, the last row of a later part of those not later than `t`. -/
theorem asOf_eq_of_last (hl : l.Pairwise (fun a b => time a ≤ time b)) {p : ρ → Bool}
    (hp : ∀ x, p x = true → key x = k ∧ time x ≤ t)
    (hlater : ∀ x ∈ l, key x = k → time x ≤ t → time r ≤ time x → p x = true)
    (hr : (l.filter p).getLast? = some r) : asOf key time l k t = some r := by
  obtain ⟨c, hc⟩ := List.getLast?_eq_some_iff.mp hr
  obtain ⟨a, rest, rfl, -, hrest⟩ := List.filter_eq_append_iff.mp hc
  obtain ⟨a', b, rfl, -, hpr, hb⟩ := List.filter_eq_cons_iff.mp hrest
  have hsplit : a ++ (a' ++ r :: b) = (a ++ a') ++ r :: b := (List.append_assoc _ _ _).symm
  rw [hsplit] at hl hlater ⊢
  obtain ⟨-, hrb, -⟩ := List.pairwise_append.mp hl
  -- no row after `r` is of the part, so none of them counts
  have hnone : b.filter (fun x => decide (key x = k ∧ time x ≤ t)) = [] := by
    refine List.filter_eq_nil_iff.mpr (fun x hx hx' => ?_)
    obtain ⟨hkey, hle⟩ := of_decide_eq_true hx'
    have hpx := hlater x (List.mem_append_right _ (List.mem_cons_of_mem r hx)) hkey hle
      ((List.pairwise_cons.mp hrb).1 x hx)
    exact absurd hpx (List.filter_eq_nil_iff.mp hb x hx)
  rw [asOf, List.filter_append, List.filter_cons, if_pos (decide_eq_true (hp r hpr)), hnone]
  exact List.getLast?_concat

/-! ## In sorted rows -/

/-- The last row of a sorted list with one row more. -/
theorem getLast?_orderedInsert {x z : ρ} {m : List ρ}
    (hm : m.Pairwise (fun a b => time a ≤ time b)) (hz : m.getLast? = some z) :
    (m.orderedInsert (fun a b => time a ≤ time b) x).getLast?
      = some (if time z < time x then x else z) := by
  induction m with
  | nil => cases hz
  | cons y m ih =>
      obtain ⟨hle, hm⟩ := List.pairwise_cons.mp hm
      have hyz : time y ≤ time z := by
        rcases List.mem_cons.mp (List.mem_of_getLast? hz) with rfl | hmem
        · exact le_refl _
        · exact hle z hmem
      rw [List.orderedInsert_cons]
      by_cases hxy : time x ≤ time y
      · rw [if_pos hxy, if_neg (not_lt.mpr (hxy.trans hyz)), List.getLast?_cons_cons, hz]
      · rw [if_neg hxy]
        cases m with
        | nil =>
            obtain rfl : y = z := Option.some.inj hz
            rw [if_pos (not_le.mp hxy)]
            rfl
        | cons w m =>
            rw [List.getLast?_cons_cons] at hz
            obtain ⟨v, vs, hvs⟩ : ∃ v vs,
                (w :: m).orderedInsert (fun a b => time a ≤ time b) x = v :: vs := by
              rw [List.orderedInsert_cons]
              split
              · exact ⟨_, _, rfl⟩
              · exact ⟨_, _, rfl⟩
            rw [← ih hm hz, hvs, List.getLast?_cons_cons]

/-- **The last row of a sorted list**: the last of the latest. -/
theorem getLast?_sortOn {m : List ρ} {z : ρ} (hz : (sortOn time m).getLast? = some z) :
    ∃ a b, m = a ++ z :: b ∧ (∀ x ∈ a, time x ≤ time z) ∧ ∀ x ∈ b, time x < time z := by
  induction m generalizing z with
  | nil => cases hz
  | cons x m ih =>
      cases hm : (sortOn time m).getLast? with
      | none =>
          have hnil : m = [] := by
            have hperm := perm_sortOn time m
            rw [List.getLast?_eq_none_iff.mp hm] at hperm
            exact List.nil_perm.mp hperm
          subst hnil
          cases hz
          exact ⟨[], [], rfl, fun _ h => absurd h List.not_mem_nil,
            fun _ h => absurd h List.not_mem_nil⟩
      | some y =>
          have hlast : (sortOn time (x :: m)).getLast? = _ :=
            getLast?_orderedInsert (x := x) (sortOn_pairwise time m) hm
          obtain ⟨a, b, hsplit, ha, hb⟩ := ih hm
          rw [hlast, Option.some.injEq] at hz
          by_cases hxy : time y < time x
          · rw [if_pos hxy] at hz
            subst hz
            refine ⟨[], m, rfl, fun _ h => absurd h List.not_mem_nil, fun w hw => ?_⟩
            rw [hsplit] at hw
            rcases List.mem_append.mp hw with hw | hw
            · exact lt_of_le_of_lt (ha w hw) hxy
            · rcases List.mem_cons.mp hw with rfl | hw
              · exact hxy
              · exact (hb w hw).trans hxy
          · rw [if_neg hxy] at hz
            subst hz
            refine ⟨x :: a, b, by rw [hsplit]; rfl, fun w hw => ?_, hb⟩
            rcases List.mem_cons.mp hw with rfl | hw
            · exact not_lt.mp hxy
            · exact ha w hw

/-- A split of the rows that pass is a split of all. -/
theorem exists_split_of_filter {p : ρ → Bool} {a b : List ρ} (h : l.filter p = a ++ r :: b) :
    ∃ a' b', l = a' ++ r :: b' ∧ (∀ x ∈ a', p x = true → x ∈ a)
      ∧ ∀ x ∈ b', p x = true → x ∈ b := by
  obtain ⟨a', rest, hl, ha, hrest⟩ := List.filter_eq_append_iff.mp h
  obtain ⟨c, b', hrest', hc, hr, hb⟩ := List.filter_eq_cons_iff.mp hrest
  refine ⟨a' ++ c, b', by rw [hl, hrest', List.append_assoc], fun x hx hp => ?_, fun x hx hp => ?_⟩
  · rcases List.mem_append.mp hx with hx | hx
    · rw [← ha]
      exact List.mem_filter.mpr ⟨hx, hp⟩
    · exact absurd hp (hc x hx)
  · rw [← hb]
    exact List.mem_filter.mpr ⟨hx, hp⟩

/-- **In rows sorted by time** the row found is the one in force before sorting. -/
theorem asOf_sortOn (hr : asOf key time (sortOn time l) k t = some r) :
    InForce key time l k t r := by
  rw [asOf, filter_sortOn] at hr
  have hmem : r ∈ l.filter (fun x => decide (key x = k ∧ time x ≤ t)) :=
    mem_sortOn.mp (List.mem_of_getLast? hr)
  obtain ⟨hkey, hle⟩ := of_decide_eq_true (List.mem_filter.mp hmem).2
  obtain ⟨a, b, hsplit, ha, hb⟩ := getLast?_sortOn hr
  obtain ⟨a', b', hl, ha', hb'⟩ := exists_split_of_filter hsplit
  exact ⟨hkey, hle, a', b', hl, fun x hx hk ht => ha x (ha' x hx (decide_eq_true ⟨hk, ht⟩)),
    fun x hx hk ht => hb x (hb' x hx (decide_eq_true ⟨hk, ht⟩))⟩

end

end AsOf
