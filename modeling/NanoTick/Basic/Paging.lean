import Mathlib.Data.List.Basic
import Mathlib.Tactic

set_option autoImplicit false

/-! # Reading an ascending list page by page

A server holds rows in strictly ascending order of an integer key and answers a request from
key `f` with the first `n` rows at or above `f` (`page`). A reader that goes on from one past
the last key it got sees every row once: what follows a page in the list is what the next
request can return (`above_last`). Restricting the rows to a lower set commutes with taking a
page (`filter_take`).
-/

namespace Paging

variable {α : Type} (key : α → Int)

/-- Strictly ascending keys. -/
def Ascending (l : List α) : Prop := l.Pairwise (fun a b => key a < key b)

/-- The rows at or above `f`. -/
def above (f : Int) (l : List α) : List α := l.filter (fun a => decide (f ≤ key a))

/-- The answer to a request for `n` rows from key `f`. -/
def page (n : Nat) (f : Int) (l : List α) : List α := (above key f l).take n

variable {key}

theorem mem_above {f : Int} {l : List α} {a : α} : a ∈ above key f l ↔ a ∈ l ∧ f ≤ key a := by
  rw [above, List.mem_filter, decide_eq_true_eq]

theorem Ascending.filter {l : List α} (h : Ascending key l) (p : α → Bool) :
    Ascending key (l.filter p) :=
  List.Pairwise.filter p h

theorem Ascending.above {l : List α} (h : Ascending key l) (f : Int) :
    Ascending key (above key f l) :=
  h.filter _

/-- Requests nest: the rows above the later of two keys. -/
theorem above_above {f g : Int} (h : f ≤ g) (l : List α) :
    above key g (above key f l) = above key g l := by
  unfold above
  rw [List.filter_filter]
  refine List.filter_congr (fun a _ => ?_)
  rw [← Bool.decide_and]
  exact decide_eq_decide.mpr ⟨fun hg => hg.1, fun hg => ⟨hg, le_trans h hg⟩⟩

theorem above_filter (f : Int) (p : α → Bool) (l : List α) :
    above key f (l.filter p) = (above key f l).filter p :=
  List.filter_comm _ _ _

/-- A lower set of an ascending list is a prefix, so it can be cut before or after a page. -/
theorem filter_take {l : List α} (h : Ascending key l) {p : α → Bool}
    (hp : ∀ a b, key a < key b → p b = true → p a = true) (n : Nat) :
    (l.take n).filter p = (l.filter p).take n := by
  induction l generalizing n with
  | nil => rw [List.take_nil, List.filter_nil, List.take_nil]
  | cons a t ih =>
      obtain ⟨hlt, ht⟩ := List.pairwise_cons.mp h
      cases n with
      | zero => rfl
      | succ n =>
          rw [List.take_succ_cons]
          cases hpa : p a with
          | true =>
              rw [List.filter_cons_of_pos hpa, List.filter_cons_of_pos hpa, List.take_succ_cons,
                ih ht]
          | false =>
              -- nothing after `a` is in the lower set either
              have hnone : t.filter p = [] := by
                rw [List.filter_eq_nil_iff]
                intro b hb hpb
                rw [hp a b (hlt b hb) hpb] at hpa
                cases hpa
              rw [List.filter_cons_of_neg (by rw [hpa]; exact Bool.false_ne_true),
                List.filter_cons_of_neg (by rw [hpa]; exact Bool.false_ne_true), ih ht, hnone,
                List.take_nil, List.take_nil]

/-- Of ascending rows the last one has the greatest key. -/
theorem Ascending.le_last {l : List α} (h : Ascending key l) {x : α} (hx : l.getLast? = some x)
    {a : α} (ha : a ∈ l) : key a ≤ key x := by
  obtain ⟨ys, rfl⟩ := List.getLast?_eq_some_iff.mp hx
  rcases List.mem_append.mp ha with ha | ha
  · exact ((List.pairwise_append.mp h).2.2 a ha x (List.mem_singleton_self x)).le
  · rw [List.mem_singleton.mp ha]

/-- **The next request.** The rows past the last one of a prefix are the rest of the list. -/
theorem above_last {l : List α} (h : Ascending key l) {n : Nat} {x : α}
    (hx : (l.take n).getLast? = some x) : above key (key x + 1) l = l.drop n := by
  have hmem : x ∈ l.take n := List.mem_of_getLast? hx
  have hsplit : (l.take n ++ l.drop n).Pairwise (fun a b => key a < key b) := by
    rwa [List.take_append_drop]
  obtain ⟨htake, -, hcross⟩ := List.pairwise_append.mp hsplit
  have hlow : above key (key x + 1) (l.take n) = [] := by
    rw [above, List.filter_eq_nil_iff]
    intro a ha hle
    have hle : key x + 1 ≤ key a := of_decide_eq_true hle
    have hlast : key a ≤ key x := Ascending.le_last htake hx ha
    omega
  have hhigh : above key (key x + 1) (l.drop n) = l.drop n := by
    rw [above, List.filter_eq_self]
    intro a ha
    exact decide_eq_true (Int.add_one_le_iff.mpr (hcross x hmem a ha))
  calc above key (key x + 1) l
      = above key (key x + 1) (l.take n ++ l.drop n) := by rw [List.take_append_drop]
    _ = above key (key x + 1) (l.take n) ++ above key (key x + 1) (l.drop n) :=
        List.filter_append _ _
    _ = l.drop n := by rw [hlow, hhigh, List.nil_append]

end Paging
