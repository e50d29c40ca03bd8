import NanoTick.Basic.Dedup
import NanoTick.Basic.Runs
import Mathlib.Tactic

set_option autoImplicit false

/-! # A session that delivers at least once

A broker keeps the items of a subscriber until they are acknowledged, hands them out in order, and
after a reconnect starts again with the oldest one. So whenever the connection breaks, the items
delivered, each where it comes first, are the first of those accepted, in their order, and among
them are all that were acknowledged (`InOrder`).
-/

namespace AtLeastOnce

/-- The items accepted for the subscriber, how many of them are acknowledged, how many after those
were handed out on this connection, and what was delivered so far. -/
structure Session (α : Type) where
  accepted : List α
  acked : Nat
  sent : Nat
  delivered : List α

inductive Action (α : Type) where
  | accept (a : α)
  | deliver
  | ack
  | reconnect

variable {α : Type}

namespace Session

def start : Session α := ⟨[], 0, 0, []⟩

/-- The item that is handed out next. -/
def next (s : Session α) : Option α := s.accepted[s.acked + s.sent]?

def step (s : Session α) : Action α → Option (Session α)
  | .accept a => some { s with accepted := s.accepted ++ [a] }
  | .deliver => s.next.map (fun a =>
      { s with sent := s.sent + 1, delivered := s.delivered ++ [a] })
  | .ack => if 0 < s.sent then some { s with acked := s.acked + 1, sent := s.sent - 1 } else none
  | .reconnect => some { s with sent := 0 }

/-- Nothing is left to hand out or to acknowledge. -/
def Drained (s : Session α) : Prop := s.acked = s.accepted.length

/-- An item of the list is not among those before it when none comes twice. -/
theorem not_mem_take {l : List α} (hl : l.Nodup) {k : Nat} {a : α} (hk : l[k]? = some a) :
    a ∉ l.take k := by
  obtain ⟨hlt, rfl⟩ := List.getElem?_eq_some_iff.mp hk
  intro hmem
  obtain ⟨j, hj, heq⟩ := List.mem_take_iff_getElem.mp hmem
  have hjk : j = k := (List.Nodup.getElem_inj_iff hl).mp heq
  omega

/-- What a delivery leaves. -/
theorem deliver_eq {s t : Session α} {a : α} (hnext : s.next = some a)
    (hstep : s.step .deliver = some t) : t.accepted = s.accepted
      ∧ t.delivered = s.delivered ++ [a] := by
  rw [step, hnext] at hstep
  cases hstep
  exact ⟨rfl, rfl⟩

/-- An acknowledgement leaves the items. -/
theorem ack_eq {s t : Session α} (hstep : s.step .ack = some t) :
    t.accepted = s.accepted ∧ t.delivered = s.delivered := by
  rw [step] at hstep
  split at hstep
  · cases hstep
    exact ⟨rfl, rfl⟩
  · cases hstep

/-- The items delivered are the first `k` accepted. -/
structure InOrder [DecidableEq α] (s : Session α) (k : Nat) : Prop where
  firsts : s.delivered.eraseDups = s.accepted.take k
  le_length : k ≤ s.accepted.length
  handed_le : s.acked + s.sent ≤ k

variable [DecidableEq α]

theorem inOrder_start : InOrder (start : Session α) 0 := ⟨rfl, le_refl 0, le_refl 0⟩

/-- **Every step** keeps the order, if no item is accepted twice. -/
theorem inOrder_step {s t : Session α} {a : Action α} (h : ∃ k, InOrder s k)
    (hnodup : t.accepted.Nodup) (hstep : s.step a = some t) : ∃ k, InOrder t k := by
  obtain ⟨k, hk⟩ := h
  have hhanded := hk.handed_le
  have hlen := hk.le_length
  cases a with
  | accept a =>
      cases hstep
      refine ⟨k, ?_, ?_, hhanded⟩
      · rw [List.take_append_of_le_length hlen]
        exact hk.firsts
      · rw [List.length_append]
        omega
  | deliver =>
      obtain ⟨a, hnext, rfl⟩ := Option.map_eq_some_iff.mp hstep
      have hlt : s.acked + s.sent < s.accepted.length := (List.getElem?_eq_some_iff.mp hnext).1
      by_cases hold : s.acked + s.sent < k
      · -- handed out before, on an earlier connection
        have hmem : a ∈ s.delivered := by
          rw [← List.mem_eraseDups, hk.firsts, List.mem_iff_getElem?]
          exact ⟨s.acked + s.sent, (List.getElem?_take_of_lt hold).trans hnext⟩
        refine ⟨k, ?_, hlen, ?_⟩
        · rw [Dedup.eraseDups_concat, if_pos hmem]
          exact hk.firsts
        · dsimp only
          omega
      · obtain rfl : k = s.acked + s.sent := by omega
        have hnew : a ∉ s.delivered := by
          rw [← List.mem_eraseDups, hk.firsts]
          exact not_mem_take hnodup hnext
        refine ⟨s.acked + s.sent + 1, ?_, hlt, ?_⟩
        · show _ = s.accepted.take (s.acked + s.sent + 1)
          have hlast : s.accepted[s.acked + s.sent]? = some a := hnext
          rw [Dedup.eraseDups_concat, if_neg hnew, hk.firsts, List.take_add_one, hlast]
          rfl
        · dsimp only
          omega
  | ack =>
      rw [step] at hstep
      split at hstep
      · cases hstep
        refine ⟨k, hk.firsts, hlen, ?_⟩
        dsimp only
        omega
      · cases hstep
  | reconnect =>
      cases hstep
      refine ⟨k, hk.firsts, hlen, ?_⟩
      dsimp only
      omega

/-- **What is delivered**, each item where it comes first: the first ones accepted, all that were
acknowledged among them, and all of them when nothing is left. -/
theorem InOrder.all {s : Session α} {k : Nat} (h : InOrder s k) (hdrained : s.Drained) :
    s.delivered.eraseDups = s.accepted := by
  have hhanded := h.handed_le
  have hlen := h.le_length
  have hk : k = s.accepted.length := by
    unfold Drained at hdrained
    omega
  rw [h.firsts, hk, List.take_length]

end Session

end AtLeastOnce
