import NanoTick.Basic.Python
import Mathlib.Tactic

set_option autoImplicit false

/-! # The TCP sink

`TcpSink` (`ingest/src/sinks/tcp.py`) forwards messages to a consumer over TCP. A message is
encoded with its sequence number, queued in `unsent`, moved to `unacked` when it is written,
and forgotten when the consumer acknowledges it. Both deques together are capped in bytes;
at the cap the oldest messages are evicted.

This module has the sink's own steps: each is what one task does between two awaits. Their
interleavings are in `Delivery`.
-/

namespace NanoTick

open Python

/-- `ENTRY_OVERHEAD_BYTES`. -/
def entryOverheadBytes : Int := 120

/-- An entry of a deque: the sequence number and the encoded line. -/
structure Entry where
  seq : Nat
  line : List UInt8
  deriving DecidableEq, Repr

/-- What an entry counts against the cap. -/
def Entry.cost (e : Entry) : Int := e.line.length + entryOverheadBytes

structure TcpSink where
  maxBufferBytes : Int
  unsent : List Entry
  unacked : List Entry
  bufferedBytes : Int
  nextSeq : Nat
  hasData : Bool
  dropped : Nat
  deriving DecidableEq, Repr

namespace TcpSink

/-- `__init__`. -/
def init (maxBufferBytes : Int) : TcpSink := ⟨maxBufferBytes, [], [], 0, 1, false, 0⟩

/-- Everything buffered, oldest first. -/
def queue (s : TcpSink) : List Entry := s.unacked ++ s.unsent

/-! ## `send` -/

/-- What the eviction loop leaves: the deques, the two counters, the entries it popped, and
the exception of a pop from an empty deque. -/
structure Eviction where
  unacked : List Entry
  unsent : List Entry
  bufferedBytes : Int
  dropped : Nat
  popped : List Entry
  raised : Option PyErr

/-- The eviction loop of `send`: pop the oldest entry while the cap is exceeded. -/
def evict (max : Int) : List Entry → List Entry → Int → Nat → Eviction
  | e :: ua, us, bytes, dropped =>
      if max < bytes then
        let v := evict max ua us (bytes - e.cost) (dropped + 1)
        { v with popped := e :: v.popped }
      else ⟨e :: ua, us, bytes, dropped, [], none⟩
  | [], e :: us, bytes, dropped =>
      if max < bytes then
        let v := evict max [] us (bytes - e.cost) (dropped + 1)
        { v with popped := e :: v.popped }
      else ⟨[], e :: us, bytes, dropped, [], none⟩
  -- both deques empty and still above the cap: `popleft` raises
  | [], [], bytes, dropped =>
      if max < bytes then ⟨[], [], bytes, dropped, [], some .indexError⟩
      else ⟨[], [], bytes, dropped, [], none⟩

/-- `send`, for an encoder `dumps` of the message with its sequence number. The second
component lists the entries evicted. An encoder that raises leaves the sink as it was; the
event is set unless the eviction loop raised. -/
def send {μ : Type} (dumps : Nat → μ → Except PyErr (List UInt8)) (s : TcpSink) (message : μ) :
    TcpSink × List Entry × Option PyErr :=
  match dumps s.nextSeq message with
  | .error e => (s, [], some e)
  | .ok bytes =>
      let entry : Entry := ⟨s.nextSeq, bytes ++ [10]⟩
      let v := evict s.maxBufferBytes s.unacked (s.unsent ++ [entry])
        (s.bufferedBytes + entry.cost) s.dropped
      ({ s with
          unacked := v.unacked, unsent := v.unsent, bufferedBytes := v.bufferedBytes
          nextSeq := s.nextSeq + 1, dropped := v.dropped
          hasData := if v.raised = none then true else s.hasData },
        v.popped, v.raised)

/-! ## `_run` on a new connection -/

/-- `deque.extendleft`: each element of `xs` goes to the front in turn. -/
def extendleft {α : Type} (d xs : List α) : List α := xs.foldl (fun d x => x :: d) d

/-- What was written but never acknowledged goes back to the front of the queue. -/
def requeue (s : TcpSink) : TcpSink :=
  let unsent := extendleft s.unsent s.unacked.reverse
  { s with unsent := unsent, unacked := [], hasData := !unsent.isEmpty || s.hasData }

/-! ## `_send_loop` -/

/-- One pass of `_send_loop` to its next await: write the oldest unsent entry, or clear the
event and wait. The second component is the entry written. -/
def sendPass (s : TcpSink) : TcpSink × Option Entry :=
  match s.unsent with
  | [] => ({ s with hasData := false }, none)
  | entry :: us => ({ s with unsent := us, unacked := s.unacked ++ [entry] }, some entry)

/-! ## `_ack_loop` -/

/-- The loop over an acknowledgement: pop while the oldest written entry is covered. -/
def popAcked (ack : Json) : List Entry → Int → List Entry × Int × Option PyErr
  | [], bytes => ([], bytes, none)
  | e :: ua, bytes =>
      match ack.ge e.seq with
      | .error er => (e :: ua, bytes, some er)
      | .ok true => popAcked ack ua (bytes - e.cost)
      | .ok false => (e :: ua, bytes, none)

/-- A line from the consumer, as `json.loads` gives it. -/
abbrev Reply : Type := Except PyErr Json

/-- The number a line acknowledges, if it is one. -/
def ackOf (r : Reply) : Option PyNum :=
  match r.bind (fun j => j.index "ack") with
  | .ok ack => ack.asNum
  | .error _ => none

/-- The exceptions `_ack_loop` catches around the decoding of a line. -/
def ignoredByAckLoop (e : PyErr) : Bool :=
  e = .jsonDecodeError ∨ e = .keyError ∨ e = .typeError

/-- One line handled by `_ack_loop`, given what `json.loads` makes of it. The second component
is the exception that ends the loop, if one does. -/
def ackLine (s : TcpSink) (loaded : Reply) : TcpSink × Option PyErr :=
  match loaded.bind (fun j => j.index "ack") with
  -- what is not caught here ends the loop, and with it the connection
  | .error e => (s, if ignoredByAckLoop e then none else some e)
  | .ok ack =>
      let (unacked, bytes, raised) := popAcked ack s.unacked s.bufferedBytes
      ({ s with unacked := unacked, bufferedBytes := bytes }, raised)

/-! ## What each step does to the queue -/

theorem extendleft_reverse {α : Type} (d xs : List α) : extendleft d xs.reverse = xs ++ d := by
  unfold extendleft
  induction xs with
  | nil => rfl
  | cons x xs ih => rw [List.reverse_cons, List.foldl_append, ih, List.foldl_cons,
      List.foldl_nil, List.cons_append]

theorem requeue_unsent (s : TcpSink) : s.requeue.unsent = s.queue := extendleft_reverse _ _

@[simp] theorem requeue_unacked (s : TcpSink) : s.requeue.unacked = [] := rfl

theorem requeue_queue (s : TcpSink) : s.requeue.queue = s.queue := by
  rw [queue, requeue_unacked, requeue_unsent, List.nil_append]

/-- **Eviction.** The loop pops a prefix of the queue and counts it. -/
theorem evict_spec (max : Int) (ua us : List Entry) (bytes : Int) (dropped : Nat) :
    ua ++ us = (evict max ua us bytes dropped).popped
        ++ ((evict max ua us bytes dropped).unacked ++ (evict max ua us bytes dropped).unsent)
      ∧ (evict max ua us bytes dropped).dropped
        = dropped + (evict max ua us bytes dropped).popped.length
      ∧ (evict max ua us bytes dropped).unacked <:+ ua
      ∧ (evict max ua us bytes dropped).unsent <:+ us := by
  induction ua, us, bytes, dropped using evict.induct max with
  | case1 e ua us bytes dropped hcap ih =>
      obtain ⟨hq, hd, hua, hus⟩ := ih
      rw [evict, if_pos hcap]
      refine ⟨?_, ?_, hua.trans (List.suffix_cons e ua), hus⟩
      · exact congrArg (e :: ·) hq
      · rw [hd, List.length_cons]
        omega
  | case2 e ua us bytes dropped hcap =>
      rw [evict, if_neg hcap]
      exact ⟨rfl, rfl, List.suffix_refl _, List.suffix_refl _⟩
  | case3 e us bytes dropped hcap ih =>
      obtain ⟨hq, hd, hua, hus⟩ := ih
      rw [evict, if_pos hcap]
      refine ⟨?_, ?_, hua, hus.trans (List.suffix_cons e us)⟩
      · exact congrArg (e :: ·) hq
      · rw [hd, List.length_cons]
        omega
  | case4 e us bytes dropped hcap =>
      rw [evict, if_neg hcap]
      exact ⟨rfl, rfl, List.suffix_refl _, List.suffix_refl _⟩
  | case5 bytes dropped hcap =>
      rw [evict, if_pos hcap]
      exact ⟨rfl, rfl, List.suffix_refl _, List.suffix_refl _⟩
  | case6 bytes dropped hcap =>
      rw [evict, if_neg hcap]
      exact ⟨rfl, rfl, List.suffix_refl _, List.suffix_refl _⟩

/-- **The loop ends** within the cap, or it raises: nothing is left to pop. -/
theorem evict_ends (max : Int) (ua us : List Entry) (bytes : Int) (dropped : Nat) :
    ((evict max ua us bytes dropped).raised = none
        ∧ (evict max ua us bytes dropped).bufferedBytes ≤ max)
      ∨ ((evict max ua us bytes dropped).unacked = []
        ∧ (evict max ua us bytes dropped).unsent = []
        ∧ max < (evict max ua us bytes dropped).bufferedBytes) := by
  induction ua, us, bytes, dropped using evict.induct max with
  | case1 e ua us bytes dropped hcap ih =>
      rw [evict, if_pos hcap]
      exact ih
  | case2 e ua us bytes dropped hcap =>
      rw [evict, if_neg hcap]
      exact Or.inl ⟨rfl, not_lt.mp hcap⟩
  | case3 e us bytes dropped hcap ih =>
      rw [evict, if_pos hcap]
      exact ih
  | case4 e us bytes dropped hcap =>
      rw [evict, if_neg hcap]
      exact Or.inl ⟨rfl, not_lt.mp hcap⟩
  | case5 bytes dropped hcap =>
      rw [evict, if_pos hcap]
      exact Or.inr ⟨rfl, rfl, hcap⟩
  | case6 bytes dropped hcap =>
      rw [evict, if_neg hcap]
      exact Or.inl ⟨rfl, not_lt.mp hcap⟩

/-- **An acknowledgement** pops a prefix of the written entries, all of them covered by it. -/
theorem popAcked_spec (ack : Json) (ua : List Entry) (bytes : Int) :
    ∃ acked, ua = acked ++ (popAcked ack ua bytes).1
      ∧ ∀ e ∈ acked, ∃ n, ack.asNum = some n ∧ n.ge e.seq = true := by
  induction ua generalizing bytes with
  | nil => exact ⟨[], rfl, by simp⟩
  | cons e ua ih =>
      unfold popAcked
      cases hnum : ack.asNum with
      | none =>
          have hge : ack.ge e.seq = .error .typeError := by rw [Json.ge, hnum]
          rw [hge]
          exact ⟨[], rfl, by simp⟩
      | some n =>
          have hge : ack.ge e.seq = .ok (n.ge e.seq) := by rw [Json.ge, hnum]
          rw [hge]
          cases hn : n.ge e.seq with
          | false => exact ⟨[], rfl, by simp⟩
          | true =>
              obtain ⟨acked, hua, hacked⟩ := ih (bytes - e.cost)
              refine ⟨e :: acked, ?_, ?_⟩
              · rw [List.cons_append, ← hua]
              · intro f hf
                rcases List.mem_cons.mp hf with rfl | hf
                · exact ⟨n, rfl, hn⟩
                · rw [hnum] at hacked
                  exact hacked f hf

/-- What `send` does: nothing if the message cannot be encoded; else the entry goes to the end
of the queue and the eviction pops from its front. -/
theorem send_spec {μ : Type} (dumps : Nat → μ → Except PyErr (List UInt8)) (s : TcpSink)
    (message : μ) :
    ((s.send dumps message).1 = s ∧ (s.send dumps message).2.1 = [])
      ∨ ∃ line, s.queue ++ [⟨s.nextSeq, line⟩]
            = (s.send dumps message).2.1 ++ (s.send dumps message).1.queue
          ∧ (s.send dumps message).1.nextSeq = s.nextSeq + 1
          ∧ (s.send dumps message).1.dropped = s.dropped + (s.send dumps message).2.1.length
          ∧ (s.send dumps message).1.unacked <:+ s.unacked
          ∧ (s.send dumps message).1.unsent <:+ s.unsent ++ [⟨s.nextSeq, line⟩] := by
  cases hd : dumps s.nextSeq message with
  | error e =>
      left
      unfold send
      rw [hd]
      exact ⟨rfl, rfl⟩
  | ok bytes =>
      right
      unfold send
      rw [hd]
      obtain ⟨hq, hdrop, hua, hus⟩ := evict_spec s.maxBufferBytes s.unacked
        (s.unsent ++ [⟨s.nextSeq, bytes ++ [10]⟩])
        (s.bufferedBytes + Entry.cost ⟨s.nextSeq, bytes ++ [10]⟩) s.dropped
      refine ⟨bytes ++ [10], ?_, rfl, hdrop, hua, hus⟩
      rw [queue, List.append_assoc]
      exact hq

/-- What a pass of `_send_loop` does: it moves the oldest unsent entry, if there is one. -/
theorem sendPass_spec (s : TcpSink) :
    (s.unsent = [] ∧ s.sendPass = ({ s with hasData := false }, none))
      ∨ ∃ entry us, s.unsent = entry :: us
          ∧ s.sendPass = ({ s with unsent := us, unacked := s.unacked ++ [entry] }, some entry)
          ∧ s.sendPass.1.queue = s.queue := by
  cases hus : s.unsent with
  | nil =>
      left
      exact ⟨rfl, by simp only [sendPass, hus]⟩
  | cons entry us =>
      right
      have hpass : s.sendPass
          = ({ s with unsent := us, unacked := s.unacked ++ [entry] }, some entry) := by
        simp only [sendPass, hus]
      refine ⟨entry, us, rfl, hpass, ?_⟩
      rw [hpass, queue, queue, hus]
      exact List.append_assoc _ _ _

/-- What a line from the consumer does: it pops written entries that it acknowledges. -/
theorem ackLine_spec (s : TcpSink) (r : Reply) :
    ∃ acked, s.unacked = acked ++ (s.ackLine r).1.unacked
      ∧ (s.ackLine r).1.unsent = s.unsent
      ∧ (s.ackLine r).1.nextSeq = s.nextSeq
      ∧ (s.ackLine r).1.dropped = s.dropped
      ∧ ∀ e ∈ acked, ∃ n, ackOf r = some n ∧ n.ge e.seq = true := by
  unfold ackLine ackOf
  cases r.bind (fun j => j.index "ack") with
  | error e => exact ⟨[], rfl, rfl, rfl, rfl, by simp⟩
  | ok ack =>
      obtain ⟨acked, hua, hacked⟩ := popAcked_spec ack s.unacked s.bufferedBytes
      exact ⟨acked, hua, rfl, rfl, rfl, hacked⟩

end TcpSink

end NanoTick
