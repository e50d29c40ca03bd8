import NanoTick.Ingest.Delivery
import Mathlib.Tactic

set_option autoImplicit false

/-! # The buffer's accounts

`TcpSink` keeps its byte count by hand: `send` adds to it, the eviction loop and `_ack_loop`
subtract. Here the two deques are followed through every interleaving with a consumer that may
send any line at any time (`anyStep`), and the entries acknowledged are counted (`Tally`).

The deques form one queue. A call of `send` appends to it and evicts from its front, an
acknowledgement pops from its front, and everything else leaves it as it is; so it always
holds the last numbers handed out (`Balanced`).
-/

namespace NanoTick

open Python Runs TcpSink

/-! ## Bytes -/

namespace TcpSink

/-- What entries count against the cap together. -/
def bytesOf (l : List Entry) : Int := (l.map Entry.cost).sum

@[simp] theorem bytesOf_nil : bytesOf [] = 0 := rfl

@[simp] theorem bytesOf_cons (e : Entry) (l : List Entry) :
    bytesOf (e :: l) = e.cost + bytesOf l := rfl

theorem bytesOf_append (l m : List Entry) : bytesOf (l ++ m) = bytesOf l + bytesOf m := by
  rw [bytesOf, List.map_append, List.sum_append]
  rfl

theorem bytesOf_nonneg (l : List Entry) : 0 ≤ bytesOf l := by
  induction l with
  | nil => exact le_refl 0
  | cons e l ih =>
      have hcost : 0 ≤ e.cost := by
        unfold Entry.cost entryOverheadBytes
        omega
      rw [bytesOf_cons]
      omega

/-- The eviction loop subtracts what it pops. -/
theorem evict_bytes (max : Int) (ua us : List Entry) (bytes : Int) (dropped : Nat) :
    (evict max ua us bytes dropped).bufferedBytes
      = bytes - bytesOf (evict max ua us bytes dropped).popped := by
  induction ua, us, bytes, dropped using evict.induct max with
  | case1 e ua us bytes dropped hcap ih =>
      rw [evict, if_pos hcap]
      dsimp only
      rw [ih, bytesOf_cons]
      omega
  | case2 e ua us bytes dropped hcap =>
      rw [evict, if_neg hcap]
      simp
  | case3 e us bytes dropped hcap ih =>
      rw [evict, if_pos hcap]
      dsimp only
      rw [ih, bytesOf_cons]
      omega
  | case4 e us bytes dropped hcap =>
      rw [evict, if_neg hcap]
      simp
  | case5 bytes dropped hcap =>
      rw [evict, if_pos hcap]
      simp
  | case6 bytes dropped hcap =>
      rw [evict, if_neg hcap]
      simp

/-- **The eviction loop ends under the cap.** With a true count it stops before both deques
are empty, or with nothing left to count: it never pops from an empty deque. -/
theorem evict_bounded {max : Int} (hmax : 0 ≤ max) (ua us : List Entry) (bytes : Int)
    (dropped : Nat) (hbytes : bytes = bytesOf (ua ++ us)) :
    (evict max ua us bytes dropped).raised = none
      ∧ (evict max ua us bytes dropped).bufferedBytes ≤ max := by
  rcases evict_ends max ua us bytes dropped with hends | ⟨hua, hus, hover⟩
  · exact hends
  · -- nothing is left, so the count is zero and not above the cap
    have hqueue := (evict_spec max ua us bytes dropped).1
    have hcount := evict_bytes max ua us bytes dropped
    rw [hua, hus, List.append_nil, List.append_nil] at hqueue
    have hall := congrArg bytesOf hqueue
    omega

/-- The written entries a line acknowledges, oldest first. -/
def acknowledged (s : TcpSink) (r : Reply) : List Entry :=
  s.unacked.takeWhile (fun e => (ackOf r).any (fun n => n.ge e.seq))

/-- The loop over an acknowledgement pops the entries it covers and subtracts them. -/
theorem popAcked_eq (ack : Json) (ua : List Entry) (bytes : Int) :
    (popAcked ack ua bytes).1 = ua.dropWhile (fun e => ack.asNum.any (fun n => n.ge e.seq))
      ∧ (popAcked ack ua bytes).2.1
        = bytes - bytesOf (ua.takeWhile (fun e => ack.asNum.any (fun n => n.ge e.seq))) := by
  induction ua generalizing bytes with
  | nil => simp [popAcked]
  | cons e ua ih =>
      unfold popAcked
      cases hnum : ack.asNum with
      | none =>
          have hge : ack.ge e.seq = .error .typeError := by rw [Json.ge, hnum]
          rw [hge]
          simp
      | some n =>
          have hge : ack.ge e.seq = .ok (n.ge e.seq) := by rw [Json.ge, hnum]
          rw [hge]
          rw [hnum] at ih
          cases hn : n.ge e.seq with
          | false => simp [hn]
          | true =>
              obtain ⟨hua, hbytes⟩ := ih (bytes - e.cost)
              dsimp only
              rw [hua, hbytes]
              constructor
              · simp [hn]
              · rw [List.takeWhile_cons_of_pos (by simpa using hn), bytesOf_cons]
                omega

/-- **A line from the consumer** pops what it acknowledges from the front of the queue, and
the count follows. -/
theorem ackLine_queue (s : TcpSink) (r : Reply) :
    s.queue = s.acknowledged r ++ (s.ackLine r).1.queue
      ∧ (s.ackLine r).1.bufferedBytes = s.bufferedBytes - bytesOf (s.acknowledged r)
      ∧ (s.ackLine r).1.nextSeq = s.nextSeq
      ∧ (s.ackLine r).1.dropped = s.dropped
      ∧ (s.ackLine r).1.maxBufferBytes = s.maxBufferBytes := by
  unfold ackLine acknowledged ackOf
  cases r.bind (fun j => j.index "ack") with
  | error e =>
      have hnone : s.unacked.takeWhile (fun _ => false) = [] := by cases s.unacked <;> rfl
      simp [hnone]
  | ok ack =>
      obtain ⟨hua, hbytes⟩ := popAcked_eq ack s.unacked s.bufferedBytes
      refine ⟨?_, hbytes, rfl, rfl, rfl⟩
      show s.unacked ++ s.unsent = _ ++ ((popAcked ack s.unacked s.bufferedBytes).1 ++ s.unsent)
      rw [hua, ← List.append_assoc, List.takeWhile_append_dropWhile]

end TcpSink

/-! ## Any consumer -/

namespace Uplink

variable {μ : Type}

/-- One action, with a consumer that may send any line on any connection at any time. -/
def anyStep (dumps : Nat → μ → Except PyErr (List UInt8)) (w : Uplink) :
    Action μ → Option Uplink
  | .reply c r =>
      if c ≤ w.conn then
        some { w with replies := Function.update w.replies c (w.replies c ++ [r]) }
      else none
  | a => step dumps w a

/-- The entries an action acknowledges. -/
def ackedBy (w : Uplink) : Action μ → List Entry
  | .readReply =>
      match w.replies w.conn with
      | r :: _ => w.sink.acknowledged r
      | [] => []
  | _ => []

variable {dumps : Nat → μ → Except PyErr (List UInt8)} {w w' : Uplink} {a : Action μ}

/-- A consumer that may send any line does no more than that. -/
theorem stepped_of_anyStep (hs : anyStep dumps w a = some w') : Stepped dumps w a w' := by
  cases a with
  | reply c r =>
      obtain ⟨hconn, hs⟩ := Option.ite_none_right_eq_some.mp hs
      cases hs
      exact .reply hconn
  | _ => exact stepped_of_step hs

/-- **What an action does to the sink**: a call of `send`, a line handled by `_ack_loop`, or
something that moves no entry out of the queue. -/
theorem anyStep_sink (h : anyStep dumps w a = some w') :
    (∃ message, a = .send message ∧ w'.sink = (w.sink.send dumps message).1)
      ∨ (∃ r, w'.sink = (w.sink.ackLine r).1 ∧ ackedBy w a = w.sink.acknowledged r)
      ∨ ackedBy w a = []
        ∧ (w'.sink = w.sink ∨ w'.sink = w.sink.requeue ∨ w'.sink = w.sink.sendPass.1) := by
  cases stepped_of_anyStep h with
  | send message => exact Or.inl ⟨message, rfl, rfl⟩
  | connects hphase => exact Or.inr (Or.inr ⟨rfl, Or.inr (Or.inl rfl)⟩)
  | waits hphase hpass => exact Or.inr (Or.inr ⟨rfl, Or.inr (Or.inr (by rw [hpass]))⟩)
  | writes hphase hunsent hpass =>
      exact Or.inr (Or.inr ⟨rfl, Or.inr (Or.inr (by rw [hpass]))⟩)
  | readReply hphase hreplies =>
      refine Or.inr (Or.inl ⟨_, rfl, ?_⟩)
      simp only [ackedBy, hreplies]
  | _ => exact Or.inr (Or.inr ⟨rfl, Or.inl rfl⟩)

end Uplink

/-! ## The accounts -/

namespace TcpSink

/-- The accounts of a sink with cap `max`, of whose entries `acked` were acknowledged: the
queue holds the last numbers handed out, and both counters are true. -/
structure Accounts (max : Int) (s : TcpSink) (acked : Nat) : Prop where
  cap : s.maxBufferBytes = max
  consecutive : s.queue.map Entry.seq
    = List.range' (s.nextSeq - s.queue.length) s.queue.length
  bytes : s.bufferedBytes = bytesOf s.queue
  counted : s.nextSeq - 1 = acked + s.dropped + s.queue.length
  started : 1 ≤ s.nextSeq

/-- Between two calls the buffer is also within its cap. -/
structure Balanced (max : Int) (s : TcpSink) (acked : Nat) : Prop extends
    Accounts max s acked where
  bounded : s.bufferedBytes ≤ max

/-- A call of `send` evicts the oldest messages, in order, and its loop does not raise. -/
def EvictsOldest {μ : Type} (dumps : Nat → μ → Except PyErr (List UInt8)) (s : TcpSink) : Prop :=
  ∀ message line, dumps s.nextSeq message = .ok line →
    (s.send dumps message).2.2 = none
      ∧ s.queue ++ [⟨s.nextSeq, line ++ [10]⟩]
        = (s.send dumps message).2.1 ++ (s.send dumps message).1.queue

variable {μ : Type} {dumps : Nat → μ → Except PyErr (List UInt8)} {max : Int} {s s' : TcpSink}
  {acked : Nat}

theorem balanced_init (hmax : 0 ≤ max) : Balanced max (init max) 0 :=
  ⟨⟨rfl, rfl, rfl, rfl, le_refl _⟩, hmax⟩

/-- A prefix of the queue popped and counted. -/
theorem Accounts.pop (h : Accounts max s acked) {popped : List Entry} {acked' : Nat}
    (hcap : s'.maxBufferBytes = s.maxBufferBytes) (hqueue : s.queue = popped ++ s'.queue)
    (hbytes : s'.bufferedBytes = s.bufferedBytes - bytesOf popped)
    (hnext : s'.nextSeq = s.nextSeq)
    (hcount : acked' + s'.dropped = acked + s.dropped + popped.length) :
    Accounts max s' acked' := by
  have hlen : s.queue.length = popped.length + s'.queue.length := by
    rw [hqueue, List.length_append]
  have hcounted := h.counted
  have hstarted := h.started
  refine ⟨hcap.trans h.cap, ?_, ?_, by omega, by omega⟩
  · -- the numbers left are the last ones of the old range
    have hseqs := congrArg (List.drop popped.length) h.consecutive
    rw [hlen, hqueue, List.map_append, List.drop_left' (List.length_map _),
      List.drop_range'] at hseqs
    rw [hseqs, hnext]
    have hstart : s.nextSeq - (popped.length + s'.queue.length) + popped.length * 1
        = s.nextSeq - s'.queue.length := by omega
    rw [hstart, Nat.add_sub_cancel_left]
  · rw [hbytes, h.bytes, hqueue, bytesOf_append]
    omega

/-- The entry of a new message joined to the queue. -/
def push (s : TcpSink) (line : List UInt8) : TcpSink :=
  { s with
    unsent := s.unsent ++ [⟨s.nextSeq, line⟩]
    bufferedBytes := s.bufferedBytes + Entry.cost ⟨s.nextSeq, line⟩
    nextSeq := s.nextSeq + 1 }

theorem queue_push (s : TcpSink) (line : List UInt8) :
    (s.push line).queue = s.queue ++ [⟨s.nextSeq, line⟩] :=
  (List.append_assoc _ _ _).symm

theorem Accounts.push (h : Accounts max s acked) (line : List UInt8) :
    Accounts max (s.push line) acked := by
  have hcounted := h.counted
  have hstarted := h.started
  have hlen : (s.push line).queue.length = s.queue.length + 1 := by
    rw [queue_push, List.length_append, List.length_singleton]
  have hnext : (s.push line).nextSeq = s.nextSeq + 1 := rfl
  have hdropped : (s.push line).dropped = s.dropped := rfl
  refine ⟨h.cap, ?_, ?_, by omega, by omega⟩
  · have hstart : s.nextSeq + 1 - (s.queue.length + 1) = s.nextSeq - s.queue.length := by omega
    have hlast : s.nextSeq - s.queue.length + 1 * s.queue.length = s.nextSeq := by omega
    rw [hlen, hnext, hstart, List.range'_concat, hlast, queue_push, List.map_append, h.consecutive]
    rfl
  · rw [queue_push, bytesOf_append, ← h.bytes]
    simp [TcpSink.push]

/-- **A call of `send`**, for a message that can be encoded: its entry joins the queue, and the
eviction pops the oldest entries until the count is within the cap. -/
theorem Accounts.send_ok (h : Accounts max s acked) (hmax : 0 ≤ max) {message : μ}
    {line : List UInt8} (hline : dumps s.nextSeq message = .ok line) :
    Balanced max (s.send dumps message).1 acked
      ∧ (s.send dumps message).2.2 = none
      ∧ s.queue ++ [⟨s.nextSeq, line ++ [10]⟩]
        = (s.send dumps message).2.1 ++ (s.send dumps message).1.queue := by
  have hpush := h.push (line ++ [10])
  have hbytes : (s.push (line ++ [10])).bufferedBytes
      = bytesOf (s.unacked ++ (s.push (line ++ [10])).unsent) := hpush.bytes
  obtain ⟨hnone, hbounded⟩ := evict_bounded (h.cap ▸ hmax) s.unacked
    (s.push (line ++ [10])).unsent (s.push (line ++ [10])).bufferedBytes s.dropped hbytes
  obtain ⟨hqueue, hdropped, -, -⟩ := evict_spec s.maxBufferBytes s.unacked
    (s.push (line ++ [10])).unsent (s.push (line ++ [10])).bufferedBytes s.dropped
  have hcount := evict_bytes s.maxBufferBytes s.unacked (s.push (line ++ [10])).unsent
    (s.push (line ++ [10])).bufferedBytes s.dropped
  unfold send
  rw [hline]
  refine ⟨⟨hpush.pop rfl hqueue hcount rfl ?_, h.cap ▸ hbounded⟩, hnone, ?_⟩
  · exact (congrArg (acked + ·) hdropped).trans (add_assoc _ _ _).symm
  · rw [← queue_push]
    exact hqueue

theorem Balanced.send (h : Balanced max s acked) (hmax : 0 ≤ max) (message : μ) :
    Balanced max (s.send dumps message).1 acked := by
  cases hline : dumps s.nextSeq message with
  | error e =>
      unfold TcpSink.send
      rw [hline]
      exact h
  | ok line => exact (h.toAccounts.send_ok hmax hline).1

theorem Balanced.ackLine (h : Balanced max s acked) (r : Reply) :
    Balanced max (s.ackLine r).1 (acked + (s.acknowledged r).length) := by
  obtain ⟨hqueue, hbytes, hnext, hdropped, hcap⟩ := ackLine_queue s r
  refine ⟨h.toAccounts.pop hcap hqueue hbytes hnext ?_, ?_⟩
  · rw [hdropped]
    omega
  · -- what is subtracted is not negative
    have hnonneg : 0 ≤ bytesOf (s.acknowledged r) := bytesOf_nonneg _
    have hbounded := h.bounded
    omega

/-- A sink that holds the same queue and counts. -/
theorem Balanced.same (h : Balanced max s acked) (hqueue : s'.queue = s.queue)
    (hcap : s'.maxBufferBytes = s.maxBufferBytes) (hbytes : s'.bufferedBytes = s.bufferedBytes)
    (hnext : s'.nextSeq = s.nextSeq) (hdropped : s'.dropped = s.dropped) :
    Balanced max s' acked := by
  have hnone : s.queue = [] ++ s'.queue := hqueue.symm
  refine ⟨h.toAccounts.pop hcap hnone ?_ hnext ?_, ?_⟩
  · rw [hbytes, bytesOf_nil, sub_zero]
  · rw [hdropped]
    rfl
  · rw [hbytes]
    exact h.bounded

theorem Balanced.requeue (h : Balanced max s acked) : Balanced max s.requeue acked :=
  h.same s.requeue_queue rfl rfl rfl rfl

theorem Balanced.sendPass (h : Balanced max s acked) : Balanced max s.sendPass.1 acked := by
  rcases s.sendPass_spec with ⟨-, hpass⟩ | ⟨entry, us, -, hpass, hqueue⟩
  · rw [hpass]
    exact h.same rfl rfl rfl rfl rfl
  · refine h.same hqueue ?_ ?_ ?_ ?_
    all_goals rw [hpass]

end TcpSink

/-! ## Every interleaving -/

/-- A system with the number of entries acknowledged so far. -/
structure Tally where
  uplink : Uplink
  acked : Nat

namespace Tally

variable {μ : Type}

def init (maxBufferBytes : Int) : Tally := ⟨Uplink.init maxBufferBytes, 0⟩

def step (dumps : Nat → μ → Except PyErr (List UInt8)) (t : Tally) (a : Uplink.Action μ) :
    Option Tally :=
  (Uplink.anyStep dumps t.uplink a).map
    (fun w => ⟨w, t.acked + (Uplink.ackedBy t.uplink a).length⟩)

variable {dumps : Nat → μ → Except PyErr (List UInt8)} {max : Int}

/-- **One action** keeps the accounts. -/
theorem balanced_step (hmax : 0 ≤ max) {t t' : Tally} {a : Uplink.Action μ}
    (h : Balanced max t.uplink.sink t.acked) (hs : step dumps t a = some t') :
    Balanced max t'.uplink.sink t'.acked := by
  obtain ⟨w, hw, rfl⟩ := Option.map_eq_some_iff.mp hs
  dsimp only
  rcases Uplink.anyStep_sink hw with ⟨message, rfl, hsink⟩ | ⟨r, hsink, hacked⟩ | ⟨hacked, hsink⟩
  · rw [hsink]
    exact h.send hmax message
  · rw [hsink, hacked]
    exact h.ackLine r
  · rw [hacked]
    rcases hsink with hsink | hsink | hsink
    · rw [hsink]
      exact h
    · rw [hsink]
      exact h.requeue
    · rw [hsink]
      exact h.sendPass

/-- **The buffer invariant.** In every state of every interleaving, with any lines from the
consumer: the queue holds the consecutive numbers up to the last one handed out; the byte
count is the sum over both deques and within the cap; every number handed out is acknowledged,
dropped or buffered, and counted once; and the next call of `send`, whatever its message,
evicts from the front and never pops an empty deque. -/
theorem buffer_balanced (dumps : Nat → μ → Except PyErr (List UInt8)) (max : Int)
    (hmax : 0 ≤ max) (as : List (Uplink.Action μ)) :
    Always (step dumps)
      (fun t => Balanced max t.uplink.sink t.acked ∧ EvictsOldest dumps t.uplink.sink)
      (init max) as := by
  have hbalanced :
      Always (step dumps) (fun t => Balanced max t.uplink.sink t.acked) (init max) as :=
    always_of_step (fun _ _ _ h hs => balanced_step hmax h hs) (balanced_init hmax) as
  exact hbalanced.imp (fun t h => ⟨h, fun message line hline =>
    (h.toAccounts.send_ok hmax hline).2⟩)

/-- Messages given as their encodings. -/
def encoded (_ : Nat) (message : List UInt8) : Except PyErr (List UInt8) := .ok message

/-- Two messages under a cap that holds one, an acknowledgement of `Infinity`, and a
message larger than the cap. -/
def tightRun : List (Uplink.Action (List UInt8)) :=
  [.send [32], .send [32], .connects, .sendLoop,
    .reply 1 (.ok (.obj [("ack", .num .posInf)])), .readReply, .send (List.replicate 90 32)]

/-- One message acknowledged, two dropped, nothing buffered: three numbers handed out. -/
theorem tightRun_balanced :
    ∃ t, exec (step encoded) (init 200) tightRun = some t
      ∧ Balanced 200 t.uplink.sink t.acked ∧ t.acked = 1 ∧ t.uplink.sink.dropped = 2 := by
  have hrun : ∃ t, exec (step encoded) (init 200) tightRun = some t
      ∧ t.acked = 1 ∧ t.uplink.sink.dropped = 2 := by
    simp [tightRun, exec, step, init, Uplink.init, TcpSink.init, Uplink.anyStep, Uplink.step,
      TcpSink.send, encoded, evict, Entry.cost, entryOverheadBytes, requeue, extendleft,
      Uplink.resumable, sendPass, Uplink.write, Uplink.ackedBy, acknowledged, ackOf, ackLine,
      Except.bind, Json.index, Json.asNum, PyNum.ge, popAcked, Json.ge]
  obtain ⟨t, ht, hacked, hdropped⟩ := hrun
  exact ⟨t, ht, ((buffer_balanced encoded 200 (by decide) tightRun).last ht).1, hacked, hdropped⟩

end Tally

end NanoTick
