import NanoTick.Ingest.TcpSink
import NanoTick.Basic.Runs
import Mathlib.Tactic

set_option autoImplicit false

/-! # At-least-once delivery over the TCP sink

An `Uplink` is a sink with its tasks, a byte channel each way for every connection it has
opened, and the consumer. `step` interleaves what the tasks do between two awaits (`send`
calls, `_run`, `_send_loop`, `_ack_loop`), the loss of the connection at any point, and the
consumer, which acknowledges a number only when it has received every message up to it that
was not evicted.

The messages are accounted for by the queue the two deques form (`Accounted`): it only grows
at the end and shrinks at the front, by eviction or by an acknowledgement. The order on one
connection comes from the requeue: when a connection opens, everything buffered is unsent.
-/

namespace NanoTick

open Python Runs TcpSink

/-! ## The system -/

/-- Where `_send_loop` stands: about to run, in `has_data.wait()`, in `drain()`, or ended by
an exception. -/
inductive SendLoop where
  | ready
  | waiting
  | draining
  | raised (e : PyErr)
  deriving DecidableEq, Repr

/-- Where `_ack_loop` stands: reading a line, or ended by an exception. -/
inductive AckLoop where
  | reading
  | raised (e : PyErr)
  deriving DecidableEq, Repr

/-- Where `_run` stands: dialing, waiting for the two loops of a connection, in the reconnect
delay, or ended by an exception it does not catch. -/
inductive Phase where
  | dialing
  | live (send : SendLoop) (ack : AckLoop)
  | sleeping
  | ended
  deriving DecidableEq, Repr

/-- A sink, its connections by number, and the consumer. `wire` and `replies` hold what is in
flight on each connection. What is only recorded: the sequence numbers `written` on each
connection, the `oldest` message buffered when the first of them was written, and the
sequence numbers `evicted`. -/
structure Uplink where
  sink : TcpSink
  phase : Phase
  conn : Nat
  wire : Nat → List Entry
  replies : Nat → List Reply
  received : List Nat
  written : Nat → List Nat
  oldest : Nat → Option Nat
  evicted : List Nat

namespace Uplink

variable {μ : Type}

/-- What can happen next. `receive` and `reply` are the consumer's. -/
inductive Action (μ : Type) where
  | send (message : μ)
  | dialFails
  | connects
  | wakes
  | sendLoop
  | drainFails
  | readReply
  | readFails
  | reap (e : PyErr)
  | receive (c : Nat)
  | reply (c : Nat) (r : Reply)

def init (maxBufferBytes : Int) : Uplink where
  sink := TcpSink.init maxBufferBytes
  phase := .dialing
  conn := 0
  wire := fun _ => []
  replies := fun _ => []
  received := []
  written := fun _ => []
  oldest := fun _ => none
  evicted := []

/-- The consumer may acknowledge `n` when it has received every message up to `n` that was
not evicted; any other line it may send at any time. -/
def mayReply (w : Uplink) (r : Reply) : Bool :=
  match ackOf r with
  | none => true
  | some n =>
      match n.count with
      | none => false
      | some m => (List.range' 1 m).all (fun k => decide (k ∈ w.received ∨ k ∈ w.evicted))

/-- `_send_loop` can resume: at its start, when the event is set, or when `drain()` returns. -/
def resumable (s : TcpSink) : SendLoop → Bool
  | .ready => true
  | .waiting => s.hasData
  | .draining => true
  | .raised _ => false

/-- The state after an entry is written on the current connection. -/
def write (w : Uplink) (entry : Entry) : Uplink :=
  { w with
    wire := Function.update w.wire w.conn (w.wire w.conn ++ [entry])
    written := Function.update w.written w.conn (w.written w.conn ++ [entry.seq])
    oldest := if w.written w.conn = [] then
        Function.update w.oldest w.conn (w.sink.queue.head?.map Entry.seq)
      else w.oldest }

/-- One action. -/
def step (dumps : Nat → μ → Except PyErr (List UInt8)) (w : Uplink) : Action μ → Option Uplink
  | .send message =>
      let (sink, popped, _) := w.sink.send dumps message
      some { w with sink := sink, evicted := w.evicted ++ popped.map Entry.seq }
  | .dialFails =>
      match w.phase with
      | .dialing => some { w with phase := .sleeping }
      | _ => none
  | .connects =>
      match w.phase with
      | .dialing =>
          some { w with sink := w.sink.requeue, phase := .live .ready .reading, conn := w.conn + 1 }
      | _ => none
  | .wakes =>
      match w.phase with
      | .sleeping => some { w with phase := .dialing }
      | _ => none
  | .sendLoop =>
      match w.phase with
      | .live send ack =>
          if resumable w.sink send then
            match w.sink.sendPass with
            | (sink, none) => some { w with sink := sink, phase := .live .waiting ack }
            | (sink, some entry) =>
                some { w.write entry with sink := sink, phase := .live .draining ack }
          else none
      | _ => none
  | .drainFails =>
      match w.phase with
      | .live .draining ack => some { w with phase := .live (.raised .osError) ack }
      | _ => none
  | .readReply =>
      match w.phase, w.replies w.conn with
      | .live send .reading, r :: rest =>
          let (sink, raised) := w.sink.ackLine r
          some { w with
            sink := sink
            phase := .live send (match raised with | none => .reading | some e => .raised e)
            replies := Function.update w.replies w.conn rest }
      | _, _ => none
  | .readFails =>
      match w.phase with
      | .live send .reading => some { w with phase := .live send (.raised .osError) }
      | _ => none
  | .reap e =>
      match w.phase with
      | .live send ack =>
          if send = .raised e ∨ ack = .raised e then
            -- `_run` catches connection errors and dials again; any other ends it for good
            some { w with phase := if e = .osError then .sleeping else .ended }
          else none
      | _ => none
  | .receive c =>
      match w.wire c with
      | entry :: rest =>
          some { w with
            wire := Function.update w.wire c rest, received := w.received ++ [entry.seq] }
      | [] => none
  | .reply c r =>
      if c ≤ w.conn ∧ w.mayReply r = true then
        some { w with replies := Function.update w.replies c (w.replies c ++ [r]) }
      else none

/-- The ways an action can happen, with what each needs and leaves. -/
inductive Stepped (dumps : Nat → μ → Except PyErr (List UInt8)) (w : Uplink) :
    Action μ → Uplink → Prop
  | send (message : μ) : Stepped dumps w (.send message)
      { w with
        sink := (w.sink.send dumps message).1
        evicted := w.evicted ++ (w.sink.send dumps message).2.1.map Entry.seq }
  | dialFails (hphase : w.phase = .dialing) :
      Stepped dumps w .dialFails { w with phase := .sleeping }
  | connects (hphase : w.phase = .dialing) : Stepped dumps w .connects
      { w with sink := w.sink.requeue, phase := .live .ready .reading, conn := w.conn + 1 }
  | wakes (hphase : w.phase = .sleeping) : Stepped dumps w .wakes { w with phase := .dialing }
  | waits {send : SendLoop} {ack : AckLoop} (hphase : w.phase = .live send ack)
      (hpass : w.sink.sendPass = ({ w.sink with hasData := false }, none)) :
      Stepped dumps w .sendLoop
        { w with sink := { w.sink with hasData := false }, phase := .live .waiting ack }
  | writes {send : SendLoop} {ack : AckLoop} {entry : Entry} {us : List Entry}
      (hphase : w.phase = .live send ack) (hunsent : w.sink.unsent = entry :: us)
      (hpass : w.sink.sendPass
        = ({ w.sink with unsent := us, unacked := w.sink.unacked ++ [entry] }, some entry)) :
      Stepped dumps w .sendLoop
        { w.write entry with
          sink := { w.sink with unsent := us, unacked := w.sink.unacked ++ [entry] }
          phase := .live .draining ack }
  | drainFails {ack : AckLoop} (hphase : w.phase = .live .draining ack) :
      Stepped dumps w .drainFails { w with phase := .live (.raised .osError) ack }
  | readReply {send : SendLoop} {r : Reply} {rest : List Reply}
      (hphase : w.phase = .live send .reading) (hreplies : w.replies w.conn = r :: rest) :
      Stepped dumps w .readReply
        { w with
          sink := (w.sink.ackLine r).1
          phase := .live send
            (match (w.sink.ackLine r).2 with | none => .reading | some e => .raised e)
          replies := Function.update w.replies w.conn rest }
  | readFails {send : SendLoop} (hphase : w.phase = .live send .reading) :
      Stepped dumps w .readFails { w with phase := .live send (.raised .osError) }
  | reap {send : SendLoop} {ack : AckLoop} {e : PyErr} (hphase : w.phase = .live send ack)
      (hraised : send = .raised e ∨ ack = .raised e) :
      Stepped dumps w (.reap e) { w with phase := if e = .osError then .sleeping else .ended }
  | receive {c : Nat} {entry : Entry} {rest : List Entry} (hwire : w.wire c = entry :: rest) :
      Stepped dumps w (.receive c)
        { w with wire := Function.update w.wire c rest, received := w.received ++ [entry.seq] }
  | reply {c : Nat} {r : Reply} (hconn : c ≤ w.conn) : Stepped dumps w (.reply c r)
      { w with replies := Function.update w.replies c (w.replies c ++ [r]) }

/-- **What a step does.** -/
theorem stepped_of_step {dumps : Nat → μ → Except PyErr (List UInt8)} {w w' : Uplink}
    {a : Action μ} (hs : step dumps w a = some w') : Stepped dumps w a w' := by
  cases a with
  | send message =>
      cases hs
      exact .send message
  | dialFails =>
      simp only [step] at hs
      split at hs <;> cases hs
      exact .dialFails (by assumption)
  | connects =>
      simp only [step] at hs
      split at hs <;> cases hs
      exact .connects (by assumption)
  | wakes =>
      simp only [step] at hs
      split at hs <;> cases hs
      exact .wakes (by assumption)
  | sendLoop =>
      simp only [step] at hs
      split at hs
      · rename_i send ack hphase
        obtain ⟨-, hs⟩ := Option.ite_none_right_eq_some.mp hs
        rcases w.sink.sendPass_spec with ⟨-, hpass⟩ | ⟨entry, us, hunsent, hpass, -⟩
        · rw [hpass] at hs
          cases hs
          exact .waits hphase hpass
        · rw [hpass] at hs
          cases hs
          exact .writes hphase hunsent hpass
      · cases hs
  | drainFails =>
      simp only [step] at hs
      split at hs <;> cases hs
      exact .drainFails (by assumption)
  | readReply =>
      simp only [step] at hs
      split at hs <;> cases hs
      exact .readReply (by assumption) (by assumption)
  | readFails =>
      simp only [step] at hs
      split at hs <;> cases hs
      exact .readFails (by assumption)
  | reap e =>
      simp only [step] at hs
      split at hs
      · obtain ⟨hraised, hs⟩ := Option.ite_none_right_eq_some.mp hs
        cases hs
        exact .reap (by assumption) hraised
      · cases hs
  | receive c =>
      simp only [step] at hs
      split at hs <;> cases hs
      exact .receive (by assumption)
  | reply c r =>
      obtain ⟨hguard, hs⟩ := Option.ite_none_right_eq_some.mp hs
      cases hs
      exact .reply hguard.1

/-! ## What holds in every state -/

/-- The queue and the numbers that left it. -/
structure Accounted (queue : List Entry) (nextSeq : Nat) (received evicted : List Nat)
    (dropped : Nat) : Prop where
  increasing : queue.Pairwise (fun a b => a.seq < b.seq)
  handedOut : ∀ e ∈ queue, e.seq < nextSeq
  accounted : ∀ k, 1 ≤ k → k < nextSeq →
    k ∈ received ∨ k ∈ queue.map Entry.seq ∨ k ∈ evicted
  evictedFirst : ∀ k ∈ evicted, k < nextSeq ∧ ∀ e ∈ queue, k < e.seq
  evictedOrder : evicted.Pairwise (· < ·)
  counted : evicted.length = dropped

/-- A line in flight acknowledges nothing the consumer does not have. -/
def Entitled (received evicted : List Nat) (r : Reply) : Prop :=
  ∀ n, ackOf r = some n → ∀ k : Nat, 1 ≤ k → n.ge k = true → k ∈ received ∨ k ∈ evicted

/-- What is written on each connection; on the open one, everything unsent is still to come. -/
structure Orderly (w : Uplink) : Prop where
  unopened : ∀ c, w.conn < c → w.written c = []
  increasing : ∀ c, (w.written c).Pairwise (· < ·)
  fromOldest : ∀ c k, (w.written c).head? = some k → w.oldest c = some k
  ahead : ∀ send ack, w.phase = .live send ack →
    ∀ k ∈ w.written w.conn, k < w.sink.nextSeq ∧ ∀ e ∈ w.sink.unsent, k < e.seq
  nothingWritten : ∀ send ack, w.phase = .live send ack → w.written w.conn = [] →
    w.sink.unacked = []

structure Inv (w : Uplink) : Prop where
  accounted : Accounted w.sink.queue w.sink.nextSeq w.received w.evicted w.sink.dropped
  entitled : ∀ c, ∀ r ∈ w.replies c, Entitled w.received w.evicted r
  orderly : w.Orderly

/-- The safety property: every number handed out is received, buffered, or evicted and
counted; and each connection carries increasing numbers from the oldest one buffered. -/
structure Safe (w : Uplink) : Prop where
  delivered : ∀ k, 1 ≤ k → k < w.sink.nextSeq →
    k ∈ w.received ∨ k ∈ w.sink.queue.map Entry.seq ∨ k ∈ w.evicted
  evictedOnce : w.evicted.Nodup
  counted : w.evicted.length = w.sink.dropped
  increasing : ∀ c, (w.written c).Pairwise (· < ·)
  fromOldest : ∀ c k, (w.written c).head? = some k → w.oldest c = some k

theorem Inv.safe {w : Uplink} (h : w.Inv) : w.Safe where
  delivered := h.accounted.accounted
  evictedOnce := h.accounted.evictedOrder.imp (fun hlt => ne_of_lt hlt)
  counted := h.accounted.counted
  increasing := h.orderly.increasing
  fromOldest := h.orderly.fromOldest

/-! ### The queue -/

section

variable {p q : List Entry} {n d : Nat} {R E : List Nat}

theorem Accounted.push (h : Accounted q n R E d) (line : List UInt8) :
    Accounted (q ++ [⟨n, line⟩]) (n + 1) R E d where
  increasing := by
    refine List.pairwise_append.mpr ⟨h.increasing, List.pairwise_singleton _ _, ?_⟩
    intro a ha b hb
    rw [List.mem_singleton.mp hb]
    exact h.handedOut a ha
  handedOut := by
    intro e he
    rcases List.mem_append.mp he with he | he
    · have := h.handedOut e he
      omega
    · rw [List.mem_singleton.mp he]
      exact Nat.lt_succ_self n
  accounted := by
    intro k hk hkn
    rw [List.map_append, List.mem_append]
    by_cases hlast : k = n
    · right; left; right
      simp [hlast]
    · rcases h.accounted k hk (by omega) with hR | hq | hE
      · exact Or.inl hR
      · exact Or.inr (Or.inl (Or.inl hq))
      · exact Or.inr (Or.inr hE)
  evictedFirst := by
    intro k hk
    obtain ⟨hkn, hkq⟩ := h.evictedFirst k hk
    refine ⟨by omega, fun e he => ?_⟩
    rcases List.mem_append.mp he with he | he
    · exact hkq e he
    · rw [List.mem_singleton.mp he]
      exact hkn
  evictedOrder := h.evictedOrder
  counted := h.counted

theorem Accounted.evict (h : Accounted (p ++ q) n R E d) :
    Accounted q n R (E ++ p.map Entry.seq) (d + p.length) where
  increasing := (List.pairwise_append.mp h.increasing).2.1
  handedOut := fun e he => h.handedOut e (List.mem_append_right p he)
  accounted := by
    intro k hk hkn
    rw [List.mem_append]
    rcases h.accounted k hk hkn with hR | hpq | hE
    · exact Or.inl hR
    · rw [List.map_append, List.mem_append] at hpq
      rcases hpq with hp | hq
      · exact Or.inr (Or.inr (Or.inr hp))
      · exact Or.inr (Or.inl hq)
    · exact Or.inr (Or.inr (Or.inl hE))
  evictedFirst := by
    intro k hk
    rcases List.mem_append.mp hk with hk | hk
    · obtain ⟨hkn, hkq⟩ := h.evictedFirst k hk
      exact ⟨hkn, fun e he => hkq e (List.mem_append_right p he)⟩
    · obtain ⟨a, ha, rfl⟩ := List.mem_map.mp hk
      exact ⟨h.handedOut a (List.mem_append_left q ha),
        fun e he => (List.pairwise_append.mp h.increasing).2.2 a ha e he⟩
  evictedOrder := by
    refine List.pairwise_append.mpr ⟨h.evictedOrder, ?_, ?_⟩
    · exact List.pairwise_map.mpr (List.pairwise_append.mp h.increasing).1
    · intro k hk j hj
      obtain ⟨a, ha, rfl⟩ := List.mem_map.mp hj
      exact (h.evictedFirst k hk).2 a (List.mem_append_left q ha)
  counted := by
    rw [List.length_append, List.length_map, h.counted]

theorem Accounted.acked (h : Accounted (p ++ q) n R E d)
    (hp : ∀ e ∈ p, 1 ≤ e.seq → e.seq ∈ R ∨ e.seq ∈ E) : Accounted q n R E d where
  increasing := (List.pairwise_append.mp h.increasing).2.1
  handedOut := fun e he => h.handedOut e (List.mem_append_right p he)
  accounted := by
    intro k hk hkn
    rcases h.accounted k hk hkn with hR | hpq | hE
    · exact Or.inl hR
    · rw [List.map_append, List.mem_append] at hpq
      rcases hpq with hkp | hkq
      · obtain ⟨e, he, rfl⟩ := List.mem_map.mp hkp
        rcases hp e he hk with hR | hE
        · exact Or.inl hR
        · exact Or.inr (Or.inr hE)
      · exact Or.inr (Or.inl hkq)
    · exact Or.inr (Or.inr hE)
  evictedFirst := by
    intro k hk
    obtain ⟨hkn, hkq⟩ := h.evictedFirst k hk
    exact ⟨hkn, fun e he => hkq e (List.mem_append_right p he)⟩
  evictedOrder := h.evictedOrder
  counted := h.counted

theorem Accounted.received {R' : List Nat} (h : Accounted q n R E d) (hR : ∀ k ∈ R, k ∈ R') :
    Accounted q n R' E d where
  increasing := h.increasing
  handedOut := h.handedOut
  accounted := fun k hk hkn => (h.accounted k hk hkn).imp (hR k) id
  evictedFirst := h.evictedFirst
  evictedOrder := h.evictedOrder
  counted := h.counted

end

theorem Entitled.mono {R R' E E' : List Nat} {r : Reply} (h : Entitled R E r)
    (hR : ∀ k ∈ R, k ∈ R') (hE : ∀ k ∈ E, k ∈ E') : Entitled R' E' r :=
  fun n hn k hk hge => (h n hn k hk hge).imp (hR k) (hE k)

theorem entitled_of_mayReply {w : Uplink} {r : Reply} (h : w.mayReply r = true) :
    Entitled w.received w.evicted r := by
  intro n hn k hk hge
  unfold mayReply at h
  rw [hn] at h
  cases hc : n.count with
  | none =>
      simp only [hc] at h
      cases h
  | some m =>
      simp only [hc, List.all_eq_true] at h
      have hkm : k ≤ m := PyNum.ge_of_count hc hge
      exact of_decide_eq_true (h k (List.mem_range'_1.mpr ⟨hk, by omega⟩))

/-! ### One action -/

section

variable {dumps : Nat → μ → Except PyErr (List UInt8)} {w : Uplink}

theorem inv_init (maxBufferBytes : Int) : (init maxBufferBytes).Inv where
  accounted :=
    { increasing := List.Pairwise.nil
      handedOut := fun _ he => absurd he List.not_mem_nil
      accounted := fun k hk hkn => absurd hkn (not_lt.mpr hk)
      evictedFirst := fun _ hk => absurd hk List.not_mem_nil
      evictedOrder := List.Pairwise.nil
      counted := rfl }
  entitled := fun _ _ hr => absurd hr List.not_mem_nil
  orderly :=
    { unopened := fun _ _ => rfl
      increasing := fun _ => List.Pairwise.nil
      fromOldest := fun _ _ h => by cases h
      ahead := fun _ _ _ _ hk => absurd hk List.not_mem_nil
      nothingWritten := fun _ _ _ _ => rfl }

/-- A call of `send`: the new entry joins the queue, and the eviction counts what it pops. -/
theorem inv_send (h : w.Inv) (message : μ) :
    Inv { w with
      sink := (w.sink.send dumps message).1
      evicted := w.evicted ++ (w.sink.send dumps message).2.1.map Entry.seq } := by
  rcases send_spec dumps w.sink message with ⟨hsink, hpop⟩ | ⟨line, hq, hnext, hdrop, hua, hus⟩
  · rw [hsink, hpop, List.map_nil, List.append_nil]
    exact h
  · refine ⟨?_, ?_, ?_⟩
    · have hpush := h.accounted.push line
      rw [hq] at hpush
      show Accounted (w.sink.send dumps message).1.queue (w.sink.send dumps message).1.nextSeq
        w.received _ (w.sink.send dumps message).1.dropped
      rw [hnext, hdrop]
      exact hpush.evict
    · intro c r hr
      exact (h.entitled c r hr).mono (fun _ hk => hk) (fun _ hk => List.mem_append_left _ hk)
    · refine ⟨h.orderly.unopened, h.orderly.increasing, h.orderly.fromOldest, ?_, ?_⟩
      · intro send ack hphase k hk
        obtain ⟨hkn, hku⟩ := h.orderly.ahead send ack hphase k hk
        constructor
        · show k < (w.sink.send dumps message).1.nextSeq
          omega
        · intro e he
          rcases List.mem_append.mp (hus.subset he) with he | he
          · exact hku e he
          · rw [List.mem_singleton.mp he]
            exact hkn
      · intro send ack hphase hw
        have hnil := h.orderly.nothingWritten send ack hphase hw
        rw [hnil] at hua
        exact List.suffix_nil.mp hua

/-- A new connection: what was written before counts as unsent again. -/
theorem inv_connects (h : w.Inv) :
    Inv { w with sink := w.sink.requeue, phase := .live .ready .reading, conn := w.conn + 1 } := by
  have hw : w.written (w.conn + 1) = [] := h.orderly.unopened _ (Nat.lt_succ_self _)
  refine ⟨?_, h.entitled, ?_⟩
  · have hq := w.sink.requeue_queue
    exact hq.symm ▸ h.accounted
  · refine ⟨fun c hc => h.orderly.unopened c (Nat.lt_of_succ_lt hc), h.orderly.increasing,
      h.orderly.fromOldest, ?_, fun _ _ _ _ => requeue_unacked _⟩
    intro _ _ _ k hk
    have hk : k ∈ w.written (w.conn + 1) := hk
    rw [hw] at hk
    exact absurd hk List.not_mem_nil

/-- The event cleared and nothing else. -/
theorem inv_wait (h : w.Inv) {send send' : SendLoop} {ack : AckLoop}
    (hphase : w.phase = .live send ack) :
    Inv { w with sink := { w.sink with hasData := false }, phase := .live send' ack } where
  accounted := h.accounted
  entitled := h.entitled
  orderly :=
    { unopened := h.orderly.unopened
      increasing := h.orderly.increasing
      fromOldest := h.orderly.fromOldest
      ahead := fun _ _ _ => h.orderly.ahead send ack hphase
      nothingWritten := fun _ _ _ => h.orderly.nothingWritten send ack hphase }

/-- A write: the entry moves between the deques, and onto the connection. -/
theorem inv_write (h : w.Inv) {send send' : SendLoop} {ack : AckLoop}
    (hphase : w.phase = .live send ack) {entry : Entry} {us : List Entry}
    (hus : w.sink.unsent = entry :: us) :
    Inv { w.write entry with
      sink := { w.sink with unsent := us, unacked := w.sink.unacked ++ [entry] }
      phase := .live send' ack } := by
  have hqueue : w.sink.queue = w.sink.unacked ++ entry :: us := by rw [queue, hus]
  have hmem : entry ∈ w.sink.queue := by
    rw [hqueue]
    exact List.mem_append_right _ List.mem_cons_self
  have hlater : ∀ e ∈ us, entry.seq < e.seq := by
    have hinc := h.accounted.increasing
    rw [hqueue] at hinc
    exact (List.pairwise_cons.mp (List.pairwise_append.mp hinc).2.1).1
  -- the queue as a whole is unchanged: one entry crosses from unsent to unacked
  refine ⟨?_, h.entitled, ?_, ?_, ?_, ?_, ?_⟩
  · have hsame : w.sink.unacked ++ [entry] ++ us = w.sink.queue := by
      rw [hqueue, List.append_assoc]
      rfl
    show Accounted (w.sink.unacked ++ [entry] ++ us) _ _ _ _
    rw [hsame]
    exact h.accounted
  · intro c hc
    have hc : w.conn < c := hc
    show Function.update w.written w.conn _ c = []
    rw [Function.update_of_ne (Nat.ne_of_gt hc)]
    exact h.orderly.unopened c hc
  · intro c
    show (Function.update w.written w.conn _ c).Pairwise (· < ·)
    by_cases hc : c = w.conn
    · rw [hc, Function.update_self, List.pairwise_append]
      refine ⟨h.orderly.increasing _, List.pairwise_singleton _ _, ?_⟩
      intro k hk j hj
      rw [List.mem_singleton.mp hj]
      refine (h.orderly.ahead send ack hphase k hk).2 entry ?_
      rw [hus]
      exact List.mem_cons_self
    · rw [Function.update_of_ne hc]
      exact h.orderly.increasing c
  · intro c k hk
    have hk : (Function.update w.written w.conn (w.written w.conn ++ [entry.seq]) c).head?
        = some k := hk
    show (if w.written w.conn = [] then _ else w.oldest : Nat → Option Nat) c = some k
    by_cases hfirst : w.written w.conn = []
    · rw [if_pos hfirst]
      by_cases hc : c = w.conn
      · subst hc
        -- nothing was written, so nothing is unacked and the entry heads the queue
        have hnil := h.orderly.nothingWritten send ack hphase hfirst
        rw [Function.update_self, hfirst] at hk
        rw [Function.update_self, hqueue, hnil]
        exact hk
      · rw [Function.update_of_ne hc] at hk ⊢
        exact h.orderly.fromOldest c k hk
    · rw [if_neg hfirst]
      refine h.orderly.fromOldest c k ?_
      by_cases hc : c = w.conn
      · subst hc
        rw [Function.update_self, List.head?_append_of_ne_nil _ hfirst] at hk
        exact hk
      · rw [Function.update_of_ne hc] at hk
        exact hk
  · intro _ _ _ k hk
    have hk : k ∈ Function.update w.written w.conn (w.written w.conn ++ [entry.seq]) w.conn := hk
    rw [Function.update_self, List.mem_append] at hk
    rcases hk with hk | hk
    · obtain ⟨hkn, hku⟩ := h.orderly.ahead send ack hphase k hk
      refine ⟨hkn, fun e he => hku e ?_⟩
      rw [hus]
      exact List.mem_cons_of_mem _ he
    · rw [List.mem_singleton.mp hk]
      exact ⟨h.accounted.handedOut entry hmem, hlater⟩
  · intro _ _ _ hnil
    have hnil : Function.update w.written w.conn (w.written w.conn ++ [entry.seq]) w.conn = [] :=
      hnil
    rw [Function.update_self] at hnil
    exact absurd hnil (List.append_ne_nil_of_right_ne_nil _ (List.cons_ne_nil _ _))

/-- A line handled by `_ack_loop`: what it pops, the consumer has. -/
theorem inv_readReply (h : w.Inv) {send : SendLoop} {ack ack' : AckLoop}
    (hphase : w.phase = .live send ack) {r : Reply} {rest : List Reply}
    (hr : w.replies w.conn = r :: rest) :
    Inv { w with
      sink := (w.sink.ackLine r).1
      phase := .live send ack'
      replies := Function.update w.replies w.conn rest } := by
  obtain ⟨acked, hua, hus, hnext, hdrop, hacked⟩ := ackLine_spec w.sink r
  have hentitled : Entitled w.received w.evicted r := by
    refine h.entitled w.conn r ?_
    rw [hr]
    exact List.mem_cons_self
  have hq : w.sink.queue = acked ++ (w.sink.ackLine r).1.queue := by
    rw [queue, queue, hua, hus, List.append_assoc]
  refine ⟨?_, ?_, h.orderly.unopened, h.orderly.increasing, h.orderly.fromOldest, ?_, ?_⟩
  · have hacc := h.accounted
    rw [hq] at hacc
    show Accounted (w.sink.ackLine r).1.queue (w.sink.ackLine r).1.nextSeq _ _
      (w.sink.ackLine r).1.dropped
    rw [hnext, hdrop]
    -- an entry is popped only when the line acknowledges it, and such a line may be sent only
    -- when the consumer has everything up to it
    refine hacc.acked (fun e he hpos => ?_)
    obtain ⟨n, hn, hge⟩ := hacked e he
    exact hentitled n hn e.seq hpos hge
  · intro c r' hr'
    have hr' : r' ∈ Function.update w.replies w.conn rest c := hr'
    refine h.entitled c r' ?_
    by_cases hc : c = w.conn
    · subst hc
      rw [Function.update_self] at hr'
      rw [hr]
      exact List.mem_cons_of_mem _ hr'
    · rwa [Function.update_of_ne hc] at hr'
  · intro _ _ _ k hk
    show k < (w.sink.ackLine r).1.nextSeq ∧ ∀ e ∈ (w.sink.ackLine r).1.unsent, k < e.seq
    rw [hnext, hus]
    exact h.orderly.ahead send ack hphase k hk
  · intro _ _ _ hnil
    have hempty := h.orderly.nothingWritten send ack hphase hnil
    rw [hua] at hempty
    exact (List.append_eq_nil_iff.mp hempty).2

/-- A change of phase that opens no connection. -/
theorem inv_phase (h : w.Inv) {phase : Phase}
    (hphase : ∀ send ack, phase = .live send ack → ∃ send' ack', w.phase = .live send' ack') :
    Inv { w with phase := phase } where
  accounted := h.accounted
  entitled := h.entitled
  orderly :=
    { unopened := h.orderly.unopened
      increasing := h.orderly.increasing
      fromOldest := h.orderly.fromOldest
      ahead := by
        intro send ack hp
        obtain ⟨send', ack', hw⟩ := hphase send ack hp
        exact h.orderly.ahead send' ack' hw
      nothingWritten := by
        intro send ack hp
        obtain ⟨send', ack', hw⟩ := hphase send ack hp
        exact h.orderly.nothingWritten send' ack' hw }

theorem inv_receive (h : w.Inv) (c : Nat) (entry : Entry) (rest : List Entry) :
    Inv { w with
      wire := Function.update w.wire c rest, received := w.received ++ [entry.seq] } where
  accounted := h.accounted.received (fun _ hk => List.mem_append_left _ hk)
  entitled := fun c r hr =>
    (h.entitled c r hr).mono (fun _ hk => List.mem_append_left _ hk) (fun _ hk => hk)
  orderly :=
    ⟨h.orderly.unopened, h.orderly.increasing, h.orderly.fromOldest, h.orderly.ahead,
      h.orderly.nothingWritten⟩

theorem inv_reply (h : w.Inv) (c : Nat) {r : Reply} (hr : w.mayReply r = true) :
    Inv { w with replies := Function.update w.replies c (w.replies c ++ [r]) } where
  accounted := h.accounted
  entitled := by
    intro c' r' hr'
    have hr' : r' ∈ Function.update w.replies c (w.replies c ++ [r]) c' := hr'
    by_cases hc : c' = c
    · subst hc
      rw [Function.update_self, List.mem_append] at hr'
      rcases hr' with hr' | hr'
      · exact h.entitled c' r' hr'
      · rw [List.mem_singleton.mp hr']
        exact entitled_of_mayReply hr
    · rw [Function.update_of_ne hc] at hr'
      exact h.entitled c' r' hr'
  orderly :=
    ⟨h.orderly.unopened, h.orderly.increasing, h.orderly.fromOldest, h.orderly.ahead,
      h.orderly.nothingWritten⟩

/-- **One action** keeps the invariant. -/
theorem inv_step {a : Action μ} {w' : Uplink} (h : w.Inv) (hs : step dumps w a = some w') :
    w'.Inv := by
  cases stepped_of_step hs with
  | send message => exact inv_send h message
  | dialFails hphase => exact inv_phase h (fun _ _ hp => by cases hp)
  | connects hphase => exact inv_connects h
  | wakes hphase => exact inv_phase h (fun _ _ hp => by cases hp)
  | waits hphase hpass => exact inv_wait h hphase
  | writes hphase hunsent hpass => exact inv_write h hphase hunsent
  | drainFails hphase => exact inv_phase h (fun _ _ _ => ⟨_, _, hphase⟩)
  | readReply hphase hreplies => exact inv_readReply h hphase hreplies
  | readFails hphase => exact inv_phase h (fun _ _ _ => ⟨_, _, hphase⟩)
  | reap hphase hraised =>
      refine inv_phase h (fun _ _ hp => ?_)
      split at hp <;> cases hp
  | receive hwire => exact inv_receive h _ _ _
  | reply hconn =>
      -- the consumer may send only what it is entitled to
      obtain ⟨hguard, -⟩ := Option.ite_none_right_eq_some.mp hs
      exact inv_reply h _ hguard.2

end

/-- **At-least-once delivery.** In every state of every interleaving, each sequence number
handed out is received by the consumer, still buffered, or was evicted at the cap and
counted; and on each connection the numbers written increase strictly, from the oldest
message buffered when the first was written. -/
theorem atLeastOnce (dumps : Nat → μ → Except PyErr (List UInt8)) (maxBufferBytes : Int)
    (as : List (Action μ)) : Always (step dumps) Safe (init maxBufferBytes) as := by
  have hinv : Always (step dumps) Inv (init maxBufferBytes) as :=
    always_of_step (fun _ _ _ h hs => inv_step h hs) (inv_init maxBufferBytes) as
  exact hinv.imp (fun _ h => h.safe)

end Uplink

end NanoTick
