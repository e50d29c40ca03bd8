import NanoTick.Ingest.Buffer
import Mathlib.Tactic

set_option autoImplicit false

/-! # No lost wakeup

`_send_loop` waits for `_has_data` when it finds nothing to send. The event is set by `send`,
unless its eviction loop raised, and by `_run` after a requeue; only `_send_loop` clears it.

`Awake` says that the event is set whenever something is queued. Every operation of the sink
keeps it, the two that can go wrong for a reason of their own: a `send` that raises has emptied
both deques, and `_send_loop` clears the event only when it has found nothing.
-/

namespace NanoTick

open Python Runs TcpSink

namespace TcpSink

/-- The event is set whenever something is queued. -/
def Awake (s : TcpSink) : Prop := s.unsent ≠ [] → s.hasData = true

theorem awake_init (maxBufferBytes : Int) : (init maxBufferBytes).Awake := fun h => absurd rfl h

/-- An eviction loop that raised has popped everything. -/
theorem evict_raised {max : Int} {ua us : List Entry} {bytes : Int} {dropped : Nat}
    (h : (evict max ua us bytes dropped).raised ≠ none) :
    (evict max ua us bytes dropped).unsent = [] := by
  rcases evict_ends max ua us bytes dropped with ⟨hnone, -⟩ | ⟨-, hunsent, -⟩
  · exact absurd hnone h
  · exact hunsent

section

variable {s : TcpSink}

/-- **A call of `send`** sets the event, or leaves nothing to send, or changes nothing. -/
theorem Awake.send {μ : Type} {dumps : Nat → μ → Except PyErr (List UInt8)} (h : s.Awake)
    (message : μ) : (s.send dumps message).1.Awake := by
  unfold TcpSink.send
  cases dumps s.nextSeq message with
  | error e => exact h
  | ok bytes =>
      intro hunsent
      dsimp only at hunsent ⊢
      by_cases hraised : (evict s.maxBufferBytes s.unacked
          (s.unsent ++ [⟨s.nextSeq, bytes ++ [10]⟩])
          (s.bufferedBytes + Entry.cost ⟨s.nextSeq, bytes ++ [10]⟩) s.dropped).raised = none
      · rw [if_pos hraised]
      · exact absurd (evict_raised hraised) hunsent

/-- **A new connection** sets the event when the requeue has left something to send. -/
theorem awake_requeue (s : TcpSink) : s.requeue.Awake := by
  intro hunsent
  show (!s.requeue.unsent.isEmpty || s.hasData) = true
  rw [List.isEmpty_eq_false_iff.mpr hunsent]
  rfl

/-- **A pass of `_send_loop`** clears the event only when there is nothing to send. -/
theorem Awake.sendPass (h : s.Awake) : s.sendPass.1.Awake := by
  rcases s.sendPass_spec with ⟨hunsent, hpass⟩ | ⟨entry, us, hunsent, hpass, -⟩
  · rw [hpass]
    exact fun hne => absurd hunsent hne
  · rw [hpass]
    exact fun _ => h (hunsent ▸ List.cons_ne_nil entry us)

/-- **A line from the consumer** concerns neither what is to be sent nor the event. -/
theorem Awake.ackLine (h : s.Awake) (r : Reply) : (s.ackLine r).1.Awake := by
  unfold TcpSink.ackLine
  cases r.bind (fun j => j.index "ack") with
  | error e => exact h
  | ok ack => exact h

end

end TcpSink

namespace Uplink

variable {μ : Type} {dumps : Nat → μ → Except PyErr (List UInt8)}

/-- **One action** of any task, with any consumer. -/
theorem awake_step {w w' : Uplink} {a : Action μ} (h : w.sink.Awake)
    (hs : anyStep dumps w a = some w') : w'.sink.Awake := by
  rcases anyStep_sink hs with ⟨message, -, hsink⟩ | ⟨r, hsink, -⟩ | ⟨-, hsink⟩
  · rw [hsink]
    exact h.send message
  · rw [hsink]
    exact h.ackLine r
  · rcases hsink with hsink | hsink | hsink
    · rw [hsink]
      exact h
    · rw [hsink]
      exact awake_requeue _
    · rw [hsink]
      exact h.sendPass

/-- A `_send_loop` that waits is not kept from what is queued: it can run, and then writes the
oldest entry. -/
def CanSend (dumps : Nat → μ → Except PyErr (List UInt8)) (w : Uplink) : Prop :=
  ∀ ack entry us, w.phase = .live .waiting ack → w.sink.unsent = entry :: us →
    ∃ w', anyStep dumps w .sendLoop = some w' ∧ w'.sink.unsent = us
      ∧ w'.wire w.conn = w.wire w.conn ++ [entry]

theorem canSend_of_awake {w : Uplink} (h : w.sink.Awake) : CanSend dumps w := by
  intro ack entry us hphase hunsent
  have hdata : w.sink.hasData = true := h (hunsent ▸ List.cons_ne_nil entry us)
  have hpass : w.sink.sendPass
      = ({ w.sink with unsent := us, unacked := w.sink.unacked ++ [entry] }, some entry) := by
    simp only [sendPass, hunsent]
  have hstep : anyStep dumps w .sendLoop = some { w.write entry with
      sink := { w.sink with unsent := us, unacked := w.sink.unacked ++ [entry] }
      phase := .live .draining ack } := by
    simp only [anyStep, step, hphase, resumable, hdata, if_true, hpass]
  refine ⟨_, hstep, rfl, ?_⟩
  exact Function.update_self w.conn (w.wire w.conn ++ [entry]) w.wire

/-- **No lost wakeup.** In every state of every interleaving, with any cap and any lines from
the consumer, the event is set when something is queued; so a `_send_loop` that waits can run
and writes the oldest entry. -/
theorem no_lost_wakeup (dumps : Nat → μ → Except PyErr (List UInt8)) (maxBufferBytes : Int)
    (as : List (Action μ)) :
    Always (anyStep dumps)
      (fun w => (w.sink.unsent ≠ [] → w.sink.hasData = true) ∧ CanSend dumps w)
      (init maxBufferBytes) as := by
  have hawake : Always (anyStep dumps) (fun w => w.sink.Awake) (init maxBufferBytes) as :=
    always_of_step (fun _ _ _ h hs => awake_step h hs) (awake_init maxBufferBytes) as
  exact hawake.imp (fun _ h => ⟨h, canSend_of_awake h⟩)

end Uplink

end NanoTick
