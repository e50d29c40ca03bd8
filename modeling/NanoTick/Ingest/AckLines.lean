import NanoTick.Ingest.Buffer
import Mathlib.Tactic

set_option autoImplicit false

/-! # Lines the consumer may send

`_ack_loop` reads a line, decodes it and looks up its `ack`; the decoding is guarded, the
reading and the comparison with the written numbers are not. An exception that leaves the loop
ends the connection, and `_run` with it unless it is a connection error.

* `Handled`: a line is applied or ignored. `ReplyOk` says exactly which lines are, given what
  is unacknowledged (`handled_iff`).
* `Healthy`: no exception is on its way out of `_run`. From a healthy state the sink's own
  tasks can write everything it buffers (`Healthy.forwards`); once `_run` has ended nothing is
  written any more (`ended_silent`).
-/

namespace NanoTick

open Python Runs TcpSink

/-! ## Reading a line -/

/-- The default limit of an `asyncio.StreamReader`, in bytes before the newline. -/
def streamLimit : Nat := 65536

/-- The bytes of a line before its newline. -/
def lineBody (raw : List UInt8) : List UInt8 :=
  if raw.getLast? = some 10 then raw.dropLast else raw

/-- A line as `_ack_loop` gets it: `readline` raises `ValueError` above the limit; `loads` is
`json.loads`. -/
def readLine (loads : List UInt8 → Reply) (raw : List UInt8) : Reply :=
  if streamLimit < (lineBody raw).length then .error .valueError else loads raw

namespace TcpSink

/-- `_ack_loop` applies the line as a cumulative acknowledgement, or leaves the sink as it is,
and reads on. -/
def Handled (s : TcpSink) (r : Reply) : Prop :=
  (s.ackLine r).2 = none
    ∧ ((∃ n, ackOf r = some n
          ∧ (s.ackLine r).1.unacked = s.unacked.dropWhile (fun e => n.ge e.seq))
      ∨ (s.ackLine r).1 = s)

/-- The lines that are handled: not decodable in a way that is caught, without an `ack`, with a
number for it, or with anything while nothing is unacknowledged. -/
def ReplyOk (s : TcpSink) : Reply → Prop
  | .error e => ignoredByAckLoop e = true
  | .ok j => ∀ ack, j.index "ack" = .ok ack → ack.asNum ≠ none ∨ s.unacked = []

/-- The subscript fails only in ways that are caught. -/
theorem ignored_of_index {j : Json} {key : String} {e : PyErr} (h : j.index key = .error e) :
    ignoredByAckLoop e = true := by
  rcases Json.index_eq_error h with rfl | rfl
  · rfl
  · rfl

/-- The loop over an acknowledgement raises when it compares with something else than a number. -/
theorem popAcked_raised (ack : Json) (ua : List Entry) (bytes : Int) :
    (popAcked ack ua bytes).2.2
      = if ack.asNum ≠ none ∨ ua = [] then none else some .typeError := by
  induction ua generalizing bytes with
  | nil => simp [popAcked]
  | cons e ua ih =>
      unfold popAcked
      cases hnum : ack.asNum with
      | none =>
          have hge : ack.ge e.seq = .error .typeError := by rw [Json.ge, hnum]
          rw [hge]
          simp
      | some n =>
          have hge : ack.ge e.seq = .ok (n.ge e.seq) := by rw [Json.ge, hnum]
          rw [hge]
          cases n.ge e.seq with
          | false => simp
          | true =>
              dsimp only
              rw [ih, hnum]
              simp

/-- A line with an `ack`: the loop over it runs. -/
theorem ackLine_ok (s : TcpSink) {j ack : Json} (hindex : j.index "ack" = .ok ack) :
    s.ackLine (.ok j)
      = ({ s with
            unacked := (popAcked ack s.unacked s.bufferedBytes).1
            bufferedBytes := (popAcked ack s.unacked s.bufferedBytes).2.1 },
          (popAcked ack s.unacked s.bufferedBytes).2.2) := by
  have hbind : (Except.ok j : Reply).bind (fun j => j.index "ack") = .ok ack := hindex
  rw [ackLine, hbind]

/-- A line without one: the sink stays as it is. -/
theorem ackLine_error (s : TcpSink) {r : Reply} {e : PyErr}
    (hr : r.bind (fun j => j.index "ack") = .error e) :
    s.ackLine r = (s, if ignoredByAckLoop e then none else some e) := by
  rw [ackLine, hr]

/-- Which lines end the loop. -/
theorem ackLine_raised_iff (s : TcpSink) (r : Reply) : (s.ackLine r).2 = none ↔ ReplyOk s r := by
  cases r with
  | error e =>
      rw [s.ackLine_error (e := e) rfl, ReplyOk]
      cases ignoredByAckLoop e with
      | true => simp
      | false => simp
  | ok j =>
      cases hindex : j.index "ack" with
      | error e =>
          have hbind : (Except.ok j : Reply).bind (fun j => j.index "ack") = .error e := hindex
          rw [s.ackLine_error hbind, ReplyOk, hindex, if_pos (ignored_of_index hindex)]
          simp
      | ok ack =>
          rw [s.ackLine_ok hindex, ReplyOk, hindex, popAcked_raised]
          simp [or_iff_not_imp_left]

/-- A line that does not end the loop is applied or ignored. -/
theorem applied_or_ignored {s : TcpSink} {r : Reply} (h : ReplyOk s r) :
    (∃ n, ackOf r = some n
        ∧ (s.ackLine r).1.unacked = s.unacked.dropWhile (fun e => n.ge e.seq))
      ∨ (s.ackLine r).1 = s := by
  cases r with
  | error e =>
      right
      rw [s.ackLine_error (e := e) rfl]
  | ok j =>
      cases hindex : j.index "ack" with
      | error e =>
          have hbind : (Except.ok j : Reply).bind (fun j => j.index "ack") = .error e := hindex
          right
          rw [s.ackLine_error hbind]
      | ok ack =>
          have hbind : (Except.ok j : Reply).bind (fun j => j.index "ack") = .ok ack := hindex
          obtain ⟨hua, hbytes⟩ := popAcked_eq ack s.unacked s.bufferedBytes
          rw [s.ackLine_ok hindex]
          cases hnum : ack.asNum with
          | some n =>
              have hackOf : ackOf (.ok j) = some n := by
                rw [ackOf, hbind]
                exact hnum
              refine Or.inl ⟨n, hackOf, ?_⟩
              rw [hua, hnum]
              rfl
          | none =>
              -- not a number, so nothing was unacknowledged and nothing is popped
              have hnil : s.unacked = [] := (h ack hindex).resolve_left (fun hn => hn hnum)
              right
              rw [hua, hbytes]
              obtain ⟨maxBytes, unsent, unacked, bytes, next, has, dropped⟩ := s
              have hnil : unacked = [] := hnil
              subst hnil
              simp

/-- **Which lines are handled.** -/
theorem handled_iff (s : TcpSink) (r : Reply) : Handled s r ↔ ReplyOk s r := by
  rw [Handled, ackLine_raised_iff]
  exact ⟨fun h => h.1, fun h => ⟨h, applied_or_ignored h⟩⟩

end TcpSink

/-! ## `_run` under any lines -/

namespace Uplink

variable {μ : Type}

/-- No exception that `_run` does not catch is on its way out. -/
structure Healthy (w : Uplink) : Prop where
  running : w.phase ≠ .ended
  caught : ∀ send ack e, w.phase = .live send ack → send = .raised e ∨ ack = .raised e →
    e = .osError

/-- The actions of the sink's own tasks and of its connection. -/
def OfSink : Action μ → Prop
  | .dialFails | .connects | .wakes | .sendLoop | .drainFails | .readFails | .reap _ => True
  | _ => False

/-- The sink's own tasks can write everything buffered, in order, on one connection. -/
def Forwards (dumps : Nat → μ → Except PyErr (List UInt8)) (w : Uplink) : Prop :=
  ∃ as w', (∀ a ∈ as, OfSink a) ∧ exec (anyStep dumps) w as = some w'
    ∧ ∃ before, w'.written w'.conn = before ++ w.sink.queue.map Entry.seq

/-- A line that is read now is handled. -/
def LineHandled (w : Uplink) (a : Action μ) : Prop :=
  ∀ r rest, a = .readReply → w.replies w.conn = r :: rest → Handled w.sink r

/-- A line that is read now is one of those that are handled. -/
def LineOk (w : Uplink) (a : Action μ) : Prop :=
  ∀ r rest, a = .readReply → w.replies w.conn = r :: rest → ReplyOk w.sink r

variable {dumps : Nat → μ → Except PyErr (List UInt8)} {w w' : Uplink} {a : Action μ}

/-! ### Forwarding -/

/-- The send loop, left to itself, writes everything unsent. -/
theorem exec_sendLoops {send : SendLoop} {ack : AckLoop} (hphase : w.phase = .live send ack)
    (hres : resumable w.sink send = true) :
    ∃ w', exec (anyStep dumps) w (List.replicate w.sink.unsent.length .sendLoop) = some w'
      ∧ w'.written w'.conn = w.written w.conn ++ w.sink.unsent.map Entry.seq := by
  generalize hus : w.sink.unsent = us
  induction us generalizing w send with
  | nil => exact ⟨w, rfl, by simp⟩
  | cons entry us ih =>
      rcases w.sink.sendPass_spec with ⟨hnil, -⟩ | ⟨entry', us', hus', hpass, -⟩
      · rw [hus] at hnil
        cases hnil
      · rw [hus] at hus'
        cases hus'
        -- after a write the loop is in `drain()`, from which it resumes by itself
        let w₁ : Uplink := { w.write entry with
          sink := { w.sink with unsent := us, unacked := w.sink.unacked ++ [entry] }
          phase := .live .draining ack }
        have hstep : anyStep dumps w .sendLoop = some w₁ := by
          simp only [anyStep, step, hphase, hres, if_true, hpass]
          rfl
        have hwritten₁ : w₁.written w₁.conn = w.written w.conn ++ [entry.seq] :=
          Function.update_self _ _ _
        obtain ⟨w', hexec, hwritten⟩ := ih (w := w₁) rfl rfl rfl
        refine ⟨w', exec_cons_eq_some.mpr ⟨w₁, hstep, hexec⟩, ?_⟩
        rw [hwritten, hwritten₁, List.append_assoc]
        rfl

/-- From the dial on, a connection carries everything buffered. -/
theorem forwards_of_dialing (hphase : w.phase = .dialing) : w.Forwards dumps := by
  let w₁ : Uplink :=
    { w with sink := w.sink.requeue, phase := .live .ready .reading, conn := w.conn + 1 }
  have hstep : anyStep dumps w .connects = some w₁ := by
    simp only [anyStep, step, hphase]
    rfl
  obtain ⟨w', hexec, hwritten⟩ : ∃ w', exec (anyStep dumps) w₁
      (List.replicate w₁.sink.unsent.length .sendLoop) = some w'
      ∧ w'.written w'.conn = w₁.written w₁.conn ++ w₁.sink.unsent.map Entry.seq :=
    exec_sendLoops rfl rfl
  refine ⟨_, w', ?_, exec_cons_eq_some.mpr ⟨w₁, hstep, hexec⟩, w₁.written w₁.conn, ?_⟩
  · intro a ha
    rcases List.mem_cons.mp ha with rfl | ha
    · trivial
    · rw [List.eq_of_mem_replicate ha]
      trivial
  · have hunsent : w₁.sink.unsent = w.sink.queue := requeue_unsent w.sink
    rw [hwritten, hunsent]

/-- A step of the sink's own tasks that keeps the queue, before the rest. -/
theorem Forwards.cons (h : w'.Forwards dumps) (hs : anyStep dumps w a = some w') (ha : OfSink a)
    (hqueue : w'.sink.queue = w.sink.queue) : w.Forwards dumps := by
  obtain ⟨as, w₂, has, hexec, before, hwritten⟩ := h
  refine ⟨a :: as, w₂, ?_, exec_cons_eq_some.mpr ⟨w', hs, hexec⟩, before, ?_⟩
  · intro b hb
    rcases List.mem_cons.mp hb with rfl | hb
    · exact ha
    · exact has b hb
  · rw [hwritten, hqueue]

theorem forwards_of_sleeping (hphase : w.phase = .sleeping) : w.Forwards dumps := by
  have hstep : anyStep dumps w .wakes = some { w with phase := .dialing } := by
    simp only [anyStep, step, hphase]
  exact (forwards_of_dialing rfl).cons hstep trivial rfl

/-- A connection that is lost is dialed again. -/
theorem forwards_of_raised {send : SendLoop} (hphase : w.phase = .live send (.raised .osError)) :
    w.Forwards dumps := by
  have hstep : anyStep dumps w (.reap .osError) = some { w with phase := .sleeping } := by
    simp only [anyStep, step, hphase, or_true, if_true]
  exact (forwards_of_sleeping rfl).cons hstep trivial rfl

/-- **A healthy sink keeps forwarding**: whatever the state of its connection, its own tasks
can write everything it buffers. -/
theorem Healthy.forwards (h : w.Healthy) : w.Forwards dumps := by
  cases hphase : w.phase with
  | dialing => exact forwards_of_dialing hphase
  | sleeping => exact forwards_of_sleeping hphase
  | ended => exact absurd hphase h.running
  | live send ack =>
      cases ack with
      | raised e =>
          rw [h.caught send _ e hphase (Or.inr rfl)] at hphase
          exact forwards_of_raised hphase
      | reading =>
          have hstep : anyStep dumps w .readFails
              = some { w with phase := .live send (.raised .osError) } := by
            simp only [anyStep, step, hphase]
          exact (forwards_of_raised rfl).cons hstep trivial rfl

/-- **Once `_run` has ended**, nothing is written on any connection, whatever is sent. -/
theorem ended_silent (h : w.phase = .ended) {as : List (Action μ)}
    (hexec : exec (anyStep dumps) w as = some w') : w'.phase = .ended ∧ w'.written = w.written := by
  have hstep : ∀ (v : Uplink) (a : Action μ) (v' : Uplink),
      v.phase = .ended ∧ v.written = w.written → anyStep dumps v a = some v' →
        v'.phase = .ended ∧ v'.written = w.written := by
    rintro v a v' ⟨hphase, hwritten⟩ hs
    have hlive : ∀ send ack, v.phase ≠ .live send ack := fun send ack hl => by
      rw [hphase] at hl
      cases hl
    cases stepped_of_anyStep hs with
    | send message => exact ⟨hphase, hwritten⟩
    | receive hwire => exact ⟨hphase, hwritten⟩
    | reply hconn => exact ⟨hphase, hwritten⟩
    | dialFails hdial => exact absurd (hphase.symm.trans hdial) (by simp)
    | connects hdial => exact absurd (hphase.symm.trans hdial) (by simp)
    | wakes hsleep => exact absurd (hphase.symm.trans hsleep) (by simp)
    | waits hl => exact absurd hl (hlive _ _)
    | writes hl => exact absurd hl (hlive _ _)
    | drainFails hl => exact absurd hl (hlive _ _)
    | readReply hl => exact absurd hl (hlive _ _)
    | readFails hl => exact absurd hl (hlive _ _)
    | reap hl => exact absurd hl (hlive _ _)
  exact exec_invariant (P := fun v => v.phase = .ended ∧ v.written = w.written) hstep ⟨h, rfl⟩ hexec

/-! ### One action -/

/-- No line in flight reads as a connection error: `json.loads` does no input or output. -/
def Decoded (w : Uplink) : Prop := ∀ c, ∀ r ∈ w.replies c, r ≠ .error .osError

theorem decoded_step (h : w.Decoded) (ha : ∀ c r, a = .reply c r → r ≠ .error .osError)
    (hs : anyStep dumps w a = some w') : w'.Decoded := by
  cases stepped_of_anyStep hs with
  | reply hconn =>
      rename_i c r
      intro c' r' hr'
      have hr' : r' ∈ Function.update w.replies c (w.replies c ++ [r]) c' := hr'
      by_cases hc : c' = c
      · subst hc
        rw [Function.update_self, List.mem_append] at hr'
        rcases hr' with hr' | hr'
        · exact h c' r' hr'
        · exact ha c' r' (by rw [List.mem_singleton.mp hr'])
      · rw [Function.update_of_ne hc] at hr'
        exact h c' r' hr'
  | readReply hphase hreplies =>
      rename_i send r rest
      intro c' r' hr'
      have hr' : r' ∈ Function.update w.replies w.conn rest c' := hr'
      by_cases hc : c' = w.conn
      · subst hc
        rw [Function.update_self] at hr'
        refine h w.conn r' ?_
        rw [hreplies]
        exact List.mem_cons_of_mem _ hr'
      · rw [Function.update_of_ne hc] at hr'
        exact h c' r' hr'
  | _ => exact h

/-- What `_ack_loop` raises is never a connection error. -/
theorem ackLine_ne_osError {s : TcpSink} {r : Reply} (hr : r ≠ .error .osError) :
    (s.ackLine r).2 ≠ some .osError := by
  cases hbind : r.bind (fun j => j.index "ack") with
  | error e =>
      rw [ackLine, hbind]
      dsimp only
      cases hig : ignoredByAckLoop e with
      | true => simp
      | false =>
          simp only [Bool.false_eq_true, if_false, ne_eq, Option.some.injEq]
          rintro rfl
          cases r with
          | error e' =>
              cases hbind
              exact hr rfl
          | ok j =>
              have hindex : j.index "ack" = .error .osError := hbind
              rw [ignored_of_index hindex] at hig
              cases hig
  | ok ack =>
      rw [ackLine, hbind]
      dsimp only
      rw [popAcked_raised]
      split <;> simp

/-- **One action** leaves a healthy system healthy exactly when it does not read a line that
is not handled. -/
theorem healthy_step (h : w.Healthy) (hd : w.Decoded) (hs : anyStep dumps w a = some w') :
    w'.Healthy ↔ LineOk w a := by
  -- only `readReply` can raise something else than a connection error
  have hother : w'.Healthy → a ≠ .readReply → (w'.Healthy ↔ LineOk w a) := fun hw' hne =>
    ⟨fun _ r rest hread _ => absurd hread hne, fun _ => hw'⟩
  have hsame : ∀ v : Uplink, v.phase = w.phase → v.Healthy := fun v hv =>
    ⟨hv ▸ h.running, fun send ack e hp => h.caught send ack e (hv ▸ hp)⟩
  have hoff : ∀ v : Uplink, v.phase ≠ .ended → (∀ send ack, v.phase ≠ .live send ack) →
      v.Healthy := fun v hrun hlive => ⟨hrun, fun send ack e hp => absurd hp (hlive send ack)⟩
  have hlive : ∀ (v : Uplink) (send : SendLoop) (ack : AckLoop), v.phase = .live send ack →
      (∀ e, send = .raised e → e = .osError) → (∀ e, ack = .raised e → e = .osError) →
      v.Healthy := by
    intro v send ack hv hsend hack
    refine ⟨by simp [hv], fun send' ack' e hp hr => ?_⟩
    rw [hv] at hp
    cases hp
    exact hr.elim (hsend e) (hack e)
  cases stepped_of_anyStep hs with
  | send message => exact hother (hsame _ rfl) (by simp)
  | receive hwire => exact hother (hsame _ rfl) (by simp)
  | reply hconn => exact hother (hsame _ rfl) (by simp)
  | dialFails hphase => exact hother (hoff _ (by simp) (by simp)) (by simp)
  | wakes hphase => exact hother (hoff _ (by simp) (by simp)) (by simp)
  | connects hphase =>
      refine hother (hlive _ _ _ rfl ?_ ?_) (by simp)
      · exact fun e hr => by cases hr
      · exact fun e hr => by cases hr
  | waits hphase hpass =>
      refine hother (hlive _ _ _ rfl ?_ ?_) (by simp)
      · exact fun e hr => by cases hr
      · exact fun e hr => h.caught _ _ e hphase (Or.inr hr)
  | writes hphase hunsent hpass =>
      refine hother (hlive _ _ _ rfl ?_ ?_) (by simp)
      · exact fun e hr => by cases hr
      · exact fun e hr => h.caught _ _ e hphase (Or.inr hr)
  | drainFails hphase =>
      refine hother (hlive _ _ _ rfl ?_ ?_) (by simp)
      · exact fun e hr => (SendLoop.raised.inj hr).symm
      · exact fun e hr => h.caught _ _ e hphase (Or.inr hr)
  | readFails hphase =>
      refine hother (hlive _ _ _ rfl ?_ ?_) (by simp)
      · exact fun e hr => h.caught _ _ e hphase (Or.inl hr)
      · exact fun e hr => (AckLoop.raised.inj hr).symm
  | reap hphase hraised =>
      have he := h.caught _ _ _ hphase hraised
      refine hother (hoff _ ?_ ?_) (by simp)
      · simp [he]
      · simp [he]
  | readReply hphase hreplies =>
      rename_i send r rest
      have hline : LineOk w (.readReply : Action μ) ↔ (w.sink.ackLine r).2 = none := by
        rw [ackLine_raised_iff]
        constructor
        · exact fun hok => hok r rest rfl hreplies
        · intro hok r' rest' _ hr'
          rw [hreplies] at hr'
          cases hr'
          exact hok
      rw [hline]
      have hne : (w.sink.ackLine r).2 ≠ some .osError := by
        refine ackLine_ne_osError (hd w.conn r ?_)
        rw [hreplies]
        exact List.mem_cons_self
      cases hraised : (w.sink.ackLine r).2 with
      | none =>
          refine ⟨fun _ => rfl, fun _ => hlive _ _ _ rfl ?_ ?_⟩
          · exact fun e hr => h.caught send _ e hphase (Or.inl hr)
          · exact fun e hr => by cases hr
      | some e =>
          rw [hraised] at hne
          refine ⟨fun hh => ?_, fun hn => by cases hn⟩
          exact absurd (congrArg some (hh.caught send _ e rfl (Or.inr rfl))) hne

/-- **Lines and the life of the sink.** For any cap, messages, interleaving and lines of
bytes: each line read is applied or ignored, and the sink stays healthy and able to forward
everything, exactly when every line read is one that `ReplyOk` describes. -/
theorem lines_handled_iff (loads : List UInt8 → Reply) (hloads : ∀ raw, loads raw ≠ .error .osError)
    (dumps : Nat → μ → Except PyErr (List UInt8)) (maxBufferBytes : Int) (as : List (Action μ))
    (hlines : ∀ c r, .reply c r ∈ as → ∃ raw, r = readLine loads raw) :
    (AllSteps (anyStep dumps) LineHandled (init maxBufferBytes) as
        ∧ Always (anyStep dumps) (fun w => w.Healthy ∧ w.Forwards dumps) (init maxBufferBytes) as)
      ↔ AllSteps (anyStep dumps) LineOk (init maxBufferBytes) as := by
  have hraw : ∀ a ∈ as, ∀ c r, a = .reply c r → r ≠ .error .osError := by
    rintro a ha c r rfl
    obtain ⟨raw, rfl⟩ := hlines c r ha
    unfold readLine
    split
    · simp
    · exact hloads raw
  have hhandled : (LineHandled : Uplink → Action μ → Prop) = LineOk := by
    funext w a
    simp only [LineHandled, LineOk, handled_iff]
  have hiff : Always (anyStep dumps) Healthy (init maxBufferBytes) as
      ↔ AllSteps (anyStep dumps) LineOk (init maxBufferBytes) as := by
    refine always_iff_allSteps (I := Decoded)
      (fun _ _ _ hd ha hs => decoded_step hd ha hs)
      (fun _ _ _ hd h _ hs => healthy_step h hd hs) ?_ ?_
      (allSteps_of_forall (p := fun a => ∀ c r, a = Action.reply c r → r ≠ .error .osError)
        hraw _)
    · exact fun c r hr => absurd hr List.not_mem_nil
    · exact ⟨by simp [init], fun send ack e hp => by simp [init] at hp⟩
  rw [hhandled]
  constructor
  · exact fun h => h.1
  · exact fun h => ⟨h, (hiff.mpr h).imp (fun w hw => ⟨hw, hw.forwards⟩)⟩

/-- `json.loads` on the line `{"ack": "x"}` and on text that is not JSON. -/
def loadsAckX (raw : List UInt8) : Reply :=
  if raw = [123, 34, 97, 99, 107, 34, 58, 32, 34, 120, 34, 125, 10] then
    .ok (.obj [("ack", .str "x")])
  else .error .jsonDecodeError

theorem loadsAckX_errors {raw : List UInt8} {e : PyErr} (he : loadsAckX raw = .error e) :
    e = .jsonDecodeError ∨ e = .unicodeDecodeError := by
  unfold loadsAckX at he
  split at he <;> cases he
  exact Or.inl rfl

/-- A message is written, and the consumer answers with a line. -/
def answerRun (raw : List UInt8) : List (Action (List UInt8)) :=
  [.send [32], .connects, .sendLoop, .reply 1 (readLine loadsAckX raw), .readReply]

theorem answerRun_lines (raw : List UInt8) (c : Nat) (r : Reply)
    (h : .reply c r ∈ answerRun raw) : ∃ raw, r = readLine loadsAckX raw := by
  simp [answerRun] at h
  exact ⟨raw, h.2⟩

/-- The line `x` is ignored, and the sink forwards on. -/
theorem garbage_handled :
    AllSteps (anyStep (fun _ m => .ok m)) LineHandled (init 1000) (answerRun [120, 10])
      ∧ Always (anyStep (fun _ m => .ok m))
          (fun w => w.Healthy ∧ w.Forwards (fun _ (m : List UInt8) => .ok m)) (init 1000)
          (answerRun [120, 10]) := by
  refine (lines_handled_iff loadsAckX ?_ (fun _ m => .ok m) 1000 _ (answerRun_lines _)).mpr ?_
  · intro raw hraw
    rcases loadsAckX_errors hraw with h | h <;> cases h
  · simp [answerRun, AllSteps, LineOk, anyStep, step, init, readLine, lineBody, streamLimit,
      loadsAckX, TcpSink.init, TcpSink.send, evict, Entry.cost, entryOverheadBytes, requeue,
      extendleft, resumable, sendPass, Uplink.write, ReplyOk, ignoredByAckLoop]

/-- The line `{"ack": "x"}` ends `_run`: the comparison with the written number raises
`TypeError`, which nothing catches. -/
theorem ended_by_ackX : ¬ ∀ (loads : List UInt8 → Reply)
    (_ : ∀ raw e, loads raw = .error e → e = .jsonDecodeError ∨ e = .unicodeDecodeError)
    (dumps : Nat → List UInt8 → Except PyErr (List UInt8)) (maxBufferBytes : Int)
    (as : List (Action (List UInt8)))
    (_ : ∀ c r, .reply c r ∈ as → ∃ raw, r = readLine loads raw),
    Always (anyStep dumps) (fun w => w.phase ≠ .ended) (init maxBufferBytes) as := by
  intro h
  let raw : List UInt8 := [123, 34, 97, 99, 107, 34, 58, 32, 34, 120, 34, 125, 10]
  have hlines : ∀ c r, .reply c r ∈ answerRun raw ++ [.reap .typeError] →
      ∃ raw, r = readLine loadsAckX raw := by
    intro c r hr
    rcases List.mem_append.mp hr with hr | hr
    · exact answerRun_lines raw c r hr
    · cases List.mem_singleton.mp hr
  have hrun : ∃ w, exec (anyStep (fun _ m => .ok m)) (init 1000)
      (answerRun raw ++ [.reap .typeError]) = some w ∧ w.phase = .ended := by
    simp [raw, answerRun, exec, anyStep, step, init, TcpSink.init, readLine, lineBody,
      streamLimit, loadsAckX, TcpSink.send, evict, Entry.cost, entryOverheadBytes, requeue,
      extendleft, resumable, sendPass, Uplink.write, ackLine, Except.bind, Json.index,
      Json.asNum, popAcked, Json.ge]
  obtain ⟨w, hw, hended⟩ := hrun
  exact (h loadsAckX (fun _ _ he => loadsAckX_errors he) (fun _ m => .ok m) 1000 _ hlines).last hw
    hended

end Uplink

end NanoTick
