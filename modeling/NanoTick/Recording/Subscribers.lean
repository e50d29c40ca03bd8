import NanoTick.Basic.AtLeastOnce
import NanoTick.Recording.History
import Mathlib.Tactic

set_option autoImplicit false

/-! # Two subscribers

The recorder and the reference receiver (`tools/receiver.py`) subscribe to the same ticks, each with
a session of its own in the broker. Either connection may break at any time; then the broker hands
out again what that subscriber has not acknowledged. Both drop what is not above the highest id of
its venue and symbol, so each takes the ticks queued for it once and in order, and in the end what
the recorder has on disk is what the receiver processed (`subscribers_exactlyOnce`).
-/

namespace NanoTick

open AtLeastOnce JsonText Python Runs Stateful Stateful.Proc
open RecorderState (Wired Malformed caught keyed readTick Lost Readable ticksAt floors)

/-! ## The receiver -/

/-- `Receiver`, with the ticks `process` was called with. -/
structure Receiver where
  lastTradeId : TickKey → Option PyNum
  received : Nat
  duplicates : Nat
  processed : List Json

namespace Receiver

def init : Receiver := ⟨fun _ => none, 0, 0, []⟩

/-- `last_trade_id.get(key, -1)`. -/
def lastOf (s : Receiver) (key : TickKey) : PyNum :=
  if Lost key then .rat (-1) else (s.lastTradeId key).getD (.rat (-1))

/-- `last_trade_id[key] = trade_id`. An entry that no lookup finds is left out. -/
def setLast (s : Receiver) (key : TickKey) (id : PyNum) : Receiver :=
  if Lost key then s
  else { s with lastTradeId := Function.update s.lastTradeId key (some id) }

/-- What follows the `try` block, once the id is known to be a number. -/
def take (tick : Json) (key : TickKey) (id : PyNum) (s : Receiver) : Receiver :=
  if id.le (s.lastOf key) then { s with duplicates := s.duplicates + 1 }
  else
    let s := s.setLast key id
    { s with received := s.received + 1, processed := s.processed ++ [tick] }

/-- `on_message`. -/
def onMessage (r : Reading) (payload : Bytes) : Proc Receiver PyErr Unit :=
  match readTick r payload with
  | .error e => if caught e then pure () else raise e
  | .ok (tick, venue, symbol, tradeId) => do
      let (key, id) ← ofExcept (keyed venue symbol tradeId)
      Proc.modify (take tick key id)

variable {r : Reading} {payload : Bytes} {s : Receiver}

theorem onMessage_of_malformed (h : Malformed r payload) : onMessage r payload s = (.ok (), s) := by
  obtain ⟨e, hread, hcaught⟩ := RecorderState.malformed_iff.mp h
  unfold onMessage
  rw [hread]
  dsimp only
  rw [if_pos hcaught]
  rfl

theorem onMessage_of_keyed {tick : Json} {key : TickKey} {id : PyNum}
    (h : RecorderState.Keyed r payload tick key id) :
    onMessage r payload s = (.ok (), take tick key id s) := by
  obtain ⟨v, t, i, hread, hkeyed⟩ := RecorderState.keyed_iff.mp h
  unfold onMessage
  rw [hread]
  dsimp only
  rw [hkeyed]
  rfl

/-- The state of the receiver after the ticks delivered. -/
structure Sound (s : Receiver) (delivered : List Tick) : Prop where
  floor : ∀ venue symbol, s.lastTradeId (.str venue, .str symbol)
    = (floors delivered (venue, symbol)).map (fun k : Int => .rat k)
  processed : s.processed = delivered.eraseDups.map Tick.json
  received : s.received = delivered.eraseDups.length
  counted : s.received + s.duplicates = delivered.length

theorem sound_init : Sound init [] := ⟨fun _ _ => rfl, rfl, rfl, rfl⟩

/-- **A tick delivered** is processed when it comes first, and counted. -/
theorem sound_delivered {N : Numerals} {delivered : List Tick} {t : Tick} (hw : Wired N r)
    (hs : Sound s delivered) (hf : RecorderState.Feed N r.names (delivered ++ [t])) :
    Sound (onMessage r (dumps N t.json) s).2 (delivered ++ [t]) := by
  have hlast : t ∈ delivered ++ [t] := List.mem_append_right _ (List.mem_singleton_self t)
  have hnotLost : ¬Lost (.str t.venue, .str t.symbol) := RecorderState.not_lost_str _ _
  have hfirst : Dedup.isAbove (floors delivered (t.venue, t.symbol)) t.tradeId = true
      ↔ t ∉ delivered :=
    Dedup.isAbove_floorAfter (t := []) (Dedup.isAbove_none _) hf.ascending
  have hle : PyNum.le (.rat t.tradeId) (s.lastOf (.str t.venue, .str t.symbol))
      = !Dedup.isAbove (floors delivered (t.venue, t.symbol)) t.tradeId := by
    rw [lastOf, if_neg hnotLost, hs.floor]
    exact RecorderState.le_floor (hf.nonneg t hlast)
  rw [onMessage_of_keyed (RecorderState.keyed_tick hw (hf.readable t hlast)), take, hle]
  have hcounted := hs.counted
  by_cases hmem : t ∈ delivered
  · have hnot : Dedup.isAbove (floors delivered (t.venue, t.symbol)) t.tradeId = false :=
      Bool.eq_false_iff.mpr (fun habove => hfirst.mp habove hmem)
    have hsame : (delivered ++ [t]).eraseDups = delivered.eraseDups := by
      rw [Dedup.eraseDups_concat, if_pos hmem]
    rw [hnot]
    refine ⟨fun venue symbol => ?_, ?_, ?_, ?_⟩
    · rw [RecorderState.floors_concat, Dedup.raise_of_not_above hnot, Function.update_eq_self]
      exact hs.floor venue symbol
    · rw [hsame]
      exact hs.processed
    · rw [hsame]
      exact hs.received
    · rw [List.length_append, List.length_singleton]
      show s.received + (s.duplicates + 1) = _
      omega
  · have habove := hfirst.mpr hmem
    have hmore : (delivered ++ [t]).eraseDups = delivered.eraseDups ++ [t] := by
      rw [Dedup.eraseDups_concat, if_neg hmem]
    rw [habove, setLast, if_neg hnotLost]
    refine ⟨fun venue symbol => ?_, ?_, ?_, ?_⟩
    · show Function.update s.lastTradeId _ _ _ = _
      rw [RecorderState.floors_concat, Dedup.raise_of_above habove]
      by_cases hkey : (venue, symbol) = (t.venue, t.symbol)
      · obtain ⟨rfl, rfl⟩ := Prod.mk.inj hkey
        rw [Function.update_self, Function.update_self]
        rfl
      · rw [Function.update_of_ne hkey, Function.update_of_ne]
        · exact hs.floor venue symbol
        · intro heq
          obtain ⟨hv, hsym⟩ := Prod.mk.inj heq
          injection hv with hv
          injection hsym with hsym
          exact hkey (Prod.ext hv hsym)
    · rw [hmore, List.map_append]
      exact congrArg (· ++ [t.json]) hs.processed
    · rw [hmore, List.length_append]
      exact congrArg (· + 1) hs.received
    · rw [List.length_append, List.length_singleton]
      show s.received + 1 + s.duplicates = _
      omega

end Receiver

/-! ## A session -/

/-- What is published: ticks whose numbers survive as text and whose times have dates, the ids of
each venue and symbol ascending, the times of each file not descending, the files of different keys
different. -/
structure Market (N : Numerals) (names : Names) (ticks : List Tick) : Prop where
  readable : ∀ t ∈ ticks, AllNumbers N.Reads t.json
  dated : ∀ t ∈ ticks, ∃ d, utcDate t.tradeTs = .ok d
  nonneg : ∀ t ∈ ticks, 0 ≤ t.tradeId
  ascending : ticks.Pairwise
    (fun a b => (a.venue, a.symbol) = (b.venue, b.symbol) → a.tradeId < b.tradeId)
  chronological : ticks.Pairwise
    (fun a b => Recorder.keyOf names a = Recorder.keyOf names b → a.tradeTs ≤ b.tradeTs)
  apart : ∀ a ∈ ticks, ∀ b ∈ ticks,
    names.directory (Recorder.keyOf names a) = names.directory (Recorder.keyOf names b) →
      Recorder.keyOf names a = Recorder.keyOf names b

/-- A subscriber behind its session. -/
structure Subscriber (σ : Type) where
  session : Session Tick
  state : σ

/-- What a connection does: it brings the next tick or a malformed payload, acknowledges the oldest
tick, or starts again. -/
inductive Handing where
  | deliver
  | malformed (payload : Bytes)
  | ack
  | reconnect

section

variable {N : Numerals} {names : Names} {r : Reading} {ticks : List Tick} {σ : Type}

namespace Market

theorem nodup (h : Market N names ticks) : ticks.Nodup := by
  refine h.ascending.imp (fun {a b} hlt heq => ?_)
  subst heq
  exact lt_irrefl _ (hlt rfl)

theorem take {rest : List Tick} (h : Market N names (ticks ++ rest)) : Market N names ticks where
  readable := fun t ht => h.readable t (List.mem_append_left _ ht)
  dated := fun t ht => h.dated t (List.mem_append_left _ ht)
  nonneg := fun t ht => h.nonneg t (List.mem_append_left _ ht)
  ascending := (List.pairwise_append.mp h.ascending).1
  chronological := (List.pairwise_append.mp h.chronological).1
  apart := fun a ha b hb => h.apart a (List.mem_append_left _ ha) b (List.mem_append_left _ hb)

/-- **Whatever is delivered again**, a part of the market in its order is a feed. -/
theorem feed {delivered : List Tick} (h : Market N names ticks)
    (hsub : delivered.eraseDups.Sublist ticks) : RecorderState.Feed N names delivered := by
  have hmem : ∀ t ∈ delivered, t ∈ ticks := fun t ht =>
    hsub.subset (List.mem_eraseDups.mpr ht)
  exact ⟨fun t ht => h.readable t (hmem t ht), fun t ht => h.dated t (hmem t ht),
    fun t ht => h.nonneg t (hmem t ht), h.ascending.sublist hsub, h.chronological.sublist hsub,
    fun a ha b hb => h.apart a (hmem a ha) b (hmem b hb)⟩

end Market

namespace Subscriber

/-- The subscriber with a tick queued for it, if there is room. -/
def queue (s : Subscriber σ) (t : Tick) (room : Bool) : Subscriber σ :=
  if room then { s with session := { s.session with accepted := s.session.accepted ++ [t] } }
  else s

/-- One event of the connection, for the subscriber's callback. -/
def hand (N : Numerals) (onMessage : Bytes → σ → σ) (s : Subscriber σ) :
    Handing → Option (Subscriber σ)
  | .deliver => s.session.next.bind (fun t =>
      (s.session.step .deliver).map (fun session =>
        ⟨session, onMessage (dumps N t.json) s.state⟩))
  | .malformed payload => some { s with state := onMessage payload s.state }
  | .ack => (s.session.step .ack).map (fun session => { s with session })
  | .reconnect => (s.session.step .reconnect).map (fun session => { s with session })

/-- The session has ticks of the market, in order, and the subscriber's state is what `P` says of
the ticks delivered to it. -/
structure Follows (P : σ → List Tick → Prop) (ticks : List Tick) (s : Subscriber σ) : Prop where
  accepted : s.session.accepted.Sublist ticks
  inOrder : ∃ k, s.session.InOrder k
  state : P s.state s.session.delivered

variable {P : σ → List Tick → Prop} {s s' : Subscriber σ}

theorem Follows.queue (hs : Follows P ticks s) (t : Tick) (room : Bool)
    (hnodup : (ticks ++ [t]).Nodup) : Follows P (ticks ++ [t]) (s.queue t room) := by
  cases room with
  | false => exact ⟨hs.accepted.trans (List.sublist_append_left _ _), hs.inOrder, hs.state⟩
  | true =>
      have hsub : (s.session.accepted ++ [t]).Sublist (ticks ++ [t]) := hs.accepted.append_right _
      have hstep : s.session.step (.accept t)
          = some { s.session with accepted := s.session.accepted ++ [t] } := rfl
      exact ⟨hsub, Session.inOrder_step hs.inOrder (hnodup.sublist hsub) hstep, hs.state⟩

/-- **Whatever the connection does**, the subscriber follows, if its callback does. -/
theorem Follows.hand {onMessage : Bytes → σ → σ} (hs : Follows P ticks s)
    (hmarket : Market N names ticks)
    (htick : ∀ t delivered, RecorderState.Feed N names (delivered ++ [t]) → P s.state delivered →
      P (onMessage (dumps N t.json) s.state) (delivered ++ [t]))
    {a : Handing}
    (hpayload : ∀ payload, a = .malformed payload → onMessage payload s.state = s.state)
    (hstep : s.hand N onMessage a = some s') : Follows P ticks s' := by
  have hnodup : s.session.accepted.Nodup := hmarket.nodup.sublist hs.accepted
  cases a with
  | deliver =>
      obtain ⟨t, hnext, hmap⟩ := Option.bind_eq_some_iff.mp hstep
      obtain ⟨session, hsession, rfl⟩ := Option.map_eq_some_iff.mp hmap
      obtain ⟨haccepted, hdelivered⟩ := Session.deliver_eq hnext hsession
      rw [← haccepted] at hnodup
      obtain ⟨k, hk⟩ := Session.inOrder_step hs.inOrder hnodup hsession
      have hsub : session.accepted.Sublist ticks := by
        rw [haccepted]
        exact hs.accepted
      -- a session that starts again does so with the oldest tick: repeats apart, it is in order
      have hfeed : RecorderState.Feed N names session.delivered := by
        refine hmarket.feed ?_
        rw [hk.firsts]
        exact (List.take_sublist k _).trans hsub
      refine ⟨hsub, ⟨k, hk⟩, ?_⟩
      show P _ session.delivered
      rw [hdelivered] at hfeed ⊢
      exact htick t _ hfeed hs.state
  | malformed payload =>
      cases hstep
      refine ⟨hs.accepted, hs.inOrder, ?_⟩
      rw [hpayload payload rfl]
      exact hs.state
  | ack =>
      obtain ⟨session, hsession, rfl⟩ := Option.map_eq_some_iff.mp hstep
      obtain ⟨haccepted, hdelivered⟩ := Session.ack_eq hsession
      rw [← haccepted] at hnodup
      refine ⟨?_, Session.inOrder_step hs.inOrder hnodup hsession, ?_⟩
      · show session.accepted.Sublist ticks
        rw [haccepted]
        exact hs.accepted
      · show P s.state session.delivered
        rw [hdelivered]
        exact hs.state
  | reconnect =>
      cases hstep
      have hsession : s.session.step .reconnect = some { s.session with sent := 0 } := rfl
      exact ⟨hs.accepted, Session.inOrder_step hs.inOrder hnodup hsession, hs.state⟩

end Subscriber

end

/-! ## The recorder and the receiver -/

/-- The ticks published, and the two subscribers. -/
structure Subscribers where
  published : List Tick
  recorder : Subscriber RecorderState
  receiver : Subscriber Receiver

namespace Subscribers

/-- A tick is published, and queued for whom there is room; a connection does something; the
recorder's buffers and threads go on. -/
inductive Event where
  | publish (t : Tick) (recorderRoom receiverRoom : Bool)
  | toRecorder (a : Handing)
  | toReceiver (a : Handing)
  | spill (key : FileKey) (n : Nat)
  | flush (key : FileKey)
  | gzip (i n : Nat)

/-- The payload of a malformed message. -/
def Event.malformed? : Event → Option Bytes
  | .toRecorder (.malformed payload) => some payload
  | .toReceiver (.malformed payload) => some payload
  | _ => none

def start : Subscribers :=
  ⟨[], ⟨Session.start, RecorderState.init⟩, ⟨Session.start, Receiver.init⟩⟩

/-- The recorder with the ticks delivered to it. -/
def history (s : Subscribers) : RecorderState.History :=
  ⟨s.recorder.state, s.recorder.session.delivered⟩

/-- The state with other files of the recorder. -/
def withFiles (s : Subscribers) (f : Recorder) : Subscribers :=
  { s with recorder := { s.recorder with state := { s.recorder.state with files := f } } }

/-- One event, on a disk that does not fail. -/
def step (N : Numerals) (r : Reading) (s : Subscribers) : Event → Option Subscribers
  | .publish t recorderRoom receiverRoom =>
      some ⟨s.published ++ [t], s.recorder.queue t recorderRoom, s.receiver.queue t receiverRoom⟩
  | .toRecorder a =>
      (s.recorder.hand N (fun payload state =>
        (RecorderState.onMessage r .nil payload state).2) a).map (fun recorder =>
          { s with recorder })
  | .toReceiver a =>
      (s.receiver.hand N (fun payload state => (Receiver.onMessage r payload state).2) a).map
        (fun receiver => { s with receiver })
  | .spill key n => some (s.withFiles (s.recorder.state.files.spill key n))
  | .flush key => some (s.withFiles (s.recorder.state.files.flushFile key))
  | .gzip i n => (s.recorder.state.files.gzipStep i n).map s.withFiles

variable {N : Numerals} {r : Reading} {s s' : Subscribers}

/-- What holds of the two of them. -/
structure Sound (N : Numerals) (r : Reading) (s : Subscribers) : Prop where
  recorder : s.recorder.Follows
    (fun state delivered => RecorderState.Sound N r.names ⟨state, delivered⟩) s.published
  receiver : s.receiver.Follows Receiver.Sound s.published

theorem sound_start : Sound N r start where
  recorder := ⟨List.nil_sublist _, ⟨0, Session.inOrder_start⟩, RecorderState.sound_start⟩
  receiver := ⟨List.nil_sublist _, ⟨0, Session.inOrder_start⟩, Receiver.sound_init⟩

/-- What leaves the lines of the recorder alone. -/
theorem Sound.sameLines (hs : Sound N r s) {f : Recorder} (hinv : f.Inv r.names)
    (hsame : Recorder.SameLines s.recorder.state.files f) : Sound N r (s.withFiles f) where
  recorder := ⟨hs.recorder.accepted, hs.recorder.inOrder, hs.recorder.state.sameLines hinv hsame⟩
  receiver := hs.receiver

/-- **Every event** keeps them sound. -/
theorem sound_step (hw : Wired N r) (hs : Sound N r s) {e : Event}
    (hmalformed : ∀ payload, e.malformed? = some payload → Malformed r payload)
    (hmarket : Market N r.names s'.published) (hstep : step N r s e = some s') : Sound N r s' := by
  cases e with
  | publish t recorderRoom receiverRoom =>
      cases hstep
      exact ⟨hs.recorder.queue t recorderRoom hmarket.nodup,
        hs.receiver.queue t receiverRoom hmarket.nodup⟩
  | toRecorder a =>
      obtain ⟨recorder, hhand, rfl⟩ := Option.map_eq_some_iff.mp hstep
      refine ⟨hs.recorder.hand hmarket (fun t delivered hf hsound =>
        RecorderState.sound_delivered hw hsound hf) (fun payload ha => ?_) hhand, hs.receiver⟩
      subst ha
      rw [RecorderState.onMessage_of_malformed (hmalformed payload rfl)]
  | toReceiver a =>
      obtain ⟨receiver, hhand, rfl⟩ := Option.map_eq_some_iff.mp hstep
      refine ⟨hs.recorder, hs.receiver.hand hmarket (fun t delivered hf hsound =>
        Receiver.sound_delivered hw hsound hf) (fun payload ha => ?_) hhand⟩
      subst ha
      rw [Receiver.onMessage_of_malformed (hmalformed payload rfl)]
  | spill key n =>
      cases hstep
      exact hs.sameLines (Recorder.inv_spill hs.recorder.state.inv key n)
        (Recorder.sameLines_spill key n)
  | flush key =>
      cases hstep
      exact hs.sameLines (Recorder.inv_flushFile hs.recorder.state.inv key)
        (Recorder.sameLines_flushFile key)
  | gzip i n =>
      obtain ⟨f, hgzip, rfl⟩ := Option.map_eq_some_iff.mp hstep
      exact hs.sameLines (Recorder.inv_gzipStep hs.recorder.state.inv hgzip)
        (Recorder.sameLines_gzipStep hgzip)

/-- The ticks on the lines of a path, as `zcat` and a JSON parser read them. -/
def lines (r : Reading) (s : Subscribers) (p : DayPath) : List (Except PyErr Json) :=
  (readLines (s.recorder.state.files.disk p)).1.map r.loads

/-- The ticks of a path. -/
def ofPath (r : Reading) (ticks : List Tick) (p : DayPath) : List (Except PyErr Json) :=
  (ticks.filter (fun t => decide (RecorderState.dayPath r.names t = p))).map (fun t => .ok t.json)

/-- **Exactly once, twice.** Each subscriber has taken the first of the ticks queued for it, each
once and in order, those it acknowledged among them; when both have taken the same ones and the
recorder's files are settled, they hold what the receiver processed. -/
structure ExactlyOnce (r : Reading) (s : Subscribers) : Prop where
  queued : s.recorder.session.accepted.Sublist s.published
    ∧ s.receiver.session.accepted.Sublist s.published
  receiver : ∃ k, s.receiver.session.acked ≤ k
    ∧ s.receiver.state.processed = (s.receiver.session.accepted.take k).map Tick.json
    ∧ s.receiver.state.received = (s.receiver.session.accepted.take k).length
    ∧ s.receiver.state.received + s.receiver.state.duplicates = s.receiver.session.delivered.length
  recorder : ∃ k, s.recorder.session.acked ≤ k
    ∧ s.recorder.state.received = (s.recorder.session.accepted.take k).length
    ∧ s.recorder.state.received + s.recorder.state.duplicates = s.recorder.session.delivered.length
    ∧ (s.recorder.state.files.Settled → ∀ p,
      lines r s p = ofPath r (s.recorder.session.accepted.take k) p)
  agree : s.recorder.session.accepted = s.receiver.session.accepted →
    s.recorder.session.Drained → s.receiver.session.Drained → s.recorder.state.files.Settled →
    ∃ ticks, s.receiver.state.processed = ticks.map Tick.json ∧ ∀ p, lines r s p = ofPath r ticks p

theorem Sound.exactlyOnce (hw : Wired N r) (hs : Sound N r s) : ExactlyOnce r s := by
  have hrecorded := hs.recorder.state.readable_files hw
  obtain ⟨j, hj⟩ := hs.receiver.inOrder
  obtain ⟨k, hk⟩ := hs.recorder.inOrder
  have hprocessed := hs.receiver.state
  have hlines : s.recorder.state.files.Settled → ∀ p,
      lines r s p = ofPath r s.recorder.session.delivered.eraseDups p :=
    fun hsettled p => hrecorded.settled hsettled p
  refine ⟨⟨hs.recorder.accepted, hs.receiver.accepted⟩, ⟨j, ?_, ?_, ?_, hprocessed.counted⟩,
    ⟨k, ?_, ?_, hrecorded.counted, fun hsettled p => ?_⟩, fun hsame hrec hrcv hsettled => ?_⟩
  · have hhanded := hj.handed_le
    omega
  · rw [hprocessed.processed, hj.firsts]
  · rw [hprocessed.received, hj.firsts]
  · have hhanded := hk.handed_le
    omega
  · rw [← hk.firsts]
    exact hrecorded.received
  · rw [hlines hsettled p, hk.firsts]
  · refine ⟨s.receiver.session.accepted, ?_, fun p => ?_⟩
    · rw [hprocessed.processed, hj.all hrcv]
    · rw [hlines hsettled p, hk.all hrec, hsame]

end Subscribers

end NanoTick
