import NanoTick.Basic.Python
import Mathlib.Data.List.TakeWhile
import Mathlib.Tactic

set_option autoImplicit false

/-! # A websocket stream

`WebsocketStream.messages` (`ingest/src/streams/base.py`) dials, subscribes and yields what
`json.loads` makes of each frame, for ever. A round is one attempt to connect; what it meets
outside is a `Connection`. The generator is followed through any history of them, and its log
keeps what it did in order.

`json.loads` is a parameter. A frame is `fatal` when `json.loads` raises what the loop over the
frames does not catch: everything but `JSONDecodeError`. The frames up to the first fatal one are
delivered, and that one ends the generator (`run_spec`).
-/

namespace NanoTick

open Python

/-! ## What the stream meets -/

/-- A frame: text, or bytes. -/
inductive Frame where
  | text (s : String)
  | binary (b : List UInt8)
  deriving DecidableEq, Repr

/-- What a dial, a `subscribe` or a connection fails with. -/
inductive Failure where
  | webSocket
  | os
  deriving DecidableEq, Repr

/-- The exception. -/
def Failure.err : Failure → PyErr
  | .webSocket => .webSocketException
  | .os => .osError

/-- What ends the frames of a connection. -/
inductive Ending where
  | clean
  | fails (e : Failure)
  deriving DecidableEq, Repr

/-- What comes of an attempt to connect. -/
inductive Connection where
  | dialFails (e : Failure)
  | subscribeFails (e : Failure)
  | subscribed (frames : List Frame) (ending : Ending)
  deriving DecidableEq, Repr

/-- The frames received. -/
def Connection.frames : Connection → List Frame
  | .dialFails _ => []
  | .subscribeFails _ => []
  | .subscribed frames _ => frames

/-! ## `messages` -/

/-- What the generator does: it dials, yields a value, drops a frame with a warning, or sleeps. -/
inductive StreamEvent where
  | dials
  | yields (v : Json)
  | drops (f : Frame)
  | sleeps (seconds : ℚ)

/-- The class attributes. -/
structure WebsocketStream where
  initialBackoff : ℚ
  maxBackoff : ℚ
  deriving DecidableEq, Repr

namespace WebsocketStream

/-- The generator between two rounds: the variable `backoff`, what it did so far, and the
exception that ended it. -/
structure Messages where
  backoff : ℚ
  log : List StreamEvent
  raised : Option PyErr

/-- The exceptions the `except` around a connection catches. -/
def reconnects (e : PyErr) : Bool := e = .webSocketException ∨ e = .osError

/-- `async for raw in ws`: what is done with the frames, and the exception that ends it. -/
def receive (loads : Frame → Except PyErr Json) : List Frame → Ending →
    List StreamEvent × Option PyErr
  | [], .clean => ([], none)
  | [], .fails e => ([], some e.err)
  | raw :: rest, ending =>
      match loads raw with
      | .ok v => (.yields v :: (receive loads rest ending).1, (receive loads rest ending).2)
      | .error .jsonDecodeError =>
          (.drops raw :: (receive loads rest ending).1, (receive loads rest ending).2)
      -- not caught here: it leaves the loop over the frames
      | .error e => ([], some e)

/-- One attempt to connect: what is done, the backoff, and the exception. -/
def attempt (ws : WebsocketStream) (loads : Frame → Except PyErr Json) (backoff : ℚ) :
    Connection → List StreamEvent × ℚ × Option PyErr
  | .dialFails e => ([.dials], backoff, some e.err)
  | .subscribeFails e => ([.dials], backoff, some e.err)
  | .subscribed frames ending =>
      (.dials :: (receive loads frames ending).1, ws.initialBackoff,
        (receive loads frames ending).2)

/-- One round of `while True`. -/
def round (ws : WebsocketStream) (loads : Frame → Except PyErr Json) (m : Messages)
    (c : Connection) : Messages :=
  if m.raised.isSome then m
  else
    match ws.attempt loads m.backoff c with
    -- a connection that was closed is dialed again at once
    | (events, backoff, none) => ⟨backoff, m.log ++ events, none⟩
    | (events, backoff, some e) =>
        if reconnects e then
          ⟨min (backoff * 2) ws.maxBackoff, m.log ++ events ++ [.sleeps backoff], none⟩
        else ⟨backoff, m.log ++ events, some e⟩

/-- `messages`, through a history of connections. -/
def messages (ws : WebsocketStream) (loads : Frame → Except PyErr Json) (cs : List Connection) :
    Messages := cs.foldl (ws.round loads) ⟨ws.initialBackoff, [], none⟩

/-- The values yielded. -/
def yielded (log : List StreamEvent) : List Json :=
  log.filterMap (fun e =>
    match e with
    | .yields v => some v
    | _ => none)

/-! ## Frames -/

/-- What `json.loads` raises: bad syntax, bytes that cannot be decoded, an integer of too many
digits, or a nesting too deep. -/
def LoadsDocumented (loads : Frame → Except PyErr Json) : Prop :=
  ∀ f e, loads f = .error e →
    e = .jsonDecodeError ∨ e = .unicodeDecodeError ∨ e = .valueError ∨ e = .runtimeError

/-- The value of a frame that is valid JSON. -/
def value (loads : Frame → Except PyErr Json) (f : Frame) : Option Json := (loads f).toOption

/-- `json.loads` raises on the frame, and not a `JSONDecodeError`. -/
def fatal (loads : Frame → Except PyErr Json) (f : Frame) : Bool :=
  match loads f with
  | .ok _ => false
  | .error e => e ≠ .jsonDecodeError

/-- What is done with a frame that is not fatal. -/
def frameEvent (loads : Frame → Except PyErr Json) (f : Frame) : StreamEvent :=
  match loads f with
  | .ok v => .yields v
  | .error _ => .drops f

/-- What is done with the frames: each up to the first fatal one. -/
def delivered (loads : Frame → Except PyErr Json) (frames : List Frame) : List StreamEvent :=
  (frames.takeWhile (fun f => !fatal loads f)).map (frameEvent loads)

variable {ws : WebsocketStream} {loads : Frame → Except PyErr Json}

theorem yielded_append (l l' : List StreamEvent) :
    yielded (l ++ l') = yielded l ++ yielded l' := List.filterMap_append

theorem yielded_delivered (frames : List Frame) :
    yielded (delivered loads frames)
      = (frames.takeWhile (fun f => !fatal loads f)).filterMap (value loads) := by
  rw [yielded, delivered, List.filterMap_map]
  refine List.filterMap_congr (fun f _ => ?_)
  simp only [Function.comp, frameEvent, value]
  cases loads f with
  | ok v => rfl
  | error e => rfl

/-- A frame is valid JSON, or dropped, or fatal. -/
theorem loads_cases (loads : Frame → Except PyErr Json) (f : Frame) :
    (∃ v, loads f = .ok v) ∨ loads f = .error .jsonDecodeError
      ∨ ∃ e, loads f = .error e ∧ e ≠ .jsonDecodeError := by
  cases loads f with
  | ok v => exact Or.inl ⟨v, rfl⟩
  | error e =>
      by_cases he : e = .jsonDecodeError
      · exact Or.inr (Or.inl (by rw [he]))
      · exact Or.inr (Or.inr ⟨e, rfl, he⟩)

/-- A frame that is not fatal is delivered, and the loop goes on. -/
theorem receive_of_not_fatal {f : Frame} (hf : fatal loads f = false) (rest : List Frame)
    (ending : Ending) : receive loads (f :: rest) ending
      = (frameEvent loads f :: (receive loads rest ending).1, (receive loads rest ending).2) := by
  rcases loads_cases loads f with ⟨v, hv⟩ | hv | ⟨e, hv, he⟩
  · simp only [receive, frameEvent, hv]
  · simp only [receive, frameEvent, hv]
  · simp [fatal, hv, he] at hf

/-- A fatal frame ends it with what `json.loads` raises. -/
theorem receive_of_fatal {f : Frame} (hf : fatal loads f = true) (rest : List Frame)
    (ending : Ending) : ∃ e, loads f = .error e ∧ e ≠ .jsonDecodeError
      ∧ receive loads (f :: rest) ending = ([], some e) := by
  rcases loads_cases loads f with ⟨v, hv⟩ | hv | ⟨e, hv, he⟩
  · simp [fatal, hv] at hf
  · simp [fatal, hv] at hf
  · refine ⟨e, hv, he, ?_⟩
    unfold receive
    rw [hv]
    cases e <;> first | rfl | exact absurd rfl he

/-- **The loop over the frames** delivers them up to the first fatal one, whose exception ends
it; without one, it ends as the connection does. -/
theorem receive_spec (frames : List Frame) (ending : Ending) :
    (receive loads frames ending).1 = delivered loads frames
      ∧ ((∀ f ∈ frames, fatal loads f = false) →
          (receive loads frames ending).2 = (receive loads [] ending).2)
      ∧ ((∃ f ∈ frames, fatal loads f = true) → ∃ f e, loads f = .error e
          ∧ e ≠ .jsonDecodeError ∧ (receive loads frames ending).2 = some e) := by
  induction frames with
  | nil =>
      refine ⟨?_, fun _ => rfl, by simp⟩
      cases ending with
      | clean => rfl
      | fails e => rfl
  | cons f rest ih =>
      obtain ⟨hevents, hends, hraises⟩ := ih
      cases hf : fatal loads f with
      | false =>
          rw [receive_of_not_fatal hf, hevents]
          simp only [List.forall_mem_cons, List.exists_mem_cons_iff, hf, true_and, false_or,
            Bool.false_eq_true]
          refine ⟨?_, hends, hraises⟩
          simp [delivered, hf]
      | true =>
          obtain ⟨e, he, hne, hreceive⟩ := receive_of_fatal hf rest ending
          rw [hreceive]
          refine ⟨?_, fun hall => ?_, fun _ => ⟨f, e, he, hne, rfl⟩⟩
          · simp [delivered, hf]
          · rw [hall f List.mem_cons_self] at hf
            cases hf

/-! ## Rounds -/

/-- The attempt ended without an exception: a clean close. -/
def closes : Connection → Bool
  | .subscribed _ .clean => true
  | _ => false

/-- The variable `backoff` when the attempt ends. -/
def backoffAt (ws : WebsocketStream) (backoff : ℚ) : Connection → ℚ
  | .dialFails _ => backoff
  | .subscribeFails _ => backoff
  | .subscribed _ _ => ws.initialBackoff

theorem reconnects_err (e : Failure) : reconnects e.err = true := by
  cases e with
  | webSocket => rfl
  | os => rfl

/-- What `json.loads` raises on a fatal frame is not taken for a lost connection. -/
theorem reconnects_of_fatal (hloads : LoadsDocumented loads) {f : Frame} {e : PyErr}
    (hf : loads f = .error e) : reconnects e = false := by
  rcases hloads f e hf with rfl | rfl | rfl | rfl
  all_goals rfl

theorem round_of_raised {m : Messages} (hm : m.raised.isSome = true) (c : Connection) :
    ws.round loads m c = m := if_pos hm

theorem attempt_eq (ws : WebsocketStream) (loads : Frame → Except PyErr Json) (backoff : ℚ)
    (c : Connection) : (ws.attempt loads backoff c).1 = .dials :: delivered loads c.frames
      ∧ (ws.attempt loads backoff c).2.1 = ws.backoffAt backoff c := by
  cases c with
  | dialFails e => exact ⟨rfl, rfl⟩
  | subscribeFails e => exact ⟨rfl, rfl⟩
  | subscribed frames ending => exact ⟨congrArg _ (receive_spec frames ending).1, rfl⟩

/-- **A round with a fatal frame** delivers what comes before it and raises. -/
theorem round_of_fatal (ws : WebsocketStream) (hloads : LoadsDocumented loads) {m : Messages}
    (hm : m.raised = none) {c : Connection} (hc : ∃ f ∈ c.frames, fatal loads f = true) :
    (ws.round loads m c).raised.isSome = true
      ∧ (ws.round loads m c).log = m.log ++ .dials :: delivered loads c.frames := by
  obtain ⟨hevents, hbackoff⟩ := attempt_eq ws loads m.backoff c
  cases c with
  | dialFails e => simp [Connection.frames] at hc
  | subscribeFails e => simp [Connection.frames] at hc
  | subscribed frames ending =>
      obtain ⟨f, e, hf, -, hraised⟩ := (receive_spec frames ending).2.2 hc
      have hattempt : ws.attempt loads m.backoff (.subscribed frames ending)
          = (.dials :: delivered loads frames, ws.initialBackoff, some e) :=
        Prod.ext hevents (Prod.ext hbackoff hraised)
      have hround : ws.round loads m (.subscribed frames ending)
          = ⟨ws.initialBackoff, m.log ++ .dials :: delivered loads frames, some e⟩ := by
        unfold round
        rw [hm, hattempt]
        simp [reconnects_of_fatal hloads hf]
      rw [hround]
      exact ⟨rfl, rfl⟩

/-- **A round that ends by a clean close**: no wait follows. -/
theorem round_of_closes {m : Messages} (hm : m.raised = none) {c : Connection}
    (hframes : ∀ f ∈ c.frames, fatal loads f = false) (hc : closes c = true) :
    ws.round loads m c
      = ⟨ws.initialBackoff, m.log ++ .dials :: delivered loads c.frames, none⟩ := by
  obtain ⟨hevents, hbackoff⟩ := attempt_eq ws loads m.backoff c
  cases c with
  | dialFails e => cases hc
  | subscribeFails e => cases hc
  | subscribed frames ending =>
      cases ending with
      | fails e => cases hc
      | clean =>
          have hattempt : ws.attempt loads m.backoff (.subscribed frames .clean)
              = (.dials :: delivered loads frames, ws.initialBackoff, none) :=
            Prod.ext hevents (Prod.ext hbackoff ((receive_spec frames .clean).2.1 hframes))
          unfold round
          rw [hm, hattempt]
          rfl

/-- **A round that fails**: it ends with a wait, and the backoff doubles up to the maximum. -/
theorem round_of_fails {m : Messages} (hm : m.raised = none) {c : Connection}
    (hframes : ∀ f ∈ c.frames, fatal loads f = false) (hc : closes c = false) :
    ws.round loads m c = ⟨min (ws.backoffAt m.backoff c * 2) ws.maxBackoff,
      m.log ++ .dials :: delivered loads c.frames ++ [.sleeps (ws.backoffAt m.backoff c)],
      none⟩ := by
  obtain ⟨hevents, hbackoff⟩ := attempt_eq ws loads m.backoff c
  have hraised : ∃ e : Failure, (ws.attempt loads m.backoff c).2.2 = some e.err := by
    cases c with
    | dialFails e => exact ⟨e, rfl⟩
    | subscribeFails e => exact ⟨e, rfl⟩
    | subscribed frames ending =>
        cases ending with
        | clean => cases hc
        | fails e => exact ⟨e, (receive_spec frames (.fails e)).2.1 hframes⟩
  obtain ⟨e, hraised⟩ := hraised
  have hattempt : ws.attempt loads m.backoff c
      = (.dials :: delivered loads c.frames, ws.backoffAt m.backoff c, some e.err) :=
    Prod.ext hevents (Prod.ext hbackoff hraised)
  unfold round
  rw [hm, hattempt]
  simp [reconnects_err]

/-- The frames of an attempt hold a fatal one, or none. -/
theorem fatal_or_not (loads : Frame → Except PyErr Json) (frames : List Frame) :
    (∃ f ∈ frames, fatal loads f = true) ∨ ∀ f ∈ frames, fatal loads f = false := by
  by_cases h : ∃ f ∈ frames, fatal loads f = true
  · exact Or.inl h
  · push Not at h
    exact Or.inr (fun f hf => Bool.eq_false_iff.mpr (h f hf))

/-! ## Delivery -/

theorem foldl_round_of_raised {m : Messages} (hm : m.raised.isSome = true)
    (cs : List Connection) : cs.foldl (ws.round loads) m = m := by
  induction cs with
  | nil => rfl
  | cons c cs ih => rw [List.foldl_cons, round_of_raised hm, ih]

/-- **Through a history** the values of the frames up to the first fatal one are yielded, and
the generator has raised when there is one. -/
theorem run_spec (ws : WebsocketStream) (hloads : LoadsDocumented loads) (cs : List Connection)
    {m : Messages} (hm : m.raised = none) :
    yielded (cs.foldl (ws.round loads) m).log = yielded m.log
        ++ ((cs.flatMap Connection.frames).takeWhile (fun f => !fatal loads f)).filterMap
          (value loads)
      ∧ ((cs.foldl (ws.round loads) m).raised = none
        ↔ ∀ f ∈ cs.flatMap Connection.frames, fatal loads f = false) := by
  induction cs generalizing m with
  | nil => simp [hm]
  | cons c cs ih =>
      rw [List.foldl_cons, List.flatMap_cons]
      have hdials : ∀ l : List StreamEvent, yielded (m.log ++ .dials :: l)
          = yielded m.log ++ yielded l := fun l => yielded_append m.log (.dials :: l)
      rcases fatal_or_not loads c.frames with hfatal | hframes
      · obtain ⟨hraised, hlog⟩ := round_of_fatal ws hloads hm hfatal
        rw [foldl_round_of_raised hraised, hlog, hdials, yielded_delivered]
        obtain ⟨f, hf, hff⟩ := hfatal
        refine ⟨?_, ⟨fun hnone => ?_, fun hall => ?_⟩⟩
        · have hstop : (c.frames.takeWhile (fun f => !fatal loads f)).length
              ≠ c.frames.length := by
            intro hlen
            have hmem := List.mem_takeWhile_imp
              ((List.takeWhile_prefix _).eq_of_length hlen ▸ hf)
            simp [hff] at hmem
          rw [List.takeWhile_append, if_neg hstop]
        · rw [hnone] at hraised
          cases hraised
        · rw [hall f (List.mem_append_left _ hf)] at hff
          cases hff
      · have hgo : ∀ m' : Messages, m'.raised = none →
            yielded m'.log = yielded m.log ++ c.frames.filterMap (value loads) →
            yielded (cs.foldl (ws.round loads) m').log = yielded m.log
                ++ ((c.frames ++ cs.flatMap Connection.frames).takeWhile
                  (fun f => !fatal loads f)).filterMap (value loads)
              ∧ ((cs.foldl (ws.round loads) m').raised = none
                ↔ ∀ f ∈ c.frames ++ cs.flatMap Connection.frames, fatal loads f = false) := by
          intro m' hm' hlog
          obtain ⟨hyields, hnone⟩ := ih hm'
          have hall : ∀ f ∈ c.frames, (!fatal loads f) = true := by simpa using hframes
          refine ⟨?_, ?_⟩
          · rw [hyields, hlog, List.takeWhile_append_of_pos hall, List.filterMap_append,
              List.append_assoc]
          · rw [hnone]
            simp only [List.mem_append, or_imp, forall_and]
            exact ⟨fun h => ⟨hframes, h⟩, fun h => h.2⟩
        have htake : c.frames.takeWhile (fun f => !fatal loads f) = c.frames :=
          List.takeWhile_eq_self_iff.mpr (by simpa using hframes)
        cases hc : closes c with
        | true =>
            rw [round_of_closes hm hframes hc]
            refine hgo _ rfl ?_
            rw [hdials, yielded_delivered, htake]
        | false =>
            rw [round_of_fails hm hframes hc]
            refine hgo _ rfl ?_
            rw [yielded_append, hdials, yielded_delivered, htake]
            exact List.append_nil _

/-- **Frames are delivered.** Through any history of connections the generator yields the value
of every frame that is valid JSON, in order and once, and does not raise, exactly when no frame
is fatal. -/
theorem messages_delivers_iff (ws : WebsocketStream) (loads : Frame → Except PyErr Json)
    (hloads : LoadsDocumented loads) (cs : List Connection) :
    ((ws.messages loads cs).raised = none
        ∧ yielded (ws.messages loads cs).log
          = (cs.flatMap Connection.frames).filterMap (value loads))
      ↔ ∀ f ∈ cs.flatMap Connection.frames, fatal loads f = false := by
  obtain ⟨hyields, hnone⟩ := run_spec ws hloads cs
    (m := ⟨ws.initialBackoff, [], none⟩) rfl
  constructor
  · rintro ⟨hraised, -⟩
    exact hnone.mp hraised
  · intro hall
    refine ⟨hnone.mpr hall, hyields.trans ?_⟩
    rw [List.takeWhile_eq_self_iff.mpr (by simpa using hall)]
    rfl

/-- `json.loads` on the frames below. -/
def sampleLoads : Frame → Except PyErr Json
  | .text s => if s = "[]" then .ok (.arr []) else .error .jsonDecodeError
  | .binary _ => .error .unicodeDecodeError

theorem sampleLoads_documented : LoadsDocumented sampleLoads := by
  intro f e hf
  cases f with
  | text s =>
      simp only [sampleLoads] at hf
      split at hf
      · cases hf
      · exact Or.inl (Except.error.inj hf).symm
  | binary b => exact Or.inr (Or.inl (Except.error.inj hf).symm)

/-- A value, a frame of bad syntax that is dropped, and a value after a reconnect. -/
theorem messages_delivers_two :
    ((WebsocketStream.mk 1 60).messages sampleLoads
        [.subscribed [.text "[]", .text "not json"] (.fails .os), .dialFails .webSocket,
          .subscribed [.text "[]"] .clean]).raised = none
      ∧ yielded ((WebsocketStream.mk 1 60).messages sampleLoads
        [.subscribed [.text "[]", .text "not json"] (.fails .os), .dialFails .webSocket,
          .subscribed [.text "[]"] .clean]).log = [.arr [], .arr []] :=
  (messages_delivers_iff ⟨1, 60⟩ sampleLoads sampleLoads_documented
    [.subscribed [.text "[]", .text "not json"] (.fails .os), .dialFails .webSocket,
      .subscribed [.text "[]"] .clean]).mpr (by decide)

/-- One byte that is not UTF-8 ends the generator; the frame after it is lost. -/
theorem messages_raises_on_bytes : ¬ ∀ (ws : WebsocketStream) (loads : Frame → Except PyErr Json)
    (_ : LoadsDocumented loads) (cs : List Connection), (ws.messages loads cs).raised = none
      ∧ yielded (ws.messages loads cs).log
        = (cs.flatMap Connection.frames).filterMap (value loads) := by
  intro h
  have hraised := (h ⟨1, 60⟩ sampleLoads sampleLoads_documented
    [.subscribed [.binary [255], .text "[]"] .clean]).1
  cases hraised

end WebsocketStream

end NanoTick
