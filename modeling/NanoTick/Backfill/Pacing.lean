import NanoTick.Basic.Runs
import NanoTick.Backfill.Bridge
import Mathlib.Tactic

set_option autoImplicit false

/-! # Request-weight pacing over a whole startup

`FeedHandler.run` bridges its symbols one after the other. Every request of a bridge goes through
`_get` (`clients/binance.py`), which asks a `WeightPacer` to sleep when the last reported weight
of the clock minute is near the cap. `run` hands no pacer to `bridge`, so every bridge makes its
own.

The startup is a machine whose steps are the start of a bridge and one pass of the loop of
`_get`. What the surroundings decide is the input of a step: the stored floor, how long things
take, and what comes back. The log records the requests and the responses, newest first.
-/

namespace NanoTick

open Python Runs

/-! ## `WeightPacer` -/

structure WeightPacer where
  limit : Int
  threshold : Int
  used : Int
  deriving DecidableEq

namespace WeightPacer

/-- `WEIGHT_LIMIT_PER_MIN`. -/
def weightLimitPerMin : Int := 6000

/-- `WEIGHT_SAFETY`. -/
def weightSafety : ℚ := 3 / 4

/-- `__init__`. -/
def new (limit : Int) (safety : ℚ) : WeightPacer where
  limit := limit
  threshold := max 1 ⌊limit * safety⌋
  used := 0

/-- `WeightPacer()`. -/
def default : WeightPacer := new weightLimitPerMin weightSafety

/-- `observe`: a header that is missing or no integer changes nothing. -/
def observe (p : WeightPacer) (reported : Option Int) : WeightPacer :=
  match reported with
  | some weight => { p with used := weight }
  | none => p

/-- `throttle`, at a reading of the clock: how long it sleeps, and the pacer after it. -/
def throttle (p : WeightPacer) (clock : ℚ) : ℚ × WeightPacer :=
  if p.used < p.threshold then (0, p)
  else (60 - (clock - 60 * ⌊clock / 60⌋) + 1, { p with used := 0 })

end WeightPacer

/-- The clock minute of a time in seconds. -/
def minute (t : ℚ) : Int := ⌊t / 60⌋

theorem minute_mono {t u : ℚ} (h : t ≤ u) : minute t ≤ minute u :=
  Int.floor_le_floor (div_le_div_of_nonneg_right h (by norm_num))

namespace WeightPacer

theorem throttle_of_lt {p : WeightPacer} (h : p.used < p.threshold) (clock : ℚ) :
    p.throttle clock = (0, p) := if_pos h

@[simp] theorem throttle_threshold (p : WeightPacer) (clock : ℚ) :
    (p.throttle clock).2.threshold = p.threshold := by
  unfold throttle
  split <;> rfl

@[simp] theorem observe_threshold (p : WeightPacer) (reported : Option Int) :
    (p.observe reported).threshold = p.threshold := by
  cases reported <;> rfl

/-- A sleep ends a second into the next clock minute. -/
theorem add_throttle {p : WeightPacer} (h : p.threshold ≤ p.used) (clock : ℚ) :
    clock + (p.throttle clock).1 = 60 * ((minute clock + 1 : Int) : ℚ) + 1 := by
  rw [throttle, if_neg (not_lt.mpr h), minute]
  push_cast
  ring

/-- The minute of a time a little into a minute. -/
theorem minute_mul_add (m : Int) {e : ℚ} (h0 : 0 ≤ e) (h60 : e < 60) :
    minute (60 * (m : ℚ) + e) = m := by
  rw [minute, Int.floor_eq_iff]
  constructor
  · linarith
  · linarith

/-- A sleep ends in a later clock minute than it began. -/
theorem minute_lt_throttle {p : WeightPacer} (h : p.threshold ≤ p.used) (clock : ℚ) :
    minute clock < minute (clock + (p.throttle clock).1) := by
  rw [add_throttle h, minute_mul_add _ (by norm_num) (by norm_num)]
  exact Int.lt_succ _

theorem throttle_nonneg (p : WeightPacer) (clock : ℚ) : 0 ≤ (p.throttle clock).1 := by
  unfold throttle
  split
  · exact le_refl _
  · have hlt : clock / 60 < ⌊clock / 60⌋ + 1 := Int.lt_floor_add_one _
    have : clock < 60 * (⌊clock / 60⌋ + 1) := by linarith
    show 0 ≤ 60 - (clock - 60 * (⌊clock / 60⌋ : ℚ)) + 1
    linarith

end WeightPacer

/-! ## The startup -/

/-- What one request of `_get` comes to. A body is given as the trades that `json.loads` makes
of it, or as the exception reading it raises; `retryAfter` is the number of seconds of the
header, `1` without one. -/
inductive Answer where
  | ok (reported : Option Int) (body : Except PyErr (List RestTrade))
  | httpError (code : Nat) (reported : Option Int) (retryAfter : Except PyErr Int)
  | noResponse

/-- One pass of the loop of `_get`: the time until the clock is read, from there to the request
(sleep apart), from there to the outcome, and the outcome. -/
structure Pass where
  before : ℚ≥0
  after : ℚ≥0
  travel : ℚ≥0
  answer : Answer

/-- `HTTP_RETRIES`. -/
def httpRetries : Nat := 3

/-- `RATE_LIMIT_RETRIES`. -/
def rateLimitRetries : Nat := 10

/-- A bridge at a request: the variables of `bridge` and of `_get`. `asked`, whether the bridge
has sent a request, is only recorded. -/
structure Request where
  symbol : Sym
  start : Int
  pacer : WeightPacer
  network : Nat
  throttled : Nat
  asked : Bool

/-- Where the loop over the symbols stands. -/
inductive Startup.Phase where
  | idle
  | fetching (f : Request)
  | raised (e : PyErr)

inductive Event where
  | request (time : ℚ)
  | response (time : ℚ) (reported : Option Int)
  deriving DecidableEq

structure Startup where
  clock : ℚ
  symbols : List Sym
  phase : Startup.Phase
  log : List Event

namespace Startup

def start (symbols : List Sym) (clock : ℚ) : Startup := ⟨clock, symbols, .idle, []⟩

/-- The condition of the loop of `_get`, and the error after it. -/
def retry (f : Request) : Phase :=
  if f.network < httpRetries ∧ f.throttled < rateLimitRetries then .fetching f
  else .raised .runtimeError

/-- The page loop of `bridge` without a target, once `fetch_trades` returned. -/
def paged (f : Request) (trades : List RestTrade) : Phase :=
  match trades.getLast? with
  | none => .idle
  | some last =>
      if trades.length < tradesLimit then .idle
      else .fetching { f with start := last.id + 1, network := 0, throttled := 0 }

/-- One pass of the loop of `_get`. -/
def pass (s : Startup) (f : Request) (a : Pass) : Startup :=
  let clock := s.clock + a.before
  let wait := (f.pacer.throttle clock).1
  let sent := clock + wait + a.after
  let received := sent + a.travel
  let f := { f with pacer := (f.pacer.throttle clock).2, asked := true }
  match a.answer with
  | .ok reported body =>
      { s with
        clock := received
        log := .response received reported :: .request sent :: s.log
        phase :=
          match body with
          | .ok trades => paged { f with pacer := f.pacer.observe reported } trades
          | .error e => .raised e }
  | .httpError code reported retryAfter =>
      let s := { s with log := .response received reported :: .request sent :: s.log }
      -- a 404 is not observed: `fetch_trades` returns an empty page, and the bridge ends
      if code = 404 then { s with clock := received, phase := .idle }
      else
        let f := { f with pacer := f.pacer.observe reported }
        if code = 429 ∨ code = 418 then
          match retryAfter with
          | .error e => { s with clock := received, phase := .raised e }
          | .ok seconds =>
              -- `time.sleep` refuses a negative number
              if seconds < 0 then { s with clock := received, phase := .raised .valueError }
              else { s with
                clock := received + (min seconds 120 : Int)
                phase := retry { f with throttled := f.throttled + 1 } }
        else { s with clock := received, phase := retry { f with network := f.network + 1 } }
  | .noResponse =>
      { s with
        clock := received
        log := .request sent :: s.log
        phase := retry { f with network := f.network + 1 } }

/-- What happens next: the bridge of the next symbol begins, given its stored floor and the time
that passed, or the bridge under way makes one pass. -/
inductive Action where
  | bridge (floor : Option Int) (elapsed : ℚ≥0)
  | pass (a : Pass)

def step (s : Startup) : Action → Option Startup
  | .bridge floor elapsed =>
      match s.phase, s.symbols with
      | .idle, symbol :: rest => some { s with
          clock := s.clock + elapsed
          symbols := rest
          phase :=
            match floor with
            | none => .idle
            -- `run` passes no pacer: every bridge makes its own
            | some id => .fetching ⟨symbol, id + 1, WeightPacer.default, 0, 0, false⟩ }
      | _, _ => none
  | .pass a =>
      match s.phase with
      | .fetching f => some (s.pass f a)
      | _ => none

end Startup

/-! ## Pacing -/

/-- The pacing threshold. -/
def paceThreshold : Int := WeightPacer.default.threshold

theorem paceThreshold_pos : 0 < paceThreshold := by
  decide +kernel

/-- The most recent response of a log. -/
def lastResponse : List Event → Option (ℚ × Option Int)
  | [] => none
  | .response time reported :: _ => some (time, reported)
  | .request _ :: log => lastResponse log

/-- The most recent response did not come in the minute of `t` with a weight at or above the
threshold. -/
def Clear (log : List Event) (t : ℚ) : Prop :=
  ∀ time weight, lastResponse log = some (time, some weight) → paceThreshold ≤ weight →
    minute time ≠ minute t

/-- Every request of the log was clear when it was sent. -/
def Paced : List Event → Prop
  | [] => True
  | .request t :: log => Clear log t ∧ Paced log
  | .response _ _ :: log => Paced log

namespace Startup

/-- The first request of a bridge, sent without a sleep, is clear of what the bridges before it
received. -/
def HandsOver (s : Startup) : Action → Prop
  | .bridge _ _ => True
  | .pass a =>
      match s.phase with
      | .fetching f => f.asked = false → Clear s.log (s.clock + a.before + a.after)
      | _ => True

/-- The pacer knows of the last response, if that still counts. -/
structure Remembers (s : Startup) (f : Request) : Prop where
  threshold : f.pacer.threshold = paceThreshold
  fresh : f.asked = false → f.pacer.used = 0
  aware : f.asked = true → ∀ time weight, lastResponse s.log = some (time, some weight) →
    paceThreshold ≤ weight → paceThreshold ≤ f.pacer.used ∨ minute time < minute s.clock

structure Inv (s : Startup) : Prop where
  past : ∀ time reported, lastResponse s.log = some (time, reported) → time ≤ s.clock
  remembers : ∀ f, s.phase = .fetching f → Remembers s f

/-- When a pass sends its request. -/
def sentAt (s : Startup) (f : Request) (a : Pass) : ℚ :=
  s.clock + a.before + (f.pacer.throttle (s.clock + a.before)).1 + a.after

variable {s : Startup} {f : Request} {a : Pass}

theorem clock_le_sentAt (s : Startup) (f : Request) (a : Pass) : s.clock ≤ s.sentAt f a := by
  have hwait := f.pacer.throttle_nonneg (s.clock + a.before)
  have hbefore : (0 : ℚ) ≤ a.before := a.before.2
  have hafter : (0 : ℚ) ≤ a.after := a.after.2
  unfold sentAt
  linarith

/-- **Within a bridge** every request but the first is clear. -/
theorem clear_of_asked (hi : Inv s) (hf : s.phase = .fetching f) (hasked : f.asked = true) :
    Clear s.log (s.sentAt f a) := by
  intro time weight hlast hweight
  have hr := hi.remembers f hf
  have htime : time ≤ s.clock := hi.past time _ hlast
  have hbefore : (0 : ℚ) ≤ a.before := a.before.2
  have hafter : (0 : ℚ) ≤ a.after := a.after.2
  refine ne_of_lt ?_
  rcases hr.aware hasked time weight hlast hweight with hused | hminute
  · -- the pacer sleeps past the minute
    calc minute time ≤ minute (s.clock + a.before) := minute_mono (by linarith)
      _ < minute (s.clock + a.before + (f.pacer.throttle (s.clock + a.before)).1) :=
          WeightPacer.minute_lt_throttle (by rw [hr.threshold]; exact hused) _
      _ ≤ minute (s.sentAt f a) := minute_mono (by unfold sentAt; linarith)
  · exact lt_of_lt_of_le hminute (minute_mono (clock_le_sentAt s f a))

/-- A new pacer does not sleep. -/
theorem sentAt_of_fresh (hi : Inv s) (hf : s.phase = .fetching f) (hasked : f.asked = false) :
    s.sentAt f a = s.clock + a.before + a.after := by
  have hr := hi.remembers f hf
  have hused : f.pacer.used < f.pacer.threshold := by
    rw [hr.fresh hasked, hr.threshold]
    exact paceThreshold_pos
  rw [sentAt, WeightPacer.throttle_of_lt hused, add_zero]

theorem clear_iff_handsOver (hi : Inv s) (hf : s.phase = .fetching f) :
    Clear s.log (s.sentAt f a) ↔ HandsOver s (.pass a) := by
  simp only [HandsOver, hf]
  cases hasked : f.asked with
  | true => exact ⟨fun _ h => (Bool.noConfusion h), fun _ => clear_of_asked hi hf hasked⟩
  | false =>
      rw [sentAt_of_fresh hi hf hasked]
      exact ⟨fun h _ => h, fun h => h rfl⟩

/-! ### One pass -/

theorem retry_fetching {f f' : Request} (h : retry f = .fetching f') : f' = f := by
  unfold retry at h
  split at h
  · cases h
    rfl
  · cases h

theorem paged_fetching {f f' : Request} {trades : List RestTrade}
    (h : paged f trades = .fetching f') : f'.pacer = f.pacer ∧ f'.asked = f.asked := by
  unfold paged at h
  split at h
  · cases h
  · split at h
    · cases h
    · cases h
      exact ⟨rfl, rfl⟩

/-- **What a pass does**: it sends a request, and either a response is received, which the pacer
observes before the next request of the bridge, or none is. -/
theorem pass_cases (s : Startup) (f : Request) (a : Pass) :
    (∃ received reported, s.sentAt f a ≤ received ∧ received ≤ (s.pass f a).clock
        ∧ (s.pass f a).log = .response received reported :: .request (s.sentAt f a) :: s.log
        ∧ ∀ f', (s.pass f a).phase = .fetching f' → f'.asked = true
          ∧ f'.pacer = (f.pacer.throttle (s.clock + a.before)).2.observe reported)
      ∨ (s.sentAt f a ≤ (s.pass f a).clock
        ∧ (s.pass f a).log = .request (s.sentAt f a) :: s.log
        ∧ ∀ f', (s.pass f a).phase = .fetching f' → f'.asked = true
          ∧ f'.pacer = (f.pacer.throttle (s.clock + a.before)).2) := by
  have hreceived : s.sentAt f a ≤ s.sentAt f a + a.travel := le_add_of_nonneg_right a.travel.2
  cases hanswer : a.answer with
  | ok reported body =>
      left
      refine ⟨s.sentAt f a + a.travel, reported, hreceived, ?_, ?_, ?_⟩ <;>
        simp only [pass, hanswer, sentAt]
      · exact le_refl _
      · intro f' hphase
        cases body with
        | error e => cases hphase
        | ok trades =>
            obtain ⟨hpacer, hasked⟩ := paged_fetching hphase
            exact ⟨hasked, hpacer⟩
  | httpError code reported retryAfter =>
      left
      refine ⟨s.sentAt f a + a.travel, reported, hreceived, ?_⟩
      simp only [pass, hanswer]
      by_cases hmissing : code = 404
      · rw [if_pos hmissing]
        exact ⟨le_refl _, rfl, fun f' hphase => by cases hphase⟩
      · rw [if_neg hmissing]
        by_cases hlimited : code = 429 ∨ code = 418
        · rw [if_pos hlimited]
          cases retryAfter with
          | error e => exact ⟨le_refl _, rfl, fun f' hphase => by cases hphase⟩
          | ok seconds =>
              dsimp only
              by_cases hneg : seconds < 0
              · rw [if_pos hneg]
                exact ⟨le_refl _, rfl, fun f' hphase => by cases hphase⟩
              · rw [if_neg hneg]
                have hwait : (0 : ℚ) ≤ (min seconds 120 : Int) := by
                  exact_mod_cast le_min (not_lt.mp hneg) (by norm_num)
                refine ⟨le_add_of_nonneg_right hwait, rfl, fun f' hphase => ?_⟩
                rw [retry_fetching hphase]
                exact ⟨rfl, rfl⟩
        · rw [if_neg hlimited]
          refine ⟨le_refl _, rfl, fun f' hphase => ?_⟩
          rw [retry_fetching hphase]
          exact ⟨rfl, rfl⟩
  | noResponse =>
      right
      simp only [pass, hanswer]
      refine ⟨hreceived, rfl, fun f' hphase => ?_⟩
      rw [retry_fetching hphase]
      exact ⟨rfl, rfl⟩

/-- A pass keeps the log paced when its request is clear. -/
theorem paced_pass (s : Startup) (f : Request) (a : Pass) :
    Paced (s.pass f a).log ↔ Clear s.log (s.sentAt f a) ∧ Paced s.log := by
  rcases pass_cases s f a with ⟨received, reported, -, -, hlog, -⟩ | ⟨-, hlog, -⟩
  · rw [hlog]
    rfl
  · rw [hlog]
    rfl

theorem inv_pass (hi : Inv s) (hf : s.phase = .fetching f)
    (hclear : Clear s.log (s.sentAt f a)) : Inv (s.pass f a) := by
  have hthreshold := (hi.remembers f hf).threshold
  rcases pass_cases s f a with ⟨received, reported, hsent, hclock, hlog, hphase⟩
    | ⟨hclock, hlog, hphase⟩
  · -- the last response is the one received now
    have hlast : lastResponse (s.pass f a).log = some (received, reported) := by rw [hlog]; rfl
    refine ⟨fun time r h => ?_, fun f' hf' => ?_⟩
    · rw [hlast] at h
      cases h
      exact hclock
    · obtain ⟨hasked, hpacer⟩ := hphase f' hf'
      refine ⟨by rw [hpacer]; simpa using hthreshold, fun h => ?_, fun _ time weight h hle => ?_⟩
      · rw [hasked] at h
        cases h
      · rw [hlast] at h
        cases h
        left
        rw [hpacer]
        exact hle
  · -- the last response is as it was, and the request just sent was clear of it
    have hlast : lastResponse (s.pass f a).log = lastResponse s.log := by rw [hlog]; rfl
    refine ⟨fun time r h => ?_, fun f' hf' => ?_⟩
    · rw [hlast] at h
      exact (hi.past time r h).trans ((clock_le_sentAt s f a).trans hclock)
    · obtain ⟨hasked, hpacer⟩ := hphase f' hf'
      refine ⟨by rw [hpacer]; simpa using hthreshold, fun h => ?_, fun _ time weight h hle => ?_⟩
      · rw [hasked] at h
        cases h
      · rw [hlast] at h
        right
        have hpast := (hi.past time _ h).trans (clock_le_sentAt s f a)
        have hlt : minute time < minute (s.sentAt f a) :=
          lt_of_le_of_ne (minute_mono hpast) (hclear time weight h hle)
        exact lt_of_lt_of_le hlt (minute_mono hclock)

/-! ### The startup -/

theorem inv_start (symbols : List Sym) (clock : ℚ) : Inv (start symbols clock) where
  past := fun _ _ h => by cases h
  remembers := fun _ h => by cases h

/-- The start of a bridge: it sends nothing. -/
theorem step_bridge {floor : Option Int} {elapsed : ℚ≥0} {t : Startup}
    (ht : step s (.bridge floor elapsed) = some t) :
    t.log = s.log ∧ s.clock ≤ t.clock ∧ ∀ f, t.phase = .fetching f →
      f.pacer = WeightPacer.default ∧ f.asked = false := by
  unfold step at ht
  dsimp only at ht
  split at ht
  · cases ht
    refine ⟨rfl, le_add_of_nonneg_right elapsed.2, fun f hf => ?_⟩
    cases floor with
    | none => cases hf
    | some id =>
        cases hf
        exact ⟨rfl, rfl⟩
  · cases ht

theorem step_pass {t : Startup} (ht : step s (.pass a) = some t) :
    ∃ f, s.phase = .fetching f ∧ t = s.pass f a := by
  unfold step at ht
  dsimp only at ht
  split at ht
  · rename_i f hf
    exact ⟨f, hf, (Option.some.inj ht).symm⟩
  · cases ht

theorem inv_bridge (hi : Inv s) {floor : Option Int} {elapsed : ℚ≥0} {t : Startup}
    (ht : step s (.bridge floor elapsed) = some t) : Inv t := by
  obtain ⟨hlog, hclock, hphase⟩ := step_bridge ht
  refine ⟨fun time r h => ?_, fun f hf => ?_⟩
  · rw [hlog] at h
    exact (hi.past time r h).trans hclock
  · obtain ⟨hpacer, hasked⟩ := hphase f hf
    refine ⟨by rw [hpacer]; rfl, fun _ => by rw [hpacer]; rfl, fun h => ?_⟩
    rw [hasked] at h
    cases h

/-- While every request was clear the invariant holds. -/
theorem inv_step {t : Startup} {act : Action} (hi : Paced s.log → Inv s)
    (ht : step s act = some t) : Paced t.log → Inv t := by
  intro hpaced
  cases act with
  | bridge floor elapsed =>
      have hlog := (step_bridge ht).1
      rw [hlog] at hpaced
      exact inv_bridge (hi hpaced) ht
  | pass a =>
      obtain ⟨f, hf, rfl⟩ := step_pass ht
      obtain ⟨hclear, hpaced⟩ := (paced_pass s f a).mp hpaced
      exact inv_pass (hi hpaced) hf hclear

/-- A step is paced when the bridge it belongs to was handed nothing over the threshold. -/
theorem paced_step {t : Startup} {act : Action} (hi : Paced s.log → Inv s)
    (ht : step s act = some t) : Paced t.log ↔ Paced s.log ∧ HandsOver s act := by
  cases act with
  | bridge floor elapsed =>
      rw [(step_bridge ht).1]
      exact ⟨fun h => ⟨h, trivial⟩, fun h => h.1⟩
  | pass a =>
      obtain ⟨f, hf, rfl⟩ := step_pass ht
      rw [paced_pass]
      constructor
      · rintro ⟨hclear, hpaced⟩
        exact ⟨hpaced, (clear_iff_handsOver (hi hpaced) hf).mp hclear⟩
      · rintro ⟨hpaced, hhands⟩
        exact ⟨(clear_iff_handsOver (hi hpaced) hf).mpr hhands, hpaced⟩

/-- **A whole startup** is paced exactly when every bridge is handed over to. -/
theorem paced_iff (symbols : List Sym) (clock : ℚ) (as : List Action) :
    Always step (fun s => Paced s.log) (start symbols clock) as
      ↔ AllSteps step HandsOver (start symbols clock) as := by
  have hall : AllSteps step (fun (_ : Startup) (_ : Action) => True) (start symbols clock) as :=
    allSteps_of_forall (p := fun _ => True) (fun _ _ => trivial) _
  refine always_iff_allSteps (I := fun s => Paced s.log → Inv s)
    (fun s a t hi _ ht => inv_step hi ht) ?_ (fun _ => inv_start symbols clock) trivial hall
  intro s a t hi hpaced _ ht
  rw [paced_step hi ht]
  exact ⟨fun h => h.2, fun h => ⟨hpaced, h⟩⟩

/-- Two symbols, one second apart in one minute: the first bridge ends on a response of weight
4600. -/
def unpaced : List Action :=
  [.bridge (some 100) 0, .pass ⟨0, 0, 0, .ok (some 4600) (.ok [])⟩,
    .bridge (some 100) 0, .pass ⟨1, 0, 0, .ok (some 4625) (.ok [])⟩]

theorem exec_unpaced : ∃ u, exec step (start ["BTCUSDT", "ETHUSDT"] 0) unpaced = some u
    ∧ u.log = [.response 1 (some 4625), .request 1, .response 0 (some 4600), .request 0] := by
  refine ⟨_, rfl, ?_⟩
  decide +kernel

theorem not_paced :
    ¬ ∀ (symbols : List Sym) (clock : ℚ) (as : List Action),
      Always step (fun s => Paced s.log) (start symbols clock) as := by
  intro hall
  obtain ⟨u, hu, hlog⟩ := exec_unpaced
  have hpaced : Paced u.log := (hall _ _ unpaced).last hu
  rw [hlog] at hpaced
  have hclear : Clear [.response 0 (some 4600), .request 0] 1 := hpaced.1
  exact hclear 0 4600 rfl (by decide +kernel) (by decide +kernel)

end Startup

end NanoTick
