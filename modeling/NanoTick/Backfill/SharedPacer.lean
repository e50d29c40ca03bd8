import NanoTick.Backfill.Retries
import Mathlib.Tactic

set_option autoImplicit false

/-! # One pacer against the server's minutes

Calls of `_get` that share one `WeightPacer`, one after the other, against a server that counts
the weight of its own minutes and reports the running total in every response. The server's
minute may begin up to a second after the clock's, which is the second `throttle` adds to its
sleep.

The pacer's number may be out of date only in one direction: `used` is at least what the
server's current minute holds (`Inv.covers`). From this follow the bound on every minute and
that a sleep leaves the minute whose weight caused it (`paced_always`).
-/

namespace NanoTick

open Python Runs

/-! ## The server's minutes -/

/-- When the server's minutes begin, by how many seconds after the clock's. -/
structure ServerClock where
  lag : Int → ℚ
  nonneg : ∀ m, 0 ≤ lag m
  le_one : ∀ m, lag m ≤ 1

/-- The server's minute at a time of the clock. -/
def ServerClock.minuteAt (srv : ServerClock) (t : ℚ) : Int :=
  if t < 60 * (minute t : ℚ) + srv.lag (minute t) then minute t - 1 else minute t

theorem mul_minute_le (t : ℚ) : 60 * (minute t : ℚ) ≤ t := by
  have h : (minute t : ℚ) ≤ t / 60 := Int.floor_le _
  linarith

namespace ServerClock

variable (srv : ServerClock)

theorem minuteAt_le (t : ℚ) : srv.minuteAt t ≤ minute t := by
  unfold minuteAt
  split <;> omega

/-- A second after the clock's minute the server's has begun too. -/
theorem le_minuteAt (t : ℚ) : minute (t - 1) ≤ srv.minuteAt t := by
  have hmono : minute (t - 1) ≤ minute t := minute_mono (by linarith)
  unfold minuteAt
  split
  · rename_i hlag
    have hne : minute (t - 1) ≠ minute t := by
      intro heq
      have hle := mul_minute_le (t - 1)
      rw [heq] at hle
      have hone := srv.le_one (minute t)
      linarith
    omega
  · exact hmono

theorem minuteAt_mono {t u : ℚ} (h : t ≤ u) : srv.minuteAt t ≤ srv.minuteAt u := by
  rcases (minute_mono h).lt_or_eq with hlt | heq
  · calc srv.minuteAt t ≤ minute t := srv.minuteAt_le t
      _ ≤ minute u - 1 := by omega
      _ ≤ srv.minuteAt u := by unfold minuteAt; split <;> omega
  · unfold minuteAt
    rw [heq]
    split
    · split
      · exact le_refl _
      · omega
    · rename_i hnot
      rw [if_neg (fun hu => hnot (lt_of_le_of_lt h hu))]

end ServerClock

/-! ## Calls that share a pacer -/

/-- What happened, newest first: a request reached the server, or a sleep of `throttle` ended. -/
inductive Paid where
  | request (time : ℚ)
  | woke (time : ℚ)
  deriving DecidableEq

/-- The server minute of a request. -/
def Paid.inMinute (srv : ServerClock) (m : Int) : Paid → Bool
  | .request t => decide (srv.minuteAt t = m)
  | .woke _ => false

/-- The server's total for minute `m`, for requests of weight `weight`. -/
def spent (srv : ServerClock) (weight : Nat) (log : List Paid) (m : Int) : Int :=
  weight * (log.countP (Paid.inMinute srv m) : Int)

/-- The time of the last request. -/
def lastPaid : List Paid → Option ℚ
  | [] => none
  | .request t :: _ => some t
  | .woke _ :: log => lastPaid log

/-- A response: a body, or an HTTP error with its `Retry-After`. -/
inductive Reply where
  | success
  | httpError (code : Nat) (retryAfter : Option String)
  deriving DecidableEq

/-- One pass of the loop of `_get`: the times until `throttle` reads the clock, by which its
sleep is longer than asked for, until the server counts the request and until the response is
there; and the response. -/
structure Attempt where
  before : ℚ≥0
  overslept : ℚ≥0
  there : ℚ≥0
  back : ℚ≥0
  reply : Reply

/-- The clock, the shared pacer, the two counters of the call under way, and the log. -/
structure Quota where
  clock : ℚ
  pacer : WeightPacer
  call : Option (Nat × Nat)
  log : List Paid

namespace Quota

/-- The loop condition of `_get`: the call goes on, or ends with an exception. -/
def again (retries network throttled : Nat) : Option (Nat × Nat) :=
  if network < retries ∧ throttled < rateLimitRetries then some (network, throttled) else none

section

variable (srv : ServerClock) (weight : Nat) (intOfStr : String → Option Int) (retries : Nat)

/-- One pass: `throttle`, the request, and what follows its response. -/
def attempt (q : Quota) (network throttled : Nat) (a : Attempt) : Quota :=
  let asked := q.clock + a.before
  let woken := asked + (q.pacer.throttle asked).1 + a.overslept
  let log := if q.pacer.used < q.pacer.threshold then q.log else .woke woken :: q.log
  let paid := woken + a.there
  let log := .request paid :: log
  let q := { q with
    clock := paid + a.back
    pacer := (q.pacer.throttle asked).2
    log := log }
  -- the total the server reports counts the request it answers
  let observed := q.pacer.observe (some (spent srv weight log (srv.minuteAt paid)))
  match a.reply with
  | .success => { q with pacer := observed, call := none }
  | .httpError code retryAfter =>
      -- a 404 is not observed
      if code = 404 then { q with call := none }
      else if code = 429 ∨ code = 418 then
        match backoff intOfStr retryAfter with
        | .error _ => { q with pacer := observed, call := none }
        | .ok wait =>
            if wait < 0 then { q with pacer := observed, call := none }
            else { q with
              clock := q.clock + wait
              pacer := observed
              call := again retries network (throttled + 1) }
      else { q with pacer := observed, call := again retries (network + 1) throttled }

/-- What happens next: a call begins, some time after the last one ended, or makes one pass. -/
inductive Action where
  | call (elapsed : ℚ≥0)
  | attempt (a : Attempt)

def step (q : Quota) : Action → Option Quota
  | .call elapsed =>
      match q.call with
      | none => some { q with clock := q.clock + elapsed, call := again retries 0 0 }
      | some _ => none
  | .attempt a =>
      match q.call with
      | some (network, throttled) =>
          some (q.attempt srv weight intOfStr retries network throttled a)
      | none => none

end

/-- A pacer that has seen nothing yet, at a reading of the clock. -/
def start (limit : Int) (safety : ℚ) (clock : ℚ) : Quota :=
  ⟨clock, WeightPacer.new limit safety, none, []⟩

/-- Every sleep of the log ended in a later server minute than that of the request before it,
whose response carried the weight. -/
def SleepsLeave (srv : ServerClock) : List Paid → Prop
  | [] => True
  | .request _ :: log => SleepsLeave srv log
  | .woke t :: log =>
      (∃ paid, lastPaid log = some paid ∧ srv.minuteAt paid < srv.minuteAt t)
        ∧ SleepsLeave srv log

/-- No minute of the server holds more than one request over what is under the threshold. -/
def Bounded (srv : ServerClock) (weight : Nat) (threshold : Int) (q : Quota) : Prop :=
  ∀ m, spent srv weight q.log m ≤ threshold - 1 + weight

/-- The answer to a pass is observed by the pacer: everything but a 404. -/
def Observed : Action → Prop
  | .call _ => True
  | .attempt a => ∀ retryAfter, a.reply ≠ .httpError 404 retryAfter

/-! ### The totals -/

section

variable {srv : ServerClock} {weight : Nat} {log : List Paid}

theorem spent_nonneg (srv : ServerClock) (weight : Nat) (log : List Paid) (m : Int) :
    0 ≤ spent srv weight log m := by
  unfold spent
  positivity

theorem spent_woke (t : ℚ) (m : Int) :
    spent srv weight (.woke t :: log) m = spent srv weight log m := rfl

theorem spent_request (t : ℚ) (m : Int) :
    spent srv weight (.request t :: log) m
      = spent srv weight log m + (if srv.minuteAt t = m then (weight : Int) else 0) := by
  unfold spent
  rw [List.countP_cons]
  by_cases h : srv.minuteAt t = m
  · simp [Paid.inMinute, h]
    ring
  · simp [Paid.inMinute, h]

/-- A minute after every request holds nothing. -/
theorem spent_later {c : ℚ} {m : Int} (hpast : ∀ t, .request t ∈ log → t ≤ c)
    (hm : srv.minuteAt c < m) : spent srv weight log m = 0 := by
  have hcount : log.countP (Paid.inMinute srv m) = 0 := by
    rw [List.countP_eq_zero]
    intro e he hin
    cases e with
    | request t =>
        have hmin : srv.minuteAt t = m := of_decide_eq_true hin
        have hle := srv.minuteAt_mono (hpast t he)
        omega
    | woke t => cases hin
  rw [spent, hcount]
  simp

theorem mem_of_lastPaid {t : ℚ} (h : lastPaid log = some t) : .request t ∈ log := by
  induction log with
  | nil => cases h
  | cons e log ih =>
      cases e with
      | request u =>
          cases h
          exact List.mem_cons_self
      | woke u => exact List.mem_cons_of_mem _ (ih h)

end

/-! ### The invariant -/

structure Inv (srv : ServerClock) (weight : Nat) (q : Quota) : Prop where
  threshold : 1 ≤ q.pacer.threshold
  past : ∀ t, .request t ∈ q.log → t ≤ q.clock
  used : 0 ≤ q.pacer.used
  covers : spent srv weight q.log (srv.minuteAt q.clock) ≤ q.pacer.used
  asked : q.pacer.threshold ≤ q.pacer.used → ∃ t, lastPaid q.log = some t
  bounded : Bounded srv weight q.pacer.threshold q
  leaves : SleepsLeave srv q.log

section

variable {srv : ServerClock} {weight : Nat} {q : Quota}

/-- As time passes the pacer's number still covers the server's current minute. -/
theorem Inv.covers_later (h : Inv srv weight q) {t : ℚ} (ht : q.clock ≤ t) :
    spent srv weight q.log (srv.minuteAt t) ≤ q.pacer.used := by
  rcases (srv.minuteAt_mono ht).lt_or_eq with hlt | heq
  · rw [spent_later h.past hlt]
    exact h.used
  · rw [← heq]
    exact h.covers

/-- **A sleep of `throttle`** ends in a later server minute than it began, however late the
server's minutes are and however long it oversleeps. -/
theorem minuteAt_lt_woken (srv : ServerClock) {p : WeightPacer} (h : p.threshold ≤ p.used)
    {c asked : ℚ} (hc : c ≤ asked) (overslept : ℚ≥0) :
    srv.minuteAt c < srv.minuteAt (asked + (p.throttle asked).1 + overslept) := by
  have hover : (0 : ℚ) ≤ overslept := overslept.2
  have hwake := WeightPacer.add_throttle h asked
  have hminute : minute (asked + (p.throttle asked).1 - 1) = minute asked + 1 := by
    have hzero := WeightPacer.minute_mul_add (minute asked + 1) (le_refl (0 : ℚ)) (by norm_num)
    rw [add_zero] at hzero
    rw [hwake, add_sub_cancel_right]
    exact hzero
  calc srv.minuteAt c ≤ srv.minuteAt asked := srv.minuteAt_mono hc
    _ ≤ minute asked := srv.minuteAt_le asked
    _ < minute (asked + (p.throttle asked).1 - 1) := by rw [hminute]; exact Int.lt_succ _
    _ ≤ srv.minuteAt (asked + (p.throttle asked).1) := srv.le_minuteAt _
    _ ≤ srv.minuteAt (asked + (p.throttle asked).1 + overslept) :=
        srv.minuteAt_mono (le_add_of_nonneg_right hover)

/-! ### One pass -/

/-- When `throttle` returns, and when the server counts the request. -/
def wokenAt (q : Quota) (a : Attempt) : ℚ :=
  q.clock + a.before + (q.pacer.throttle (q.clock + a.before)).1 + a.overslept

def paidAt (q : Quota) (a : Attempt) : ℚ := q.wokenAt a + a.there

/-- The log after `throttle`, before the request. -/
def wokenLog (q : Quota) (a : Attempt) : List Paid :=
  if q.pacer.used < q.pacer.threshold then q.log else .woke (q.wokenAt a) :: q.log

theorem clock_le_wokenAt (q : Quota) (a : Attempt) : q.clock ≤ q.wokenAt a := by
  have hwait := q.pacer.throttle_nonneg (q.clock + a.before)
  have hbefore : (0 : ℚ) ≤ a.before := a.before.2
  have hover : (0 : ℚ) ≤ a.overslept := a.overslept.2
  unfold wokenAt
  linarith

theorem wokenAt_le_paidAt (q : Quota) (a : Attempt) : q.wokenAt a ≤ q.paidAt a :=
  le_add_of_nonneg_right a.there.2

theorem spent_wokenLog (srv : ServerClock) (weight : Nat) (q : Quota) (a : Attempt) (m : Int) :
    spent srv weight (q.wokenLog a) m = spent srv weight q.log m := by
  unfold wokenLog
  split
  · rfl
  · exact spent_woke _ m

theorem request_mem_wokenLog {t : ℚ} {a : Attempt} (h : .request t ∈ q.wokenLog a) :
    .request t ∈ q.log := by
  unfold wokenLog at h
  split at h
  · exact h
  · exact (List.mem_cons.mp h).resolve_left (fun he => Paid.noConfusion he)

theorem Inv.leaves_wokenLog (h : Inv srv weight q) (a : Attempt) :
    SleepsLeave srv (q.wokenLog a) := by
  unfold wokenLog
  split
  · exact h.leaves
  · rename_i hused
    have hslept : q.pacer.threshold ≤ q.pacer.used := not_lt.mp hused
    obtain ⟨t, ht⟩ := h.asked hslept
    have hbefore : t ≤ q.clock + a.before :=
      le_add_of_le_of_nonneg (h.past t (mem_of_lastPaid ht)) a.before.2
    exact ⟨⟨t, ht, minuteAt_lt_woken srv hslept hbefore a.overslept⟩, h.leaves⟩

/-- **Room for one request**: when the server counts it, its minute is under the threshold. -/
theorem Inv.room (h : Inv srv weight q) (a : Attempt) :
    spent srv weight q.log (srv.minuteAt (q.paidAt a)) ≤ q.pacer.threshold - 1 := by
  have hlate := (clock_le_wokenAt q a).trans (wokenAt_le_paidAt q a)
  have hthreshold := h.threshold
  by_cases hused : q.pacer.used < q.pacer.threshold
  · have hcovers := h.covers_later hlate
    omega
  · -- the pacer slept past everything the server has counted
    have hbefore : q.clock ≤ q.clock + a.before := le_add_of_nonneg_right a.before.2
    have hlt := minuteAt_lt_woken srv (not_lt.mp hused) hbefore a.overslept
    have hpaid := srv.minuteAt_mono (wokenAt_le_paidAt q a)
    rw [spent_later h.past (lt_of_lt_of_le hlt hpaid)]
    omega

/-- **What a pass does** when its response is observed: the request is counted, and the pacer
holds the total of the minute it was counted in. -/
theorem attempt_cases (srv : ServerClock) (weight : Nat) (intOfStr : String → Option Int)
    (retries : Nat) (q : Quota) (network throttled : Nat) {a : Attempt}
    (ha : Observed (.attempt a)) :
    ∃ clock call, q.paidAt a ≤ clock
      ∧ q.attempt srv weight intOfStr retries network throttled a
        = { clock := clock
            pacer := (q.pacer.throttle (q.clock + a.before)).2.observe
              (some (spent srv weight (.request (q.paidAt a) :: q.wokenLog a)
                (srv.minuteAt (q.paidAt a))))
            call := call
            log := .request (q.paidAt a) :: q.wokenLog a } := by
  have hback : q.paidAt a ≤ q.paidAt a + a.back := le_add_of_nonneg_right a.back.2
  cases hr : a.reply with
  | success =>
      refine ⟨q.paidAt a + a.back, none, hback, ?_⟩
      simp only [attempt, hr]
      rfl
  | httpError code retryAfter =>
      have h404 : code ≠ 404 := by
        rintro rfl
        exact ha retryAfter hr
      by_cases hlimited : code = 429 ∨ code = 418
      · cases hb : backoff intOfStr retryAfter with
        | error e =>
            refine ⟨q.paidAt a + a.back, none, hback, ?_⟩
            simp only [attempt, hr, if_neg h404, if_pos hlimited, hb]
            rfl
        | ok wait =>
            by_cases hneg : wait < 0
            · refine ⟨q.paidAt a + a.back, none, hback, ?_⟩
              simp only [attempt, hr, if_neg h404, if_pos hlimited, hb, if_pos hneg]
              rfl
            · have hwait : (0 : ℚ) ≤ (wait : ℚ) := by exact_mod_cast not_lt.mp hneg
              refine ⟨q.paidAt a + a.back + wait, again retries network (throttled + 1),
                le_add_of_le_of_nonneg hback hwait, ?_⟩
              simp only [attempt, hr, if_neg h404, if_pos hlimited, hb, if_neg hneg]
              rfl
      · refine ⟨q.paidAt a + a.back, again retries (network + 1) throttled, hback, ?_⟩
        simp only [attempt, hr, if_neg h404, if_neg hlimited]
        rfl

theorem inv_attempt (h : Inv srv weight q) (intOfStr : String → Option Int)
    (retries network throttled : Nat) {a : Attempt} (ha : Observed (.attempt a)) :
    Inv srv weight (q.attempt srv weight intOfStr retries network throttled a) := by
  obtain ⟨clock, call, hclock, hattempt⟩ :=
    attempt_cases srv weight intOfStr retries q network throttled ha
  have hroom := h.room a
  have htotal : spent srv weight (.request (q.paidAt a) :: q.wokenLog a)
      (srv.minuteAt (q.paidAt a))
      = spent srv weight q.log (srv.minuteAt (q.paidAt a)) + weight := by
    rw [spent_request, spent_wokenLog, if_pos rfl]
  have hlate := (clock_le_wokenAt q a).trans (wokenAt_le_paidAt q a)
  have hpast : ∀ t, .request t ∈ (.request (q.paidAt a) :: q.wokenLog a) → t ≤ q.paidAt a := by
    intro t ht
    rcases List.mem_cons.mp ht with ht | ht
    · cases ht
      exact le_refl _
    · exact (h.past t (request_mem_wokenLog ht)).trans hlate
  rw [hattempt]
  constructor
  · simpa using h.threshold
  · exact fun t ht => (hpast t ht).trans hclock
  · exact spent_nonneg srv weight _ _
  · -- the total was reported at the request; since then only the minute can have changed
    rcases (srv.minuteAt_mono hclock).lt_or_eq with hlt | heq
    · rw [spent_later hpast hlt]
      exact spent_nonneg srv weight _ _
    · rw [← heq]
      exact le_refl _
  · exact fun _ => ⟨q.paidAt a, rfl⟩
  · intro m
    have hbound := h.bounded m
    simp only [WeightPacer.observe_threshold, WeightPacer.throttle_threshold]
    rw [spent_request, spent_wokenLog]
    split
    · rename_i hm
      rw [← hm]
      omega
    · omega
  · exact h.leaves_wokenLog a

end

/-! ### Every run -/

theorem inv_start (srv : ServerClock) (weight : Nat) (limit : Int) (safety clock : ℚ) :
    Inv srv weight (start limit safety clock) where
  threshold := le_max_left _ _
  past := fun t ht => absurd ht List.not_mem_nil
  used := le_refl _
  covers := by simp [spent, start, WeightPacer.new]
  asked := by
    intro h
    have hone : (1 : Int) ≤ max 1 ⌊(limit : ℚ) * safety⌋ := le_max_left _ _
    have hzero : max 1 ⌊(limit : ℚ) * safety⌋ ≤ (0 : Int) := h
    omega
  bounded := by
    intro m
    have hone : (1 : Int) ≤ max 1 ⌊(limit : ℚ) * safety⌋ := le_max_left _ _
    show (weight : Int) * ((0 : Nat) : Int) ≤ max 1 ⌊(limit : ℚ) * safety⌋ - 1 + weight
    push_cast
    omega
  leaves := trivial

theorem inv_step {srv : ServerClock} {weight : Nat} (intOfStr : String → Option Int)
    (retries : Nat) {q t : Quota} {act : Action} (h : Inv srv weight q) (ha : Observed act)
    (ht : step srv weight intOfStr retries q act = some t) : Inv srv weight t := by
  unfold step at ht
  cases act with
  | call elapsed =>
      cases hc : q.call with
      | some c =>
          simp only [hc] at ht
          cases ht
      | none =>
          simp only [hc] at ht
          cases ht
          have hlate : q.clock ≤ q.clock + elapsed := le_add_of_nonneg_right elapsed.2
          exact ⟨h.threshold, fun u hu => (h.past u hu).trans hlate, h.used,
            h.covers_later hlate, h.asked, h.bounded, h.leaves⟩
  | attempt a =>
      cases hc : q.call with
      | none =>
          simp only [hc] at ht
          cases ht
      | some c =>
          simp only [hc] at ht
          cases ht
          exact inv_attempt h intOfStr retries c.1 c.2 ha

/-- The threshold is set when the pacer is made. -/
theorem threshold_step {srv : ServerClock} {weight : Nat} (intOfStr : String → Option Int)
    (retries : Nat) {q t : Quota} {act : Action} (ha : Observed act)
    (ht : step srv weight intOfStr retries q act = some t) :
    t.pacer.threshold = q.pacer.threshold := by
  unfold step at ht
  cases act with
  | call elapsed =>
      cases hc : q.call with
      | some c =>
          simp only [hc] at ht
          cases ht
      | none =>
          simp only [hc] at ht
          cases ht
          rfl
  | attempt a =>
      cases hc : q.call with
      | none =>
          simp only [hc] at ht
          cases ht
      | some c =>
          simp only [hc] at ht
          cases ht
          obtain ⟨clock, call, -, hattempt⟩ :=
            attempt_cases srv weight intOfStr retries q c.1 c.2 ha
          rw [hattempt]
          simp

/-- **One shared pacer.** In every run of calls that share a pacer, with any spacing and any
responses but a 404: no server minute ever holds more than the threshold less one plus one
request, and every sleep ends in a later server minute than the one whose weight caused it. -/
theorem paced_always (srv : ServerClock) (weight : Nat) (intOfStr : String → Option Int)
    (retries : Nat) (limit : Int) (safety clock : ℚ) (acts : List Action)
    (hacts : ∀ act ∈ acts, Observed act) :
    Always (step srv weight intOfStr retries)
      (fun q => Bounded srv weight (WeightPacer.new limit safety).threshold q
        ∧ SleepsLeave srv q.log)
      (start limit safety clock) acts := by
  have halways : Always (step srv weight intOfStr retries)
      (fun q => Inv srv weight q
        ∧ q.pacer.threshold = (WeightPacer.new limit safety).threshold)
      (start limit safety clock) acts :=
    always_of_allSteps
      (fun _ _ _ h ha ht => ⟨inv_step intOfStr retries h.1 ha ht,
        (threshold_step intOfStr retries ha ht).trans h.2⟩)
      ⟨inv_start srv weight limit safety clock, rfl⟩ (allSteps_of_forall hacts _)
  refine halways.imp (fun q h => ⟨?_, h.1.leaves⟩)
  rw [← h.2]
  exact h.1.bounded

/-- A server whose minutes begin half a second after the clock's. -/
def halfLate : ServerClock := ⟨fun _ => 1 / 2, fun _ => by norm_num, fun _ => by norm_num⟩

/-- Two calls a second apart; the first is rate limited once. -/
def twoCalls : List Quota.Action :=
  [.call 0, .attempt ⟨0, 0, 1, 0, .httpError 429 none⟩, .attempt ⟨0, 0, 0, 0, .success⟩,
    .call 1, .attempt ⟨0, 0, 0, 0, .success⟩]

/-- A cap of 20 and requests of weight 10: the third one waits for the next minute. -/
theorem paced_twoCalls :
    Always (step halfLate 10 intOfDigit 3)
      (fun q => Bounded halfLate 10 (WeightPacer.new 20 (3 / 4)).threshold q
        ∧ SleepsLeave halfLate q.log)
      (start 20 (3 / 4) 0) twoCalls := by
  apply paced_always
  intro act hact
  simp only [twoCalls, List.mem_cons, List.not_mem_nil, or_false] at hact
  rcases hact with rfl | rfl | rfl | rfl | rfl
  · trivial
  · simp [Observed]
  · simp [Observed]
  · trivial
  · simp [Observed]

end Quota

end NanoTick
