import NanoTick.Backfill.Pacing
import Mathlib.Tactic

set_option autoImplicit false

/-! # The retries of one request

`_get` (`clients/binance.py`) sends a request until it has an answer, with one budget for
failures of the network and a larger one for rate limits. `getLoop` is its loop against a
server whose outcome at each attempt is given; it is total, since every pass uses up one of the
budgets. `getLoop_spec` says how it ends, `get_budgets` what that means for the whole call.
-/

namespace NanoTick

open Python

/-! ## Outcomes -/

/-- What one attempt comes to; `retryAfter` is the header of that name, if there is one. -/
inductive Outcome (β : Type) where
  | success (body : β)
  | httpError (code : Nat) (retryAfter : Option String)
  | urlError
  | timeout
  deriving DecidableEq, Repr

namespace Outcome

variable {β : Type}

/-- What `_get` returns on this outcome: the body, or `None` for a 404. -/
def value : Outcome β → Option (Option β)
  | .success body => some (some body)
  | .httpError code _ => if code = 404 then some none else none
  | .urlError => none
  | .timeout => none

/-- 429 or 418. -/
def rateLimited : Outcome β → Bool
  | .httpError code _ => decide (code = 429 ∨ code = 418)
  | _ => false

/-- Any other failure. -/
def failed (o : Outcome β) : Bool := o.value.isNone && !o.rateLimited

end Outcome

/-- `min(int(exc.headers.get("Retry-After", "1") or "1"), 120)`. -/
def backoff (intOfStr : String → Option Int) (retryAfter : Option String) : Except PyErr Int :=
  let raw := retryAfter.getD "1"
  match intOfStr (if raw = "" then "1" else raw) with
  | some seconds => .ok (min seconds 120)
  | none => .error .valueError

/-! ## The loop -/

/-- What a call of `_get` leaves: what it returns or raises, the requests sent, the two counters,
and the back-off sleeps in order. -/
structure GetRun (β : Type) where
  returned : Except PyErr (Option β)
  sent : Nat
  network : Nat
  throttled : Nat
  slept : List Int

section

variable {β : Type} (intOfStr : String → Option Int) (retries : Nat) (server : Nat → Outcome β)

/-- The loop of `_get`, from attempt `n` on. -/
def getLoop (n network throttled : Nat) (slept : List Int) : GetRun β :=
  if network < retries ∧ throttled < rateLimitRetries then
    match server n with
    | .success body => ⟨.ok (some body), n + 1, network, throttled, slept⟩
    | .httpError code retryAfter =>
        if code = 404 then ⟨.ok none, n + 1, network, throttled, slept⟩
        else if code = 429 ∨ code = 418 then
          match backoff intOfStr retryAfter with
          | .error e => ⟨.error e, n + 1, network, throttled, slept⟩
          | .ok wait =>
              -- `time.sleep` refuses a negative number
              if wait < 0 then ⟨.error .valueError, n + 1, network, throttled, slept⟩
              -- the network budget is left alone
              else getLoop (n + 1) network (throttled + 1) (slept ++ [wait])
        else getLoop (n + 1) (network + 1) throttled slept
    | .urlError => getLoop (n + 1) (network + 1) throttled slept
    | .timeout => getLoop (n + 1) (network + 1) throttled slept
  else ⟨.error .runtimeError, n, network, throttled, slept⟩
termination_by (retries - network) + (rateLimitRetries - throttled)

/-- `_get`. -/
def get : GetRun β := getLoop intOfStr retries server 0 0 0 []

/-- The failures of the network, and the rate limits, among the first `n` outcomes. -/
def failedBefore (n : Nat) : Nat := (List.range n).countP (fun j => (server j).failed)

def rateLimitedBefore (n : Nat) : Nat := (List.range n).countP (fun j => (server j).rateLimited)

/-- The first answer is outcome `i`, and both budgets last until then. -/
structure AnswersAt (i : Nat) (v : Option β) : Prop where
  value : (server i).value = some v
  first : ∀ j < i, (server j).value = none
  network : failedBefore server i < retries
  throttled : rateLimitedBefore server i < rateLimitRetries

/-- The `Retry-After` of every 429 and 418 is absent, empty or an integer that is not
negative. -/
def WellFormed : Prop :=
  ∀ i code header, server i = .httpError code (some header) → code = 429 ∨ code = 418 →
    header ≠ "" → ∃ n : Nat, intOfStr header = some (n : Int)

end

/-! ## Counting attempts -/

section

variable {β : Type} {server : Nat → Outcome β} {n : Nat}

theorem failedBefore_succ (server : Nat → Outcome β) (n : Nat) :
    failedBefore server (n + 1) = failedBefore server n + (if (server n).failed then 1 else 0) := by
  rw [failedBefore, List.range_succ, List.countP_append, List.countP_singleton]
  rfl

theorem rateLimitedBefore_succ (server : Nat → Outcome β) (n : Nat) :
    rateLimitedBefore server (n + 1)
      = rateLimitedBefore server n + (if (server n).rateLimited then 1 else 0) := by
  rw [rateLimitedBefore, List.range_succ, List.countP_append, List.countP_singleton]
  rfl

theorem failedBefore_mono (server : Nat → Outcome β) {m : Nat} (h : n ≤ m) :
    failedBefore server n ≤ failedBefore server m :=
  (List.range_sublist.mpr h).countP_le

theorem rateLimitedBefore_mono (server : Nat → Outcome β) {m : Nat} (h : n ≤ m) :
    rateLimitedBefore server n ≤ rateLimitedBefore server m :=
  (List.range_sublist.mpr h).countP_le

/-- An answer is no rate limit. -/
theorem rateLimited_of_value {o : Outcome β} {v : Option β} (h : o.value = some v) :
    o.rateLimited = false := by
  cases o with
  | success body => rfl
  | httpError code header =>
      by_cases hcode : code = 404
      · simp [Outcome.rateLimited, hcode]
      · simp [Outcome.value, hcode] at h
  | urlError => rfl
  | timeout => rfl

theorem failed_of_value {o : Outcome β} {v : Option β} (h : o.value = some v) :
    o.failed = false := by
  rw [Outcome.failed, h]
  rfl

/-- Attempts without an answer use up one of the two budgets each. -/
theorem counts_add (h : ∀ j < n, (server j).value = none) :
    failedBefore server n + rateLimitedBefore server n = n := by
  induction n with
  | zero => rfl
  | succ n ih =>
      have hn := h n (Nat.lt_succ_self n)
      have hprev := ih (fun j hj => h j (Nat.lt_succ_of_lt hj))
      rw [failedBefore_succ, rateLimitedBefore_succ, Outcome.failed, hn]
      cases (server n).rateLimited <;> simp <;> omega

end

/-! ## How the loop ends -/

section

variable {β : Type} {intOfStr : String → Option Int} {retries : Nat} {server : Nat → Outcome β}

/-- How a call ends: it counts each failure in its own budget, sends a bounded number of
requests, never sleeps over two minutes, and either returns the first answer or raises when one
of the budgets is used up. -/
structure Ends (retries : Nat) (server : Nat → Outcome β) (r : GetRun β) : Prop where
  network : r.network = failedBefore server r.sent
  throttled : r.throttled = rateLimitedBefore server r.sent
  sent : r.sent ≤ retries + rateLimitRetries - 1
  slept : ∀ s ∈ r.slept, 0 ≤ s ∧ s ≤ 120
  ending : (∃ i v, AnswersAt retries server i v ∧ r.returned = .ok v ∧ r.sent = i + 1)
    ∨ (r.returned = .error .runtimeError ∧ (∀ j < r.sent, (server j).value = none)
      ∧ (retries ≤ failedBefore server r.sent
        ∨ rateLimitRetries ≤ rateLimitedBefore server r.sent))

/-- A well-formed `Retry-After` is a sleep of at most two minutes. -/
theorem backoff_eq_ok (hone : intOfStr "1" = some 1) (hgood : WellFormed intOfStr server) {n : Nat}
    {code : Nat} {retryAfter : Option String} (hn : server n = .httpError code retryAfter)
    (hcode : code = 429 ∨ code = 418) :
    ∃ wait, backoff intOfStr retryAfter = .ok wait ∧ 0 ≤ wait ∧ wait ≤ 120 := by
  unfold backoff
  cases retryAfter with
  | none => simp [hone]
  | some header =>
      by_cases hempty : header = ""
      · simp [hempty, hone]
      · obtain ⟨k, hk⟩ := hgood n code header hn hcode hempty
        refine ⟨min (k : Int) 120, ?_, by omega, by omega⟩
        simp [hempty, hk]

/-- Before attempt `n` of the loop: no answer so far, each failure counted in its own budget, and
no sleep too long. -/
structure Going (retries : Nat) (server : Nat → Outcome β) (n network throttled : Nat)
    (slept : List Int) : Prop where
  none : ∀ j < n, (server j).value = none
  network : network = failedBefore server n
  throttled : throttled = rateLimitedBefore server n
  sent : n ≤ retries + rateLimitRetries - 1
  slept : ∀ s ∈ slept, 0 ≤ s ∧ s ≤ 120

theorem going_start (retries : Nat) (server : Nat → Outcome β) :
    Going retries server 0 0 0 [] where
  none := fun j hj => absurd hj (Nat.not_lt_zero j)
  network := rfl
  throttled := rfl
  sent := Nat.zero_le _
  slept := fun _ hs => absurd hs List.not_mem_nil

section

variable {n network throttled : Nat} {slept : List Int}

/-- One more attempt without an answer. -/
theorem Going.none_succ (h : Going retries server n network throttled slept)
    (hn : (server n).value = Option.none) : ∀ j < n + 1, (server j).value = Option.none := by
  intro j hj
  rcases Nat.lt_succ_iff_lt_or_eq.mp hj with hlt | rfl
  · exact h.none j hlt
  · exact hn

/-- An attempt within the budgets leaves room for another request. -/
theorem Going.sent_succ (h : Going retries server n network throttled slept)
    (hbudget : network < retries ∧ throttled < rateLimitRetries) :
    n + 1 ≤ retries + rateLimitRetries - 1 := by
  have hcount := counts_add h.none
  have hnetwork := h.network
  have hthrottled := h.throttled
  omega

/-- **An answer** ends the loop. -/
theorem Going.ends (h : Going retries server n network throttled slept)
    (hbudget : network < retries ∧ throttled < rateLimitRetries) {v : Option β}
    (hv : (server n).value = some v) :
    Ends retries server ⟨.ok v, n + 1, network, throttled, slept⟩ where
  network := by
    rw [failedBefore_succ, failed_of_value hv]
    exact h.network
  throttled := by
    rw [rateLimitedBefore_succ, rateLimited_of_value hv]
    exact h.throttled
  sent := h.sent_succ hbudget
  slept := h.slept
  ending := Or.inl ⟨n, v, ⟨hv, h.none, h.network ▸ hbudget.1, h.throttled ▸ hbudget.2⟩, rfl, rfl⟩

/-- **A failure** is counted in the network budget. -/
theorem Going.failed (h : Going retries server n network throttled slept)
    (hbudget : network < retries ∧ throttled < rateLimitRetries)
    (hvalue : (server n).value = Option.none) (hrate : (server n).rateLimited = false) :
    Going retries server (n + 1) (network + 1) throttled slept where
  none := h.none_succ hvalue
  network := by
    rw [failedBefore_succ, Outcome.failed, hvalue, hrate, ← h.network]
    rfl
  throttled := by
    rw [rateLimitedBefore_succ, hrate]
    exact h.throttled
  sent := h.sent_succ hbudget
  slept := h.slept

/-- **A rate limit** is counted in its own budget, and slept on. -/
theorem Going.limited (h : Going retries server n network throttled slept)
    (hbudget : network < retries ∧ throttled < rateLimitRetries)
    (hvalue : (server n).value = Option.none) (hrate : (server n).rateLimited = true)
    {wait : Int} (hwait : 0 ≤ wait ∧ wait ≤ 120) :
    Going retries server (n + 1) network (throttled + 1) (slept ++ [wait]) where
  none := h.none_succ hvalue
  network := by
    rw [failedBefore_succ, Outcome.failed, hvalue, hrate]
    exact h.network
  throttled := by
    rw [rateLimitedBefore_succ, hrate, ← h.throttled]
    rfl
  sent := h.sent_succ hbudget
  slept := by
    intro s hs
    rcases List.mem_append.mp hs with hs | hs
    · exact h.slept s hs
    · rw [List.mem_singleton.mp hs]
      exact hwait

/-- **The loop.** From any attempt it ends as `Ends` says. -/
theorem getLoop_spec (hone : intOfStr "1" = some 1) (hgood : WellFormed intOfStr server)
    (h : Going retries server n network throttled slept) :
    Ends retries server (getLoop intOfStr retries server n network throttled slept) := by
  fun_induction getLoop intOfStr retries server n network throttled slept with
  | case1 n network throttled slept hbudget body hn =>
      exact h.ends hbudget (by rw [hn]; rfl)
  | case2 n network throttled slept hbudget retryAfter hn =>
      exact h.ends hbudget (by rw [hn]; rfl)
  | case3 n network throttled slept hbudget code retryAfter hn h404 hlimited e hbackoff =>
      obtain ⟨wait, hwait, -⟩ := backoff_eq_ok hone hgood hn hlimited
      rw [hbackoff] at hwait
      cases hwait
  | case4 n network throttled slept hbudget code retryAfter hn h404 hlimited wait hbackoff hneg =>
      obtain ⟨wait', hwait, hnonneg, -⟩ := backoff_eq_ok hone hgood hn hlimited
      rw [hbackoff] at hwait
      cases hwait
      exact absurd hneg (not_lt.mpr hnonneg)
  | case5 n network throttled slept hbudget code retryAfter hn h404 hlimited wait hbackoff hneg
      ih =>
      have hvalue : (server n).value = none := by rw [hn]; exact if_neg h404
      have hrate : (server n).rateLimited = true := by rw [hn]; exact decide_eq_true hlimited
      obtain ⟨wait', hwait, hbounds⟩ := backoff_eq_ok hone hgood hn hlimited
      rw [hbackoff] at hwait
      cases hwait
      exact ih (h.limited hbudget hvalue hrate hbounds)
  | case6 n network throttled slept hbudget code retryAfter hn h404 hlimited ih =>
      have hvalue : (server n).value = none := by rw [hn]; exact if_neg h404
      have hrate : (server n).rateLimited = false := by rw [hn]; exact decide_eq_false hlimited
      exact ih (h.failed hbudget hvalue hrate)
  | case7 n network throttled slept hbudget hn ih =>
      exact ih (h.failed hbudget (by rw [hn]; rfl) (by rw [hn]; rfl))
  | case8 n network throttled slept hbudget hn ih =>
      exact ih (h.failed hbudget (by rw [hn]; rfl) (by rw [hn]; rfl))
  | case9 n network throttled slept hspent =>
      refine ⟨h.network, h.throttled, h.sent, h.slept, Or.inr ⟨rfl, h.none, ?_⟩⟩
      show retries ≤ failedBefore server n ∨ rateLimitRetries ≤ rateLimitedBefore server n
      rw [← h.network, ← h.throttled]
      omega

end

/-- There is one first answer. -/
theorem AnswersAt.unique {i i' : Nat} {v v' : Option β} (h : AnswersAt retries server i v)
    (h' : AnswersAt retries server i' v') : v = v' := by
  rcases lt_trichotomy i i' with hlt | rfl | hlt
  · have hnone := h'.first i hlt
    rw [h.value] at hnone
    cases hnone
  · have hsame := h.value
    rw [h'.value] at hsame
    exact (Option.some.inj hsame).symm
  · have hnone := h.first i' hlt
    rw [h'.value] at hnone
    cases hnone

/-- When a budget is used up without an answer, none comes in time. -/
theorem not_answersAt {m : Nat} (hnone : ∀ j < m, (server j).value = none)
    (hspent : retries ≤ failedBefore server m ∨ rateLimitRetries ≤ rateLimitedBefore server m) :
    ¬∃ i v, AnswersAt retries server i v := by
  rintro ⟨i, v, h⟩
  have hle : m ≤ i := by
    by_contra hlt
    have hi := hnone i (not_le.mp hlt)
    rw [h.value] at hi
    cases hi
  have hnetwork := failedBefore_mono server hle
  have hthrottled := rateLimitedBefore_mono server hle
  have hn := h.network
  have ht := h.throttled
  omega

/-- **Two budgets.** `_get` returns the body of the first success, or `None` at the first 404,
exactly when that comes before the budgets are used up, and raises a `RuntimeError` otherwise;
each failure is counted in its own budget, the requests are bounded, and no back-off sleep is
over two minutes. -/
theorem get_budgets (hone : intOfStr "1" = some 1) (hgood : WellFormed intOfStr server)
    (retries : Nat) :
    (∀ v, (get intOfStr retries server).returned = .ok v
        ↔ ∃ i, AnswersAt retries server i v)
      ∧ ((get intOfStr retries server).returned = .error .runtimeError
        ↔ ¬∃ i v, AnswersAt retries server i v)
      ∧ (get intOfStr retries server).network
        = failedBefore server (get intOfStr retries server).sent
      ∧ (get intOfStr retries server).throttled
        = rateLimitedBefore server (get intOfStr retries server).sent
      ∧ (get intOfStr retries server).sent ≤ retries + rateLimitRetries - 1
      ∧ ∀ s ∈ (get intOfStr retries server).slept, 0 ≤ s ∧ s ≤ 120 := by
  have hends : Ends retries server (get intOfStr retries server) :=
    getLoop_spec hone hgood (going_start retries server)
  refine ⟨fun v => ?_, ?_, hends.network, hends.throttled, hends.sent, hends.slept⟩
  · rcases hends.ending with ⟨i, v', hanswers, hreturned, -⟩ | ⟨hraised, hnone, hspent⟩
    · rw [hreturned]
      constructor
      · intro heq
        cases heq
        exact ⟨i, hanswers⟩
      · rintro ⟨i', h'⟩
        rw [h'.unique hanswers]
    · rw [hraised]
      exact ⟨fun heq => (by cases heq),
        fun ⟨i, h⟩ => absurd ⟨i, v, h⟩ (not_answersAt hnone hspent)⟩
  · rcases hends.ending with ⟨i, v', hanswers, hreturned, -⟩ | ⟨hraised, hnone, hspent⟩
    · rw [hreturned]
      exact ⟨fun heq => (by cases heq), fun hno => absurd ⟨i, v', hanswers⟩ hno⟩
    · exact ⟨fun _ => not_answersAt hnone hspent, fun _ => hraised⟩

end

/-- `int` of the decimal numerals used here. -/
def intOfDigit (s : String) : Option Int :=
  if s = "0" then some 0 else if s = "1" then some 1 else none

/-- Five rate limits, two of them with an empty and without a `Retry-After`, then the body. -/
def limitedFive (n : Nat) : Outcome String :=
  if n = 0 then .httpError 429 none
  else if n = 1 then .httpError 418 (some "")
  else if n < 5 then .httpError 429 (some "0")
  else .success "ok"

/-- Three network retries are enough: the rate limits do not use them up. -/
theorem get_limitedFive : (get intOfDigit 3 limitedFive).returned = .ok (some "ok") := by
  have hgood : WellFormed intOfDigit limitedFive := by
    intro n code header hn _ hne
    unfold limitedFive at hn
    split at hn
    · cases hn
    · split at hn
      · cases hn
        exact absurd rfl hne
      · split at hn
        · cases hn
          exact ⟨0, rfl⟩
        · cases hn
  refine ((get_budgets rfl hgood 3).1 (some "ok")).mpr ⟨5, rfl, ?_, ?_, ?_⟩
  · decide
  · decide
  · decide

end NanoTick
