import NanoTick.Ingest.Stream
import Mathlib.Tactic

set_option autoImplicit false

/-! # Waits between attempts to connect

The wait of `messages` is in the branch of a lost connection only. What the generator waits
between two dials is read off its log (`gaps`), and the law of the backoff is stated by the
number of failures since a `subscribe` last succeeded (`failures`).

The law holds in every history. A connection that is closed cleanly is dialed again without a
wait, so the waits are within their bounds exactly when no such connection is followed by
another attempt (`backsOff_iff`).
-/

namespace NanoTick

open Python

namespace WebsocketStream

/-! ## The waits of a log -/

/-- The waits between successive dials so far, and what was waited since the last one. -/
def paceStep (acc : List ℚ × Option ℚ) (e : StreamEvent) : List ℚ × Option ℚ :=
  match e with
  | .dials => (acc.1 ++ acc.2.toList, some 0)
  | .sleeps seconds => (acc.1, acc.2.map (· + seconds))
  | .yields _ => acc
  | .drops _ => acc

def pace (log : List StreamEvent) : List ℚ × Option ℚ := log.foldl paceStep ([], none)

/-- The waits between successive dials. -/
def gaps (log : List StreamEvent) : List ℚ := (pace log).1

/-- Nothing is waited while frames are delivered. -/
theorem foldl_paceStep_delivered (loads : Frame → Except PyErr Json) (frames : List Frame)
    (acc : List ℚ × Option ℚ) : (delivered loads frames).foldl paceStep acc = acc := by
  unfold delivered
  induction frames.takeWhile (fun f => !fatal loads f) generalizing acc with
  | nil => rfl
  | cons f rest ih =>
      rw [List.map_cons, List.foldl_cons, ih]
      unfold frameEvent
      cases loads f with
      | ok v => rfl
      | error e => rfl

theorem pace_attempt (loads : Frame → Except PyErr Json) (log : List StreamEvent)
    (frames : List Frame) : pace (log ++ .dials :: delivered loads frames)
      = (gaps log ++ (pace log).2.toList, some 0) := by
  rw [pace, List.foldl_append, List.foldl_cons, foldl_paceStep_delivered]
  rfl

theorem pace_wait (loads : Frame → Except PyErr Json) (log : List StreamEvent)
    (frames : List Frame) (seconds : ℚ) :
    pace (log ++ .dials :: delivered loads frames ++ [.sleeps seconds])
      = (gaps log ++ (pace log).2.toList, some seconds) := by
  have hattempt := pace_attempt loads log frames
  unfold pace at hattempt ⊢
  rw [List.foldl_append, hattempt, List.foldl_cons, List.foldl_nil, paceStep, Option.map_some,
    zero_add]

/-! ## Failures -/

/-- The failures since a `subscribe` last succeeded, after one more attempt. -/
def failuresAfter (n : Nat) : Connection → Nat
  | .dialFails _ => n + 1
  | .subscribeFails _ => n + 1
  | .subscribed _ .clean => 0
  | .subscribed _ (.fails _) => 1

/-- The failures since the last connection whose `subscribe` succeeded, or since the start. -/
def failures (cs : List Connection) : Nat := cs.foldl failuresAfter 0

theorem failures_append (as : List Connection) (a : Connection) :
    failures (as ++ [a]) = failuresAfter (failures as) a := by
  rw [failures, List.foldl_append]
  rfl

/-- A wait between the initial and the maximal backoff. -/
def InBounds (ws : WebsocketStream) (g : ℚ) : Prop := ws.initialBackoff ≤ g ∧ g ≤ ws.maxBackoff

/-- The wait after the `n + 1`-st failure. -/
def waitAfter (ws : WebsocketStream) (n : Nat) : ℚ :=
  min (ws.initialBackoff * 2 ^ n) ws.maxBackoff

/-- The attempts that are made: the generator ends with the first one that has a fatal frame. -/
def attempted (loads : Frame → Except PyErr Json) : List Connection → List Connection
  | [] => []
  | c :: cs => if c.frames.any (fatal loads) then [c] else c :: attempted loads cs

/-- **Reconnects back off**: every wait between two dials is within the bounds, and the `k`-th
failure since a `subscribe` last succeeded is followed by the wait of the law. -/
structure BacksOff (ws : WebsocketStream) (loads : Frame → Except PyErr Json)
    (cs : List Connection) : Prop where
  spaced : ∀ g ∈ gaps (ws.messages loads cs).log, ws.InBounds g
  law : ∀ as a, as ++ [a] <+: cs → closes a = false →
    (ws.messages loads (as ++ [a])).raised = none →
    (ws.messages loads (as ++ [a])).log.getLast?
      = some (.sleeps (min (ws.initialBackoff * 2 ^ (failures (as ++ [a]) - 1)) ws.maxBackoff))

section

variable {ws : WebsocketStream} {loads : Frame → Except PyErr Json}

theorem waitAfter_zero (h : ws.initialBackoff ≤ ws.maxBackoff) :
    ws.waitAfter 0 = ws.initialBackoff := by
  rw [waitAfter, pow_zero, mul_one, min_eq_left h]

/-- Doubling a wait up to the maximum gives the next one. -/
theorem waitAfter_succ (h0 : 0 ≤ ws.maxBackoff) (n : Nat) :
    min (ws.waitAfter n * 2) ws.maxBackoff = ws.waitAfter (n + 1) := by
  have htwo : ws.initialBackoff * 2 ^ n * 2 = ws.initialBackoff * 2 ^ (n + 1) := by ring
  unfold waitAfter
  rw [← htwo, min_mul_of_nonneg _ _ (by norm_num : (0 : ℚ) ≤ 2), min_assoc]
  congr 1
  exact min_eq_right (by linarith)

/-- A failed attempt waits by the number of failures it makes. -/
theorem backoffAt_waitAfter (h : ws.initialBackoff ≤ ws.maxBackoff) (n : Nat) {c : Connection}
    (hc : closes c = false) :
    ws.backoffAt (ws.waitAfter n) c = ws.waitAfter (failuresAfter n c - 1)
      ∧ 1 ≤ failuresAfter n c := by
  cases c with
  | dialFails e => exact ⟨rfl, by simp [failuresAfter]⟩
  | subscribeFails e => exact ⟨rfl, by simp [failuresAfter]⟩
  | subscribed frames ending =>
      cases ending with
      | clean => cases hc
      | fails e => exact ⟨(waitAfter_zero h).symm, le_refl _⟩

theorem messages_append (as : List Connection) (a : Connection) :
    ws.messages loads (as ++ [a]) = ws.round loads (ws.messages loads as) a := by
  rw [messages, List.foldl_append]
  rfl

/-- A generator that has not raised did not raise before, and met no fatal frame. -/
theorem raised_append (hloads : LoadsDocumented loads) {as : List Connection} {a : Connection}
    (h : (ws.messages loads (as ++ [a])).raised = none) :
    (ws.messages loads as).raised = none ∧ ∀ f ∈ a.frames, fatal loads f = false := by
  rw [messages_append] at h
  have hbefore : (ws.messages loads as).raised = none := by
    cases hm : (ws.messages loads as).raised with
    | none => rfl
    | some e =>
        rw [round_of_raised (by rw [hm]; rfl), hm] at h
        exact h.symm ▸ rfl
  refine ⟨hbefore, ?_⟩
  rcases fatal_or_not loads a.frames with hfatal | hframes
  · have hraised := (round_of_fatal ws hloads hbefore hfatal).1
    rw [h] at hraised
    cases hraised
  · exact hframes

/-- **The backoff** between two attempts is given by the failures so far. -/
theorem backoff_eq (hloads : LoadsDocumented loads) (h0 : 0 < ws.initialBackoff)
    (h : ws.initialBackoff ≤ ws.maxBackoff) (cs : List Connection)
    (hcs : (ws.messages loads cs).raised = none) :
    (ws.messages loads cs).backoff = ws.waitAfter (failures cs) := by
  induction cs using List.reverseRecOn with
  | nil => exact (waitAfter_zero h).symm
  | append_singleton as a ih =>
      obtain ⟨hbefore, hframes⟩ := raised_append hloads hcs
      rw [messages_append, failures_append]
      cases ha : closes a with
      | true =>
          rw [round_of_closes hbefore hframes ha]
          cases a with
          | dialFails e => cases ha
          | subscribeFails e => cases ha
          | subscribed frames ending =>
              cases ending with
              | fails e => cases ha
              | clean => exact (waitAfter_zero h).symm
      | false =>
          obtain ⟨hwait, hpos⟩ := backoffAt_waitAfter h (failures as) ha
          rw [round_of_fails hbefore hframes ha]
          dsimp only
          rw [ih hbefore, hwait, waitAfter_succ (h0.le.trans h), Nat.sub_add_cancel hpos]

/-- **The law of the backoff**, in every history. -/
theorem sleeps_after_failure (hloads : LoadsDocumented loads) (h0 : 0 < ws.initialBackoff)
    (h : ws.initialBackoff ≤ ws.maxBackoff) (as : List Connection) {a : Connection}
    (ha : closes a = false) (hraised : (ws.messages loads (as ++ [a])).raised = none) :
    (ws.messages loads (as ++ [a])).log.getLast?
      = some (.sleeps (ws.waitAfter (failures (as ++ [a]) - 1))) := by
  obtain ⟨hbefore, hframes⟩ := raised_append hloads hraised
  rw [messages_append, round_of_fails hbefore hframes ha, failures_append,
    ← (backoffAt_waitAfter h (failures as) ha).1, ← backoff_eq hloads h0 h as hbefore]
  exact List.getLast?_concat

/-- The backoff stays within its bounds. -/
theorem backoffAt_mem (h0 : 0 < ws.initialBackoff) (h : ws.initialBackoff ≤ ws.maxBackoff)
    {b : ℚ} (hb : ws.InBounds b) (c : Connection) :
    ws.InBounds (ws.backoffAt b c)
      ∧ ws.InBounds (min (ws.backoffAt b c * 2) ws.maxBackoff) := by
  have hat : ws.InBounds (ws.backoffAt b c) := by
    cases c with
    | dialFails e => exact hb
    | subscribeFails e => exact hb
    | subscribed frames ending => exact ⟨le_refl _, h⟩
  have hge : ws.initialBackoff ≤ ws.backoffAt b c := hat.1
  exact ⟨hat, le_min (by linarith) h, min_le_right _ _⟩

theorem attempted_eq_nil {cs : List Connection} : attempted loads cs = [] ↔ cs = [] := by
  cases cs with
  | nil => simp [attempted]
  | cons c cs =>
      unfold attempted
      split <;> simp

/-- A round without a fatal frame: the dial ends the wait before it, and a wait follows unless
the connection is closed. -/
theorem pace_round (ws : WebsocketStream) {m : Messages} (hm : m.raised = none) {c : Connection}
    (hframes : ∀ f ∈ c.frames, fatal loads f = false) :
    (ws.round loads m c).raised = none
      ∧ pace (ws.round loads m c).log = (gaps m.log ++ (pace m.log).2.toList,
        some (if closes c then 0 else ws.backoffAt m.backoff c)) := by
  cases hc : closes c with
  | true =>
      rw [round_of_closes hm hframes hc]
      exact ⟨rfl, pace_attempt loads m.log c.frames⟩
  | false =>
      rw [round_of_fails hm hframes hc]
      exact ⟨rfl, pace_wait loads m.log c.frames _⟩

theorem backoff_round_mem (h0 : 0 < ws.initialBackoff) (h : ws.initialBackoff ≤ ws.maxBackoff)
    {m : Messages} (hm : m.raised = none) {c : Connection}
    (hframes : ∀ f ∈ c.frames, fatal loads f = false) (hb : ws.InBounds m.backoff) :
    ws.InBounds (ws.round loads m c).backoff := by
  cases hc : closes c with
  | true =>
      rw [round_of_closes hm hframes hc]
      exact ⟨le_refl _, h⟩
  | false =>
      rw [round_of_fails hm hframes hc]
      exact (backoffAt_mem h0 h hb c).2

/-- **The waits are within their bounds** exactly when no attempt that another one follows is
closed cleanly. The generator `m` may have made attempts already. -/
theorem spaced_iff (hloads : LoadsDocumented loads) (h0 : 0 < ws.initialBackoff)
    (h : ws.initialBackoff ≤ ws.maxBackoff) (cs : List Connection) {m : Messages}
    (hm : m.raised = none) (hb : ws.InBounds m.backoff) :
    (∀ g ∈ gaps (cs.foldl (ws.round loads) m).log, ws.InBounds g)
      ↔ (∀ g ∈ gaps m.log, ws.InBounds g)
        ∧ (cs ≠ [] → ∀ g ∈ (pace m.log).2.toList, ws.InBounds g)
        ∧ ∀ c ∈ (attempted loads cs).dropLast, closes c = false := by
  induction cs generalizing m with
  | nil => simp [attempted]
  | cons c cs ih =>
      rw [List.foldl_cons]
      rcases fatal_or_not loads c.frames with hfatal | hframes
      · obtain ⟨hraised, hlog⟩ := round_of_fatal ws hloads hm hfatal
        have hattempted : attempted loads (c :: cs) = [c] := by
          rw [attempted, if_pos (List.any_eq_true.mpr hfatal)]
        rw [foldl_round_of_raised hraised, hlog, gaps, pace_attempt, hattempted,
          List.forall_mem_append]
        simp
      · have hattempted : attempted loads (c :: cs) = c :: attempted loads cs := by
          rw [attempted, if_neg]
          simpa using hframes
        -- what the attempts after this one ask of it
        have hdrop : (∀ d ∈ (c :: attempted loads cs).dropLast, closes d = false)
            ↔ (cs ≠ [] → closes c = false)
              ∧ ∀ d ∈ (attempted loads cs).dropLast, closes d = false := by
          by_cases hcs : cs = []
          · subst hcs
            simp [attempted]
          · rw [List.dropLast_cons_of_ne_nil (mt attempted_eq_nil.mp hcs)]
            simp [hcs]
        have hwait : ws.InBounds (if closes c then 0 else ws.backoffAt m.backoff c)
            ↔ closes c = false := by
          cases closes c with
          | true => exact ⟨fun hle => absurd h0 (not_lt.mpr hle.1), nofun⟩
          | false => exact ⟨fun _ => rfl, fun _ => (backoffAt_mem h0 h hb c).1⟩
        obtain ⟨hnone, hpace⟩ := pace_round ws hm hframes
        rw [ih hnone (backoff_round_mem h0 h hm hframes hb), gaps, hpace, hattempted, hdrop]
        dsimp only
        rw [List.forall_mem_append, Option.toList_some, List.forall_mem_singleton, hwait]
        constructor
        · rintro ⟨⟨hgaps, hlast⟩, hnext, hrest⟩
          exact ⟨hgaps, fun _ => hlast, hnext, hrest⟩
        · rintro ⟨hgaps, hlast, hnext, hrest⟩
          exact ⟨⟨hgaps, hlast (List.cons_ne_nil c cs)⟩, hnext, hrest⟩

/-- **Reconnects back off** in a history exactly when no attempt that another one follows is
closed cleanly. -/
theorem backsOff_iff (ws : WebsocketStream) (loads : Frame → Except PyErr Json)
    (hloads : LoadsDocumented loads) (h0 : 0 < ws.initialBackoff)
    (h : ws.initialBackoff ≤ ws.maxBackoff) (cs : List Connection) :
    ws.BacksOff loads cs ↔ ∀ c ∈ (attempted loads cs).dropLast, closes c = false := by
  have hspaced := spaced_iff hloads h0 h cs (m := ⟨ws.initialBackoff, [], none⟩) rfl
    ⟨le_refl _, h⟩
  constructor
  · intro hbacks
    exact (hspaced.mp hbacks.spaced).2.2
  · intro hclean
    refine ⟨hspaced.mpr ⟨by simp [gaps, pace], by simp [pace], hclean⟩, ?_⟩
    exact fun as a _ ha hraised => sleeps_after_failure hloads h0 h as ha hraised

end

/-- Two failures in a row, a connection that is lost, and one that is closed in the end. -/
theorem backsOff_failing : (WebsocketStream.mk 1 60).BacksOff sampleLoads
    [.dialFails .os, .subscribeFails .webSocket, .subscribed [.text "[]"] (.fails .os),
      .subscribed [.text "[]"] .clean] :=
  (backsOff_iff ⟨1, 60⟩ sampleLoads sampleLoads_documented (by norm_num) (by norm_num) _).mpr
    (by decide)

/-- A server that closes each connection at once is dialed again without a wait. -/
theorem not_backsOff_closing : ¬ ∀ (ws : WebsocketStream) (loads : Frame → Except PyErr Json)
    (_ : LoadsDocumented loads) (_ : 0 < ws.initialBackoff)
    (_ : ws.initialBackoff ≤ ws.maxBackoff) (cs : List Connection), ws.BacksOff loads cs := by
  intro h
  have hspaced := (h ⟨1, 60⟩ sampleLoads sampleLoads_documented (by norm_num) (by norm_num)
    [.subscribed [] .clean, .subscribed [] .clean]).spaced
  have hmem : (0 : ℚ) ∈ gaps ((WebsocketStream.mk 1 60).messages sampleLoads
      [.subscribed [] .clean, .subscribed [] .clean]).log := List.mem_singleton.mpr rfl
  have hone : (1 : ℚ) ≤ 0 := (hspaced 0 hmem).1
  norm_num at hone

end WebsocketStream

end NanoTick
