import NanoTick.Dashboard.Interaction
import Mathlib.Tactic

set_option autoImplicit false

/-! # Zooming with the wheel

A turn of the wheel scales the number of bars and moves the first one so that the bar under the
cursor stays (`onWheel_anchor`). The scaling is rounded, and clamped at twelve and at all bars;
from anywhere, turning on gets there (`turned`). A turn in doubles is nearly the exact one, which
changes the number by two at least (`two_le_turn`).
-/

namespace NanoTick

open Doubles

namespace Chart

variable {d : Data} {s : Session}

theorem abs_mathRound_sub_le (q : ℚ) : |(mathRound q : ℚ) - q| ≤ 1 / 2 := by
  have hle : (⌊q + 1 / 2⌋ : ℚ) ≤ q + 1 / 2 := Int.floor_le _
  have hlt : q + 1 / 2 < (⌊q + 1 / 2⌋ : ℚ) + 1 := Int.lt_floor_add_one _
  unfold mathRound
  rw [abs_le]
  constructor
  · linarith
  · linarith

/-- A number of bars that is clamped stays. -/
theorem clampView_n {v : View} {n : Nat} (hn : v.n = n) (hmin : 12 ≤ n)
    (hmax : n ≤ max 12 d.bars.length) : (d.clampView v).n = n := by
  have hclamp : max 12 (min (d.bars.length : Int) n) = n := by omega
  show ((max minBars (min (d.bars.length : Int) (mathRound v.n)) : Int) : ℚ) = n
  rw [hn, mathRound_natCast, show minBars = 12 from rfl, hclamp]
  rfl

/-- The first bar is the rounded one, but at the ends. -/
theorem clampView_i0 {v : View} (hlow : 0 < (d.clampView v).i0)
    (hhigh : (d.clampView v).i0 + (d.clampView v).n < d.bars.length) :
    (d.clampView v).i0 = mathRound v.i0 := by
  have hclamp : ∀ len n a : Int, 0 < max 0 (min (len - n) a) → max 0 (min (len - n) a) + n < len →
      max 0 (min (len - n) a) = a := by omega
  have hn : (d.clampView v).n
      = ((max minBars (min (d.bars.length : Int) (mathRound v.n)) : Int) : ℚ) := rfl
  have hi : (d.clampView v).i0 = ((max 0 (min
      ((d.bars.length : Int) - max minBars (min (d.bars.length : Int) (mathRound v.n)))
      (mathRound v.i0)) : Int) : ℚ) := rfl
  rw [hn, hi] at hhigh
  rw [hi] at hlow ⊢
  rw [hclamp _ _ _ (by exact_mod_cast hlow) (by exact_mod_cast hhigh)]

/-- **The bar under the cursor** stays there, within half a column, but at the ends. -/
theorem onWheel_anchor (p : Page) (clientX left deltaY : ℚ)
    (hlow : 0 < (p.onWheel d clientX left deltaY).view.i0)
    (hhigh : (p.onWheel d clientX left deltaY).view.i0 + (p.onWheel d clientX left deltaY).view.n
      < d.bars.length) :
    |((p.onWheel d clientX left deltaY).view.i0
        + (p.onWheel d clientX left deltaY).localAt clientX left)
      - (p.view.i0 + p.localAt clientX left)| ≤ 1 / 2 := by
  obtain ⟨i0, n, hview, hclamped⟩ := clampView_spec d (p.view.scaled (wheelFactor deltaY))
  have hle := hclamped.le_max
  have hi0 := clampView_i0 hlow hhigh
  have hn : (p.onWheel d clientX left deltaY).view.n = n := by
    refine clampView_n ?_ hclamped.min_le (by omega)
    show (d.clampView _).n = n
    rw [hview]
  have hlocal : (p.onWheel d clientX left deltaY).localAt clientX left
      = (clientX - left - padL) / (p.size.chartW / n) := by
    rw [Page.localAt, Page.step, hn]
    rfl
  have htarget : (p.onWheel d clientX left deltaY).view.i0
      = mathRound (p.view.i0 + p.localAt clientX left
        - (clientX - left - padL) / (p.size.chartW / n)) := by
    refine hi0.trans ?_
    rw [hview]
  rw [htarget, hlocal]
  have hround := abs_mathRound_sub_le (p.view.i0 + p.localAt clientX left
    - (clientX - left - padL) / (p.size.chartW / n))
  rwa [sub_sub_eq_add_sub] at hround

/-- The wheel, turned to zoom in or out. -/
def Event.Turns (inward : Bool) (e : Event) : Prop :=
  ∃ clientX left deltaY, e = .wheel clientX left deltaY ∧ (deltaY < 0 ↔ inward = true)

/-- What a turn makes of the number of bars. -/
theorem onWheel_n {p : Page} {n : Nat} (hn : p.view.n = n) (clientX left deltaY : ℚ) :
    ∃ m : Nat, (p.onWheel d clientX left deltaY).view.n = m
      ∧ (m : Int) = max 12 (min (d.bars.length : Int)
        (mathRound (double (n * wheelFactor deltaY)))) := by
  obtain ⟨i0, m, hview, hclamped⟩ := clampView_spec d (p.view.scaled (wheelFactor deltaY))
  have hle := hclamped.le_max
  refine ⟨m, clampView_n ?_ hclamped.min_le (by omega), ?_⟩
  · show (d.clampView _).n = m
    rw [hview]
  · have hm : (d.clampView (p.view.scaled (wheelFactor deltaY))).n = m := by rw [hview]
    have hq : ((max 12 (min (d.bars.length : Int)
        (mathRound (double (n * wheelFactor deltaY)))) : Int) : ℚ) = (m : Int) := by
      rw [← hn]
      exact hm
    exact_mod_cast hq.symm

/-- A double from one on is off by a thousandth at most. -/
theorem double_near {q : ℚ} (hq : 1 ≤ q) : q * (999 / 1000) ≤ double q
    ∧ double q ≤ q * (1001 / 1000) := by
  have habs : |q| = q := abs_of_nonneg (zero_le_one.trans hq)
  have hsmall : (2 : ℚ) ^ (binary64.least + binary64.digits - 1) ≤ |q| := by
    rw [habs]
    exact (zpow_le_one_of_nonpos₀ (by norm_num) (by decide)).trans hq
  have herror := abs_nearest_sub_le_mul binary64 q hsmall
  have hdigits : |q| / 2 ^ binary64.digits ≤ q / 1000 := by
    rw [habs]
    exact div_le_div_of_nonneg_left (zero_le_one.trans hq) (by norm_num)
      (by norm_num [binary64])
  have hnear : |double q - q| ≤ q / 1000 := herror.trans hdigits
  obtain ⟨hlow, hhigh⟩ := abs_le.mp hnear
  constructor
  · linarith
  · linarith

/-- The factors are those of the script, nearly. -/
theorem wheelFactor_near (deltaY : ℚ) :
    (deltaY < 0 → 84 / 100 ≤ wheelFactor deltaY ∧ wheelFactor deltaY ≤ 86 / 100)
      ∧ (¬deltaY < 0 → 117 / 100 ≤ wheelFactor deltaY) := by
  unfold wheelFactor
  constructor
  · intro h
    rw [if_pos h]
    decide +kernel
  · intro h
    rw [if_neg h]
    decide +kernel

/-- A turn changes the number by two at least. -/
theorem two_le_turn {n : Nat} (hn : 12 ≤ n) (deltaY : ℚ) :
    (deltaY < 0 → mathRound (double (n * wheelFactor deltaY)) ≤ (n : Int) - 2)
      ∧ (¬deltaY < 0 → (n : Int) + 2 ≤ mathRound (double (n * wheelFactor deltaY))) := by
  have hq : (12 : ℚ) ≤ n := by exact_mod_cast hn
  obtain ⟨hin, hout⟩ := wheelFactor_near deltaY
  unfold mathRound
  constructor
  · intro h
    obtain ⟨hlow, hhigh⟩ := hin h
    -- the error of a thousandth is well within the two bars
    have hone : 1 ≤ (n : ℚ) * wheelFactor deltaY := by nlinarith
    have hle : (n : ℚ) * wheelFactor deltaY ≤ n * (86 / 100) := by gcongr
    have hdouble := (double_near hone).2
    rw [← Int.lt_add_one_iff, Int.floor_lt]
    push_cast
    linarith
  · intro h
    have hlow := hout h
    have hle : (n : ℚ) * (117 / 100) ≤ n * wheelFactor deltaY := by gcongr
    have hdouble := (double_near (q := (n : ℚ) * wheelFactor deltaY) (by linarith)).1
    rw [Int.le_floor]
    push_cast
    linarith

/-- **Turning the wheel on** leads to all bars, or to twelve. -/
theorem turned {inward : Bool} {ws : List Event} (hws : ∀ e ∈ ws, e.Turns inward)
    {t : Session} {n : Nat} (hn : s.page.view.n = n) (hmin : 12 ≤ n) (hmax : n ≤ d.bars.length)
    (h : Runs.exec (fun s e => some (Session.step d s e)) s ws = some t) :
    ∃ m : Nat, t.page.view.n = m ∧ 12 ≤ m ∧ m ≤ d.bars.length
      ∧ if inward then m ≤ max 12 (n - 2 * ws.length)
        else min d.bars.length (n + 2 * ws.length) ≤ m := by
  -- on the turns: each changes the number by two, unless it is at the end already
  induction ws generalizing s n with
  | nil =>
      cases h
      refine ⟨n, hn, hmin, hmax, ?_⟩
      cases inward with
      | true => exact le_max_right _ _
      | false => exact min_le_right _ _
  | cons e ws ih =>
      obtain ⟨u, hstep, hrest⟩ := Runs.exec_cons_eq_some.mp h
      obtain ⟨clientX, left, deltaY, rfl, hdir⟩ := hws e List.mem_cons_self
      obtain ⟨k, hk, hclamp⟩ := onWheel_n (d := d) hn clientX left deltaY
      obtain ⟨hin, hout⟩ := two_le_turn hmin deltaY
      have hu : u.page.view.n = k := by
        rw [← Option.some.inj hstep]
        exact hk
      have hkmin : 12 ≤ k := by omega
      have hkmax : k ≤ d.bars.length := by omega
      obtain ⟨m, hm, hmmin, hmmax, hcount⟩ :=
        ih (fun e he => hws e (List.mem_cons_of_mem _ he)) hu hkmin hkmax hrest
      refine ⟨m, hm, hmmin, hmmax, ?_⟩
      rw [List.length_cons]
      cases inward with
      | true =>
          have hless := hin (hdir.mpr rfl)
          have hcount' : m ≤ max 12 (k - 2 * ws.length) := hcount
          show m ≤ max 12 (n - 2 * (ws.length + 1))
          omega
      | false =>
          have hmore := hout (fun hneg => Bool.false_ne_true (hdir.mp hneg))
          have hcount' : min d.bars.length (k + 2 * ws.length) ≤ m := hcount
          show min d.bars.length (n + 2 * (ws.length + 1)) ≤ m
          omega

/-- A frame leaves none pending, and a number of bars that was clamped. -/
theorem frame_step {n : Nat} (hn : s.page.view.n = n) (hmin : 12 ≤ n) (hmax : n ≤ d.bars.length) :
    (Session.step d s .frame).page.requested = false
      ∧ (Session.step d s .frame).page.view.n = n := by
  unfold Session.step Page.handle
  cases hreq : s.page.requested with
  | true => exact ⟨rfl, clampView_n hn hmin (by omega)⟩
  | false => exact ⟨hreq, hn⟩

/-- **The wheel.** On a page with twelve bars a turn keeps the bar under the cursor, but at the
ends, and enough turns in one direction show all bars, or twelve. -/
theorem wheel_zooms (henough : 12 ≤ d.bars.length) (size : Size) (events : List Event)
    (h : Session.After d size events s) :
    (∀ clientX left deltaY, 0 < (s.page.onWheel d clientX left deltaY).view.i0 →
      (s.page.onWheel d clientX left deltaY).view.i0 + (s.page.onWheel d clientX left deltaY).view.n
        < d.bars.length →
      |((s.page.onWheel d clientX left deltaY).view.i0
          + (s.page.onWheel d clientX left deltaY).localAt clientX left)
        - (s.page.view.i0 + s.page.localAt clientX left)| ≤ 1 / 2)
    ∧ ∀ inward ws t, (∀ e ∈ ws, Event.Turns inward e) → d.bars.length ≤ 12 + 2 * ws.length →
      Session.After d size (events ++ ws ++ [.frame]) t →
      (∃ i0 : Nat, t.page.view = ⟨i0, if inward then 12 else d.bars.length⟩
        ∧ (inward = false → i0 = 0)) ∧ t.canvas = t.page.picture d := by
  refine ⟨fun clientX left deltaY => onWheel_anchor s.page clientX left deltaY, ?_⟩
  intro inward ws t hws hlen ht
  obtain ⟨u, hu, hframe⟩ := Runs.exec_append_eq_some.mp ht
  obtain ⟨s', hs', hturns⟩ := Runs.exec_append_eq_some.mp hu
  obtain rfl : s = s' := Option.some.inj (h.symm.trans hs')
  obtain ⟨n, hn, hmin, hmax⟩ := (sound_after h).n
  obtain ⟨m, hm, hmmin, hmmax, hcount⟩ := turned hws hn hmin (by omega) hturns
  have hsound : Sound d t := sound_after ht
  have hstep : Session.step d u .frame = t := by
    obtain ⟨t', hstep, hnil⟩ := Runs.exec_cons_eq_some.mp hframe
    cases hnil
    exact Option.some.inj hstep
  obtain ⟨hfresh, htn⟩ := frame_step hm hmmin hmmax
  rw [hstep] at hfresh htn
  obtain ⟨hpanned, hcanvas⟩ := hsound.fresh hfresh
  obtain ⟨i0, k, hview, hclamped⟩ := hsound.range hpanned
  have hkm : k = m := by
    rw [hview] at htn
    exact Nat.cast_injective (R := ℚ) htn
  subst hkm
  have hle := hclamped.le_max
  refine ⟨⟨i0, ?_, ?_⟩, hcanvas⟩
  · cases inward with
    | true =>
        have hcount' : k ≤ max 12 (n - 2 * ws.length) := hcount
        obtain rfl : k = 12 := by omega
        rw [hview]
        rfl
    | false =>
        have hcount' : min d.bars.length (n + 2 * ws.length) ≤ k := hcount
        obtain rfl : k = d.bars.length := by omega
        rw [hview]
        rfl
  · rintro rfl
    have hcount' : min d.bars.length (n + 2 * ws.length) ≤ k := hcount
    omega

/-- Fourteen turns show all bars again. -/
theorem wheel_zooms_forty : ∃ t, Session.After fortyData wideCanvas
      ([.zoomIn] ++ List.replicate 14 (.wheel 500 0 1) ++ [.frame]) t
    ∧ t.page.view = ⟨0, 40⟩ := by
  have hturns : ∀ e ∈ List.replicate 14 (Event.wheel 500 0 1), e.Turns false := by
    intro e he
    rw [List.eq_of_mem_replicate he]
    exact ⟨500, 0, 1, rfl, by norm_num⟩
  obtain ⟨-, hzoom⟩ := wheel_zooms (d := fortyData) (by decide) wideCanvas [.zoomIn]
    (Runs.exec_some _ _ _)
  have hrun : Session.After fortyData wideCanvas
      ([.zoomIn] ++ List.replicate 14 (.wheel 500 0 1) ++ [.frame]) _ := Runs.exec_some _ _ _
  obtain ⟨⟨i0, hview, hzero⟩, -⟩ := hzoom false _ _ hturns (by decide) hrun
  refine ⟨_, hrun, hview.trans ?_⟩
  rw [hzero rfl]
  rfl

end Chart

end NanoTick
