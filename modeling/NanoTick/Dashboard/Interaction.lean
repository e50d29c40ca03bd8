import NanoTick.Analytics.SaneBars
import NanoTick.Basic.Doubles
import NanoTick.Basic.Runs
import NanoTick.Dashboard.Chart
import Mathlib.Tactic

set_option autoImplicit false

/-! # Zooming and panning

The handlers of the page change the view, ask for an animation frame or draw at once, in any order
the events come in. A drag leaves a view that the next drawing clamps; everything else leaves a
range of bars. So unless a frame is pending the canvas shows the page as it is (`sound_after`): with
twelve bars a range of them, each where the tooltip says, and with fewer none (`session_shows`).

The number of bars is scaled in doubles, as the script does it; places are computed exactly.
-/

namespace NanoTick

open Doubles JsonText Python

namespace Chart

/-! ## The number of bars -/

/-- A number of the script. -/
def double (q : ℚ) : ℚ := nearest binary64 q

/-- `view.n *= f`. -/
def View.scaled (v : View) (f : ℚ) : View := { v with n := double (v.n * f) }

/-- `0.7` and `1 / 0.7`. -/
def zoomInFactor : ℚ := double (7 / 10)
def zoomOutFactor : ℚ := double (1 / double (7 / 10))

/-- `ev.deltaY < 0 ? 0.85 : 1 / 0.85`. -/
def wheelFactor (deltaY : ℚ) : ℚ :=
  if deltaY < 0 then double (17 / 20) else double (1 / double (17 / 20))

-- 45 bars times 0.7 is less than 31.5 in doubles
example : mathRound (View.scaled ⟨0, 45⟩ zoomInFactor).n = 31 := by decide +kernel

/-! ## The page -/

/-- `drag`. -/
structure Drag where
  startX : ℚ
  startI0 : ℚ
  moved : Bool

/-- The state of the script; several requests for a frame draw the same. -/
structure Page where
  view : View
  drag : Option Drag
  hoverIdx : ℚ
  size : Size
  chartType : ChartType
  showSMA : Bool
  requested : Bool

/-- The tooltip: a bar, the markers at it, and where it stands. -/
structure Tip where
  bar : ChartBar
  markers : List Marker
  left : ℚ

/-- What a handler shows; none where it raises. -/
inductive Shown where
  | nothing
  | drawn (p : Option Picture)
  | tip (t : Option Tip)

/-- What happens to the page; the canvas starts at `left` and is `width` wide. -/
inductive Event where
  | mousemove (clientX left width : ℚ)
  | mouseleave
  | mousedown (clientX : ℚ)
  | mouseup
  | wheel (clientX left deltaY : ℚ)
  | resize (size : Size)
  | zoomIn
  | zoomOut
  | zoomReset
  | typeSeg (t : ChartType)
  | smaBtn
  | theme
  | frame

variable (d : Data)

/-- `draw`. -/
def Page.draw (p : Page) : Page × Shown :=
  let view := d.clampView p.view
  ({ p with view }, .drawn (d.picture p.size p.chartType p.showSMA p.hoverIdx view))

/-- The width of a column. -/
def Page.step (p : Page) : ℚ := p.size.chartW / p.view.n

/-- `localAt`: how many columns the cursor is from the left of the plot. -/
def Page.localAt (p : Page) (clientX left : ℚ) : ℚ := (clientX - left - padL) / p.step

/-- `bars[g]`. -/
def Data.barAt (g : ℚ) : Option ChartBar :=
  if g = ⌊g⌋ ∧ 0 ≤ g then d.bars[⌊g⌋.toNat]? else none

/-- `onMove` in a drag. -/
def Page.pan (p : Page) (drag : Drag) (clientX : ℚ) : Page :=
  { p with
    view := { p.view with i0 := drag.startI0 - (clientX - drag.startX) / p.step }
    drag := some { drag with moved := drag.moved || decide (|clientX - drag.startX| > 3) }
    hoverIdx := -1
    requested := true }

/-- The column under the cursor, of those there are. -/
def Page.columnAt (p : Page) (clientX left : ℚ) : ℚ :=
  max 0 (min (p.view.n - 1) (mathRound (p.localAt clientX left - 1 / 2)))

/-- `tip.style.left`. -/
def Page.tipLeft (p : Page) (k width : ℚ) : ℚ :=
  let x := padL + (k + 1 / 2) * p.step
  max 6 (if x + 14 > width - 170 then x - 164 else x + 14)

/-- `onMove` without a drag. -/
def Page.hover (p : Page) (clientX left width : ℚ) : Page × Shown :=
  let k := p.columnAt clientX left
  let g := p.view.i0 + k
  ({ p with hoverIdx := g, requested := p.requested || decide (g ≠ p.hoverIdx) },
    .tip ((d.barAt g).map (fun bar => ⟨bar, d.markerByBar ⌊g⌋.toNat, p.tipLeft k width⟩)))

/-- `onMove`. -/
def Page.onMove (p : Page) (clientX left width : ℚ) : Page × Shown :=
  match p.drag with
  | some drag => (p.pan drag clientX, .nothing)
  | none => p.hover d clientX left width

/-- `onLeave`. -/
def Page.onLeave (p : Page) : Page :=
  match p.drag with
  | some _ => p
  | none => { p with hoverIdx := -1, requested := true }

/-- The handler of the wheel. -/
def Page.onWheel (p : Page) (clientX left deltaY : ℚ) : Page :=
  let anchor := p.view.i0 + p.localAt clientX left
  let view := d.clampView (p.view.scaled (wheelFactor deltaY))
  let step2 := p.size.chartW / view.n
  -- the columns have changed width; the bar under the cursor is to stay there
  { p with
    view := d.clampView { view with i0 := anchor - (clientX - left - padL) / step2 }
    requested := true }

/-- `zoomBy`. -/
def Page.zoomBy (p : Page) (f : ℚ) : Page × Shown :=
  let anchor := p.view.i0 + p.view.n / 2
  let view := d.clampView (p.view.scaled f)
  let view := d.clampView { view with i0 := anchor - view.n / 2 }
  Page.draw d { p with view }

/-- The handler of an event. -/
def Page.handle (p : Page) : Event → Page × Shown
  | .mousemove clientX left width => p.onMove d clientX left width
  | .mouseleave => (p.onLeave, .nothing)
  | .mousedown clientX => ({ p with drag := some ⟨clientX, p.view.i0, false⟩ }, .nothing)
  | .mouseup => ({ p with drag := none }, .nothing)
  | .wheel clientX left deltaY => (p.onWheel d clientX left deltaY, .nothing)
  | .resize size => Page.draw d { p with size }
  | .zoomIn => p.zoomBy d zoomInFactor
  | .zoomOut => p.zoomBy d zoomOutFactor
  | .zoomReset => Page.draw d { p with view := ⟨0, d.bars.length⟩ }
  | .typeSeg chartType => Page.draw d { p with chartType }
  | .smaBtn => Page.draw d { p with showSMA := !p.showSMA }
  | .theme => Page.draw d p
  | .frame =>
      if p.requested then Page.draw d { p with requested := false } else (p, .nothing)

/-- A page and what its canvas shows. `panned` is only recorded: a drag has moved the view, and it
was neither drawn nor scaled since. -/
structure Session where
  page : Page
  canvas : Option Picture
  panned : Bool

/-- The view is left as a drag moved it. -/
def Session.pannedBy (s : Session) : Event → Shown → Bool
  | .mousemove .., _ => s.panned || s.page.drag.isSome
  | .wheel .., _ => false
  | _, .drawn _ => false
  | _, _ => s.panned

def Session.step (s : Session) (e : Event) : Session :=
  let (page, shown) := s.page.handle d e
  { page
    canvas := match shown with
      | .drawn picture => picture
      | _ => s.canvas
    panned := s.pannedBy e shown }

/-- The script ends with `resize`. -/
def Session.opened (size : Size) : Session :=
  Session.step d ⟨⟨⟨0, d.bars.length⟩, none, -1, size, .candles, true, false⟩, none, false⟩
    (.resize size)

/-- A state after some events. -/
def Session.After (size : Size) (events : List Event) (s : Session) : Prop :=
  Runs.exec (fun s e => some (Session.step d s e)) (Session.opened d size) events = some s

/-! ## What holds of every page -/

/-- The picture the page would draw. -/
def Page.picture (p : Page) : Option Picture :=
  d.picture p.size p.chartType p.showSMA p.hoverIdx p.view

/-- **Sound**: the number of bars is clamped, and so is the first one unless a drag has moved it;
and unless a frame was requested, the canvas shows the page as it is. -/
structure Sound (s : Session) : Prop where
  n : ∃ n : Nat, s.page.view.n = n ∧ 12 ≤ n ∧ n ≤ max 12 d.bars.length
  range : s.panned = false → ∃ i0 n : Nat, s.page.view = ⟨i0, n⟩ ∧ Clamped d i0 n
  fresh : s.page.requested = false → s.panned = false ∧ s.canvas = s.page.picture d

variable {d} {s : Session}

theorem sound_of_clamped {v : View} (hview : s.page.view = d.clampView v)
    (hfresh : s.page.requested = false → s.panned = false ∧ s.canvas = s.page.picture d) :
    Sound d s := by
  obtain ⟨i0, n, hclamp, hc⟩ := clampView_spec d v
  have hle := hc.le_max
  refine ⟨⟨n, ?_, hc.min_le, by omega⟩, fun _ => ⟨i0, n, hview.trans hclamp, hc⟩, hfresh⟩
  rw [hview, hclamp]

/-- A draw makes a page sound, whatever it was. -/
theorem sound_draw {p : Page} {e : Event} (hdraw : s.page.handle d e = Page.draw d p)
    (hpanned : ∀ picture, s.pannedBy e (.drawn picture) = false) :
    Sound d (Session.step d s e) := by
  have hstep : Session.step d s e
      = ⟨{ p with view := d.clampView p.view },
        Page.picture d { p with view := d.clampView p.view }, false⟩ := by
    unfold Session.step
    rw [hdraw, ← hpanned]
    rfl
  rw [hstep]
  exact sound_of_clamped rfl (fun _ => ⟨rfl, rfl⟩)

/-- A handler that changes nothing of the view and draws nothing keeps a page sound. -/
theorem sound_quiet (hs : Sound d s) {p : Page} (hview : p.view = s.page.view)
    (hfresh : p.requested = false → s.page.requested = false ∧ p.picture d = s.page.picture d) :
    Sound d ⟨p, s.canvas, s.panned⟩ where
  n := by
    obtain ⟨n, hn, hmin, hmax⟩ := hs.n
    exact ⟨n, by rw [← hn, ← hview], hmin, hmax⟩
  range := fun hpanned => by
    obtain ⟨i0, n, hrange, hclamped⟩ := hs.range hpanned
    exact ⟨i0, n, hview.trans hrange, hclamped⟩
  fresh := fun hreq => by
    obtain ⟨hreq, hpicture⟩ := hfresh hreq
    obtain ⟨hpanned, hcanvas⟩ := hs.fresh hreq
    exact ⟨hpanned, hcanvas.trans hpicture.symm⟩

/-- **Every handler** keeps a page sound. -/
theorem sound_step (hs : Sound d s) (e : Event) : Sound d (Session.step d s e) := by
  cases e with
  | mousemove clientX left width =>
      cases hdrag : s.page.drag with
      | some drag =>
          -- the view may be anywhere now, but a frame is pending
          have hstep : Session.step d s (.mousemove clientX left width)
              = ⟨s.page.pan drag clientX, s.canvas, true⟩ := by
            unfold Session.step Page.handle Page.onMove Session.pannedBy
            rw [hdrag]
            simp
          rw [hstep]
          exact ⟨hs.n, nofun, nofun⟩
      | none =>
          have hstep : Session.step d s (.mousemove clientX left width)
              = ⟨(s.page.hover d clientX left width).1, s.canvas, s.panned⟩ := by
            unfold Session.step Page.handle Page.onMove Session.pannedBy
            rw [hdrag]
            simp [Page.hover]
          rw [hstep]
          -- without a request the cursor is over the bar that is marked already
          refine sound_quiet hs rfl (fun hreq => ?_)
          obtain ⟨hreq, hsame⟩ := Bool.or_eq_false_iff.mp hreq
          refine ⟨hreq, ?_⟩
          unfold Page.picture
          rw [← of_not_not (of_decide_eq_false hsame)]
          rfl
  | mouseleave =>
      show Sound d ⟨s.page.onLeave, s.canvas, s.panned⟩
      unfold Page.onLeave
      cases s.page.drag with
      | some drag => exact hs
      | none => exact sound_quiet hs rfl nofun
  | mousedown clientX => exact sound_quiet hs rfl (fun hreq => ⟨hreq, rfl⟩)
  | mouseup => exact sound_quiet hs rfl (fun hreq => ⟨hreq, rfl⟩)
  | wheel clientX left deltaY => exact sound_of_clamped rfl nofun
  | resize size => exact sound_draw rfl (fun _ => rfl)
  | zoomIn => exact sound_draw rfl (fun _ => rfl)
  | zoomOut => exact sound_draw rfl (fun _ => rfl)
  | zoomReset => exact sound_draw rfl (fun _ => rfl)
  | typeSeg chartType => exact sound_draw rfl (fun _ => rfl)
  | smaBtn => exact sound_draw rfl (fun _ => rfl)
  | theme => exact sound_draw rfl (fun _ => rfl)
  | frame =>
      cases hreq : s.page.requested with
      | true =>
          refine sound_draw (p := { s.page with requested := false }) ?_ (fun _ => rfl)
          unfold Page.handle
          rw [hreq]
          rfl
      | false =>
          have hsame : Session.step d s .frame = s := by
            unfold Session.step Page.handle
            rw [hreq]
            rfl
          rw [hsame]
          exact hs

/-- **Every page** is sound after any events. -/
theorem sound_after {size : Size} {events : List Event} (h : Session.After d size events s) :
    Sound d s := by
  refine Runs.exec_invariant (fun s e t hs hstep => ?_) (sound_draw rfl (fun _ => rfl)) h
  rw [← Option.some.inj hstep]
  exact sound_step hs e

/-! ## What the canvas shows and the tooltip says -/

theorem mathRound_sub_half (q : ℚ) : mathRound (q - 1 / 2) = ⌊q⌋ := by
  rw [mathRound, sub_add_cancel]

/-- The column of the tooltip is one of those drawn. -/
theorem columnAt_eq {p : Page} {n : Nat} (hn : p.view.n = n) (hpos : 0 < n) (clientX left : ℚ) :
    ∃ k < n, p.columnAt clientX left = (k : Nat)
      ∧ ((k : Int) = ⌊p.localAt clientX left⌋ ∨ ⌊p.localAt clientX left⌋ < 0
        ∨ n ≤ ⌊p.localAt clientX left⌋) := by
  have hclamp : ∀ a m : Int, 0 < m → 0 ≤ max 0 (min (m - 1) a) ∧ max 0 (min (m - 1) a) < m
      ∧ (max 0 (min (m - 1) a) = a ∨ a < 0 ∨ m ≤ a) := by omega
  obtain ⟨hlow, hhigh, hcases⟩ := hclamp ⌊p.localAt clientX left⌋ n (by omega)
  obtain ⟨k, hk⟩ := Int.eq_ofNat_of_zero_le hlow
  rw [hk] at hhigh hcases
  refine ⟨k, by omega, ?_, hcases⟩
  rw [Page.columnAt, mathRound_sub_half, hn]
  calc max 0 (min ((n : ℚ) - 1) (⌊p.localAt clientX left⌋ : ℚ))
      = ((max 0 (min ((n : Int) - 1) ⌊p.localAt clientX left⌋) : Int) : ℚ) := by push_cast; rfl
    _ = (k : ℚ) := by rw [hk]; rfl

/-- The cursor over the plot is in that column. -/
theorem columnAt_near {p : Page} {n k : Nat} (hn : p.view.n = n) (hpos : 0 < n)
    (hwide : 0 < p.size.chartW) {clientX left : ℚ}
    (hk : (k : Int) = ⌊p.localAt clientX left⌋ ∨ ⌊p.localAt clientX left⌋ < 0
      ∨ n ≤ ⌊p.localAt clientX left⌋)
    (hlow : padL ≤ clientX - left) (hhigh : clientX - left < padL + p.size.chartW) :
    |clientX - left - column p.size n k| ≤ p.size.chartW / n / 2 := by
  have hn0 : (0 : ℚ) < n := by exact_mod_cast hpos
  have hstep : 0 < p.size.chartW / n := div_pos hwide hn0
  have hlocal : p.localAt clientX left * (p.size.chartW / n) = clientX - left - padL := by
    rw [Page.localAt, Page.step, hn, div_mul_cancel₀ _ hstep.ne']
  have hnonneg : 0 ≤ p.localAt clientX left := by
    rw [Page.localAt, Page.step, hn]
    exact div_nonneg (sub_nonneg.mpr hlow) hstep.le
  have hlt : p.localAt clientX left < n := by
    rw [Page.localAt, Page.step, hn, div_lt_iff₀ hstep, mul_div_cancel₀ _ hn0.ne']
    linarith
  have hfloor : (k : Int) = ⌊p.localAt clientX left⌋ := by
    rcases hk with hk | hk | hk
    · exact hk
    · exact absurd (Int.floor_nonneg.mpr hnonneg) (not_le.mpr hk)
    · exact absurd (Int.floor_lt.mpr (by exact_mod_cast hlt)) (not_lt.mpr hk)
  have hkle : (k : ℚ) ≤ p.localAt clientX left := by
    calc (k : ℚ) = (⌊p.localAt clientX left⌋ : ℚ) := by rw [← hfloor]; rfl
      _ ≤ p.localAt clientX left := Int.floor_le _
  have hltk : p.localAt clientX left < k + 1 := by
    calc p.localAt clientX left < (⌊p.localAt clientX left⌋ : ℚ) + 1 := Int.lt_floor_add_one _
      _ = k + 1 := by rw [← hfloor]; rfl
  rw [column, abs_le]
  constructor
  · nlinarith
  · nlinarith

theorem barAt_natCast (g : Nat) : d.barAt g = d.bars[g]? := by
  unfold Data.barAt
  rw [if_pos ⟨by rw [Int.floor_natCast]; rfl, Nat.cast_nonneg g⟩, Int.floor_natCast,
    Int.toNat_natCast]

/-- **What the tooltip says**: the bar of the column the cursor is in, with the markers at it. -/
structure Tip.Says (d : Data) (size : Size) (i0 n : Nat) (x : ℚ) (t : Tip) : Prop where
  bar : ∃ k < n, d.bars[i0 + k]? = some t.bar
    ∧ (∀ m, m ∈ t.markers ↔ m ∈ d.markers ∧ Nearest d.bars m.t (i0 + k))
    ∧ (0 < size.chartW → padL ≤ x → x < padL + size.chartW →
      |x - column size n k| ≤ size.chartW / n / 2)

theorem mem_markerByBar (hne : d.bars ≠ []) {i : Nat} {m : Marker} :
    m ∈ d.markerByBar i ↔ m ∈ d.markers ∧ Nearest d.bars m.t i := by
  rw [Data.markerByBar, List.mem_filter, decide_eq_true_iff]
  refine and_congr_right (fun _ => ⟨fun h => ?_, fun h => ?_⟩)
  · rw [← h]
    exact nearestIdx_spec d m.t hne
  · exact (nearestIdx_spec d m.t hne).unique h

theorem hover_says {p : Page} {i0 n : Nat} (hview : p.view = ⟨i0, n⟩) (hpos : 0 < n)
    (hle : i0 + n ≤ d.bars.length) (clientX left width : ℚ) :
    ∃ t, (p.hover d clientX left width).2 = .tip (some t)
      ∧ Tip.Says d p.size i0 n (clientX - left) t := by
  have hne : d.bars ≠ [] := by
    rw [← List.length_pos_iff]
    omega
  have hn : p.view.n = n := by rw [hview]
  obtain ⟨k, hk, hcolumn, hnear⟩ := columnAt_eq hn hpos clientX left
  have hlt : i0 + k < d.bars.length := by omega
  have hg : p.view.i0 + p.columnAt clientX left = ((i0 + k : Nat) : ℚ) := by
    rw [hview, hcolumn]
    push_cast
    rfl
  refine ⟨⟨d.bars[i0 + k], d.markerByBar (i0 + k), p.tipLeft (p.columnAt clientX left) width⟩, ?_,
    ⟨k, hk, List.getElem?_eq_getElem hlt, fun m => mem_markerByBar hne, fun hwide hlow hhigh =>
      columnAt_near hn hpos hwide hnear hlow hhigh⟩⟩
  unfold Page.hover
  simp only [hg, barAt_natCast, List.getElem?_eq_getElem hlt, Int.floor_natCast, Int.toNat_natCast]
  rfl

/-- The pictures of a page with twelve bars, and of one with fewer. -/
theorem canvas_of_sound (hs : Sound d s) (hreq : s.page.requested = false)
    (hbars : ∀ b ∈ d.bars, b.Ordered) (hroom : 0 < s.page.size.priceH) :
    ∃ i0 n : Nat, s.page.view = ⟨i0, n⟩ ∧ Clamped d i0 n
      ∧ (d.bars.length < 12 → s.canvas = none)
      ∧ (12 ≤ d.bars.length → ∃ picture, s.canvas = some picture
        ∧ Shows d s.page.size s.page.chartType i0 n picture) := by
  obtain ⟨hpanned, hcanvas⟩ := hs.fresh hreq
  obtain ⟨i0, n, hview, hclamped⟩ := hs.range hpanned
  have hpos : 0 < n := by
    have hmin := hclamped.min_le
    omega
  refine ⟨i0, n, hview, hclamped, fun hfew => ?_, fun henough => ?_⟩
  · have hmin := hclamped.min_le
    rw [hcanvas, Page.picture, hview]
    exact picture_none d _ _ _ _ hpos (by omega)
  · have hmax := hclamped.le_max
    rw [hcanvas, Page.picture, hview]
    exact shows_picture d _ _ _ _ hpos (by omega) hroom hbars

/-- A handler draws, shows a tooltip, or neither. -/
theorem handle_cases (p : Page) (e : Event) :
    (∃ q, p.handle d e = Page.draw d q) ∨ (p.handle d e).2 = .nothing
      ∨ ∃ clientX left width, p.handle d e = p.hover d clientX left width := by
  cases e with
  | mousemove clientX left width =>
      show (∃ q, p.onMove d clientX left width = _) ∨ (p.onMove d clientX left width).2 = _
        ∨ ∃ x l w, p.onMove d clientX left width = p.hover d x l w
      unfold Page.onMove
      cases p.drag with
      | some drag => exact Or.inr (Or.inl rfl)
      | none => exact Or.inr (Or.inr ⟨clientX, left, width, rfl⟩)
  | mouseleave => exact Or.inr (Or.inl rfl)
  | mousedown clientX => exact Or.inr (Or.inl rfl)
  | mouseup => exact Or.inr (Or.inl rfl)
  | wheel clientX left deltaY => exact Or.inr (Or.inl rfl)
  | resize size => exact Or.inl ⟨_, rfl⟩
  | zoomIn => exact Or.inl ⟨_, rfl⟩
  | zoomOut => exact Or.inl ⟨_, rfl⟩
  | zoomReset => exact Or.inl ⟨_, rfl⟩
  | typeSeg chartType => exact Or.inl ⟨_, rfl⟩
  | smaBtn => exact Or.inl ⟨_, rfl⟩
  | theme => exact Or.inl ⟨_, rfl⟩
  | frame =>
      unfold Page.handle
      cases p.requested with
      | true => exact Or.inl ⟨_, rfl⟩
      | false => exact Or.inr (Or.inl rfl)

/-- With twelve bars a draw does not raise, and a tooltip only while the view is as a drag left
it. -/
theorem raises_of_sound (hs : Sound d s) (henough : 12 ≤ d.bars.length) (e : Event) :
    (s.page.handle d e).2 ≠ .drawn none
      ∧ ((s.page.handle d e).2 = .tip none → s.panned = true ∧ s.page.requested = true) := by
  rcases handle_cases (d := d) s.page e with ⟨q, hq⟩ | hnothing | ⟨clientX, left, width, hhover⟩
  · obtain ⟨i0, n, hclamp, hclamped⟩ := clampView_spec d q.view
    have hmin := hclamped.min_le
    have hmax := hclamped.le_max
    obtain ⟨first, rest, lastVis, -, hpicture⟩ := picture_eq d q.size q.chartType q.showSMA
      q.hoverIdx (show 0 < n by omega) (show i0 + n ≤ d.bars.length by omega)
    have hdrawn : (s.page.handle d e).2
        = .drawn (some (d.pictureOf (scale q.size n first rest) q.chartType q.showSMA q.hoverIdx i0
          first lastVis)) := by
      rw [hq, Page.draw]
      dsimp only
      rw [hclamp, hpicture]
    rw [hdrawn]
    exact ⟨nofun, nofun⟩
  · rw [hnothing]
    exact ⟨nofun, nofun⟩
  · rw [hhover]
    refine ⟨nofun, fun h => ?_⟩
    have hpanned : s.panned = true := by
      by_contra hnot
      obtain ⟨i0, n, hview, hclamped⟩ := hs.range (Bool.eq_false_iff.mpr hnot)
      have hmin := hclamped.min_le
      have hmax := hclamped.le_max
      have hle : i0 + n ≤ d.bars.length := by omega
      obtain ⟨t, ht, -⟩ := hover_says hview (by omega) hle clientX left width
      rw [ht] at h
      cases h
    refine ⟨hpanned, ?_⟩
    by_contra hreq
    obtain ⟨hnot, -⟩ := hs.fresh (Bool.eq_false_iff.mpr hreq)
    rw [hpanned] at hnot
    cases hnot

section

variable {round : Nat → ℚ → ℚ} {N : Numerals} {pre post page : List Char}
  {df : List (Int × Ohlcv)} {symbol dayLabel : String} {barSeconds sma : Int} {markers P : Json}
  {note : Option String}

/-- **A session with a page.** Opened in a browser, and whatever is done then, the canvas of a page
with twelve bars shows a range of them whenever no frame is pending, each where the tooltip says;
with fewer it shows none. With twelve nothing raises but a tooltip, and that only where a drag has
moved the view and it was not drawn or scaled since. -/
theorem session_shows (hround : Monotone (round 2)) (hsane : ∀ b ∈ df, b.2.Sane)
    (hP : P = payload (ohlcvRecords round df) symbol dayLabel barSeconds sma markers note)
    (hpage : Embedded N pre post P page) (hd : (loads N (blob N P)).bind Data.ofPayload = some d)
    (size : Size) (events : List Event) (h : Session.After d size events s) :
    d.bars = df.map (ofBar round)
      ∧ (12 ≤ df.length → ∀ e, (s.page.handle d e).2 ≠ .drawn none
        ∧ ((s.page.handle d e).2 = .tip none → s.panned = true ∧ s.page.requested = true))
      ∧ (s.page.requested = false → 0 < s.page.size.priceH →
        (df.length < 12 → s.canvas = none)
        ∧ (12 ≤ df.length → ∃ i0 n picture, 12 ≤ n ∧ i0 + n ≤ df.length
          ∧ s.canvas = some picture ∧ Shows d s.page.size s.page.chartType i0 n picture
          ∧ (s.page.drag = none → ∀ clientX left width, ∃ t,
            (s.page.handle d (.mousemove clientX left width)).2 = .tip (some t)
              ∧ Tip.Says d s.page.size i0 n (clientX - left) t))) := by
  rw [hpage.reads, Option.bind_some, hP] at hd
  have hmap : d.bars = df.map (ofBar round) := bars_ofPayload hd
  have hlen : d.bars.length = df.length := by rw [hmap, List.length_map]
  have hordered : ∀ b ∈ d.bars, b.Ordered := by
    intro b hb
    rw [hmap] at hb
    obtain ⟨x, hx, rfl⟩ := List.mem_map.mp hb
    have hsound := hsane x hx
    exact ⟨hround hsound.low_le_open, hround hsound.open_le_high, hround hsound.low_le_close,
      hround hsound.close_le_high⟩
  have hs : Sound d s := sound_after h
  refine ⟨hmap, fun henough => raises_of_sound hs (by omega), fun hreq hroom => ?_⟩
  obtain ⟨i0, n, hview, hclamped, hfew, hmany⟩ := canvas_of_sound hs hreq hordered hroom
  refine ⟨fun hlt => hfew (by omega), fun henough => ?_⟩
  obtain ⟨picture, hcanvas, hshows⟩ := hmany (by omega)
  have hmin := hclamped.min_le
  have hmax := hclamped.le_max
  refine ⟨i0, n, picture, hmin, by omega, hcanvas, hshows, fun hdrag clientX left width => ?_⟩
  have hhover : s.page.handle d (.mousemove clientX left width)
      = s.page.hover d clientX left width := by
    unfold Page.handle Page.onMove
    rw [hdrag]
  rw [hhover]
  exact hover_says hview (by omega) (by omega) clientX left width

end

/-! ## A page of forty bars -/

theorem monotone_roundTo (dp : Nat) : Monotone (roundTo dp) := by
  intro a b hab
  have hpow : (0 : ℚ) < 10 ^ dp := pow_pos (by norm_num) dp
  unfold roundTo
  gcongr

/-- One trade a minute, each at a higher price. -/
def forty : List (Int × Ohlcv) :=
  (List.range 40).map (fun k : Nat => (ms2ts (1787048940000 + 60000 * k),
    ohlcv [⟨ms2ts (1787048940000 + 60000 * k), "BTCUSDT", "binance", k, 100 + k, 1,
      ms2ts (1787048940000 + 60000 * k), false⟩]))

def fortyPayload : Json :=
  payload (ohlcvRecords roundTo forty) "BTCUSDT" "2026-08-18" 60 14 (.arr []) none

def fortyData : Data := ⟨forty.map (ofBar roundTo), [], 14⟩

/-- The canvas in a wide window. -/
def wideCanvas : Size := ⟨1062, 460, by norm_num [padL, padR]⟩

theorem sane_forty : ∀ b ∈ forty, b.2.Sane := by
  intro b hb
  obtain ⟨k, -, rfl⟩ := List.mem_map.mp hb
  exact sane_ohlcv (List.cons_ne_nil _ _) (fun r hr => by
    rw [List.mem_singleton.mp hr]
    exact one_pos)

theorem embedded_forty : Embedded decimals scriptStart scriptEnd fortyPayload
    (renderHtml decimals (scriptStart ++ (placeholder ++ scriptEnd)) fortyPayload) := by
  have hplace : OnePlace scriptStart scriptEnd := ⟨by decide +kernel, by decide +kernel⟩
  have hnum : PageNumbers roundTo decimals halfPastTen :=
    ⟨decimals_int, decimals_roundTo (by decide), decimals_roundTo (by decide),
      fun m hm => absurd hm (by simp [halfPastTen])⟩
  exact embedded_renderHtml hplace (allNumbers_payload hnum forty _ _ _ _
    (allNumbers_arr.mpr (fun v hv => absurd hv List.not_mem_nil)) none)

theorem ofPayload_forty : Data.ofPayload fortyPayload = some fortyData := by
  have hrecords : fortyPayload.index "ohlcv" = .ok (.arr (ohlcvRecords roundTo forty)) := rfl
  have hmarkers : fortyPayload.index "markers" = .ok (.arr []) := rfl
  have hsma : fortyPayload.index "sma" = .ok (.num (.rat ((14 : Int) : ℚ))) := rfl
  unfold Data.ofPayload
  rw [hrecords, hmarkers, hsma]
  dsimp only
  rw [mapM_records]
  rfl

/-- After a drag and a frame the tooltip is at a bar of the picture. -/
theorem session_shows_forty : ∃ s picture i0 n t,
    Session.After fortyData wideCanvas
        [.zoomIn, .mousedown 500, .mousemove 450 0 1062, .mouseup, .frame] s
      ∧ s.canvas = some picture ∧ Shows fortyData wideCanvas .candles i0 n picture
      ∧ (s.page.handle fortyData (.mousemove 450 0 1062)).2 = .tip (some t)
      ∧ Tip.Says fortyData wideCanvas i0 n (450 - 0) t := by
  have hrun : Session.After fortyData wideCanvas
      [.zoomIn, .mousedown 500, .mousemove 450 0 1062, .mouseup, .frame] _ := Runs.exec_some _ _ _
  have hread : (JsonText.loads decimals (blob decimals fortyPayload)).bind Data.ofPayload
      = some fortyData := by
    rw [embedded_forty.reads, Option.bind_some, ofPayload_forty]
  obtain ⟨-, -, hfresh⟩ := session_shows (monotone_roundTo 2) sane_forty rfl embedded_forty hread
    wideCanvas _ hrun
  have hroom : 0 < wideCanvas.priceH := by
    norm_num [wideCanvas, Size.priceH, padT, padB, volFrac, gap]
  obtain ⟨-, hshown⟩ := hfresh rfl hroom
  obtain ⟨i0, n, picture, -, -, hcanvas, hshows, htip⟩ := hshown (by decide)
  obtain ⟨t, ht, hsays⟩ := htip rfl 450 0 1062
  exact ⟨_, picture, i0, n, t, hrun, hcanvas, hshows, ht, hsays⟩

end Chart

end NanoTick
