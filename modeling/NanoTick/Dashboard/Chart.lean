import NanoTick.Dashboard.Window
import Mathlib.Tactic

set_option autoImplicit false

/-! # The chart of the page

The script of the page (`resources/dashboard_template.html`) draws a range of the bars: candles or
a line of the closes, volumes, a moving average, and markers at the bars nearest to them.
`picture` is what `draw` puts on the canvas. There is a picture exactly when the range lies within
the bars (`picture_isSome_iff`), and with ordered bars its candles stand within the plot, in the
order of the bars (`candles_inside`).

Numbers of the script are rationals, and places on the canvas are computed exactly; colours, fonts
and line styles are left out.
-/

namespace NanoTick

open Python

namespace Chart

/-- `Math.round`. -/
def mathRound (q : ℚ) : Int := ⌊q + 1 / 2⌋

/-! ## The data -/

structure ChartBar where
  t : ℚ
  o : ℚ
  h : ℚ
  l : ℚ
  c : ℚ
  v : ℚ
deriving DecidableEq

structure Marker where
  t : ℚ
  label : Option String
  side : Option String
deriving DecidableEq

/-- What the script has of the payload. -/
structure Data where
  bars : List ChartBar
  markers : List Marker
  smaN : Int

/-- A record of the payload, of six numbers. -/
def chartBar : Json → Option ChartBar
  | .arr [.num (.rat t), .num (.rat o), .num (.rat h), .num (.rat l), .num (.rat c),
      .num (.rat v)] => some ⟨t, o, h, l, c, v⟩
  | _ => none

/-- A field that is a string. -/
def textField (m : Json) (key : String) : Option String :=
  match m.index key with
  | .ok (.str s) => some s
  | _ => none

/-- A marker at a time. -/
def marker (m : Json) : Option Marker :=
  match m.index "t" with
  | .ok (.num (.rat t)) => some ⟨t, textField m "label", textField m "side"⟩
  | _ => none

/-- What the script reads of `PAYLOAD`. -/
def Data.ofPayload (payload : Json) : Option Data :=
  match payload.index "ohlcv", payload.index "markers", payload.index "sma" with
  | .ok (.arr records), .ok (.arr markers), .ok (.num (.rat sma)) =>
      match records.mapM chartBar, markers.mapM marker with
      | some bars, some markers => some ⟨bars, markers, if sma = 0 then 14 else ⌊sma⌋⟩
      | _, _ => none
  | _, _, _ => none

/-- `sma[i]`. -/
def Data.sma (d : Data) (i : Nat) : Option ℚ :=
  if (i : Int) < d.smaN - 1 then none
  else some ((((d.bars.take (i + 1)).drop (i + 1 - d.smaN).toNat).map ChartBar.c).sum / d.smaN)

/-- The loop of `nearestIdx` from the bar of index `i`. -/
def nearestFrom (t : ℚ) : List ChartBar → Nat → Nat → ℚ → Nat
  | [], _, best, _ => best
  | b :: bs, i, best, bd =>
      if |b.t - t| < bd then nearestFrom t bs (i + 1) i |b.t - t|
      else nearestFrom t bs (i + 1) best bd

/-- `nearestIdx`: any distance is below `Infinity`. -/
def Data.nearestIdx (d : Data) (t : ℚ) : Nat :=
  match d.bars with
  | [] => 0
  | b :: bs => nearestFrom t bs 1 0 |b.t - t|

/-- `markerByBar[i]`. -/
def Data.markerByBar (d : Data) (i : Nat) : List Marker :=
  d.markers.filter (fun m => decide (d.nearestIdx m.t = i))

/-! ## The canvas -/

/-- `PAD`, `VOL_FRAC` and `GAP`. -/
def padL : ℚ := 62
def padR : ℚ := 64
def padT : ℚ := 18
def padB : ℚ := 22
def volFrac : ℚ := 1 / 5
def gap : ℚ := 16

/-- A canvas, its plot not without a width. -/
structure Size where
  w : ℚ
  h : ℚ
  wide : w - padL - padR ≠ 0

/-- `layout`. -/
def Size.priceH (s : Size) : ℚ := (s.h - padT - padB) * (1 - volFrac) - gap
def Size.volTop (s : Size) : ℚ := padT + s.priceH + gap
def Size.volH (s : Size) : ℚ := (s.h - padT - padB) * volFrac
def Size.chartW (s : Size) : ℚ := s.w - padL - padR

structure View where
  i0 : ℚ
  n : ℚ

/-- `MIN_BARS`. -/
def minBars : Int := 12

/-- `clampView`. -/
def Data.clampView (d : Data) (v : View) : View :=
  let n : Int := max minBars (min d.bars.length (mathRound v.n))
  let i0 : Int := max 0 (min (d.bars.length - n) (mathRound v.i0))
  ⟨i0, n⟩

inductive ChartType where
  | candles
  | hollow
  | line
deriving DecidableEq

/-- What `draw` scales by. -/
structure Scale where
  size : Size
  n : Nat
  pMin : ℚ
  pMax : ℚ
  maxVol : ℚ

def Scale.step (s : Scale) : ℚ := s.size.chartW / s.n

def Scale.bodyW (s : Scale) : ℚ := max 1 (s.step * (31 / 50))

def Scale.xOf (s : Scale) (k : ℚ) : ℚ := padL + (k + 1 / 2) * s.step

def Scale.yOf (s : Scale) (price : ℚ) : ℚ :=
  padT + (s.pMax - price) / (s.pMax - s.pMin) * s.size.priceH

/-- `yVol`, when it is a number. -/
def Scale.yVol (s : Scale) (v : ℚ) : Option ℚ :=
  if s.maxVol = 0 then none
  else some (s.size.volTop + s.size.volH - v / s.maxVol * s.size.volH)

/-- The scale of the bars `b :: bs`. -/
def scale (size : Size) (n : Nat) (b : ChartBar) (bs : List ChartBar) : Scale :=
  let pLo := bs.foldl (fun m x => min m x.l) b.l
  let pHi := bs.foldl (fun m x => max m x.h) b.h
  let pad := if (pHi - pLo) * (3 / 50) = 0 then 1 else (pHi - pLo) * (3 / 50)
  { size, n, pMin := pLo - pad, pMax := pHi + pad,
    maxVol := (b :: bs).foldl (fun m x => max m x.v) 0 }

/-! ## The picture -/

/-- The text of a time, with its date when the range is longer than a day. -/
structure Label where
  x : ℚ
  t : ℚ
  date : Bool
deriving DecidableEq

/-- A wick and a body. -/
structure Candle where
  x : ℚ
  high : ℚ
  low : ℚ
  top : ℚ
  height : ℚ
  up : Bool
  filled : Bool
deriving DecidableEq

structure Volume where
  x : ℚ
  top : Option ℚ
  up : Bool
deriving DecidableEq

inductive Series where
  | candles (cs : List Candle)
  | line (points : List (ℚ × ℚ))

structure Picture where
  grid : List (ℚ × ℚ)
  labels : List Label
  volumes : List Volume
  series : Series
  sma : List (ℚ × ℚ)
  markers : List (ℚ × Marker)
  last : ℚ × ℚ
  hover : Option ℚ

/-- The candle of bar `b`, the one before it closing at `prevClose`. -/
def candle (xOf yOf : ℚ → ℚ) (hollow : Bool) (prevClose : ℚ) (k : Nat) (b : ChartBar) : Candle where
  x := xOf k
  high := yOf b.h
  low := yOf b.l
  top := min (yOf b.o) (yOf b.c)
  height := max 1 |yOf b.c - yOf b.o|
  up := decide (b.c ≥ if hollow then prevClose else b.o)
  filled := !hollow || decide (b.c < b.o)

/-- `prevClose` of bar `b` at index `g`. -/
def Data.prevClose (d : Data) (g : Nat) (b : ChartBar) : ℚ :=
  if 0 < g then (d.bars.getD (g - 1) b).c else b.o

/-- The bars drawn for the range of `n` bars from `i0`. -/
def Data.vis (d : Data) (i0 n : Nat) : List ChartBar := (d.bars.drop i0).take n

/-- The candles, or the line, of `n` bars from `i0`. -/
def Data.series (d : Data) (xOf yOf : ℚ → ℚ) (i0 n : Nat) : ChartType → Series
  | .line => .line ((d.vis i0 n).zipIdx.map (fun p => (xOf p.2, yOf p.1.c)))
  | .candles => .candles ((d.vis i0 n).zipIdx.map (fun p =>
      candle xOf yOf false p.1.o p.2 p.1))
  | .hollow => .candles ((d.vis i0 n).zipIdx.map (fun p =>
      candle xOf yOf true (d.prevClose (i0 + p.2) p.1) p.2 p.1))

/-- The drawing itself, once `vis[n - 1]` is there. -/
def Data.pictureOf (d : Data) (s : Scale) (type : ChartType) (showSMA : Bool) (hoverIdx : ℚ)
    (i0 : Nat) (first lastVis : ChartBar) : Picture where
  grid := (List.range 6).map (fun i : Nat =>
    (s.pMin + (s.pMax - s.pMin) * (i / 5), s.yOf (s.pMin + (s.pMax - s.pMin) * (i / 5))))
  labels :=
    let every := (max 1 (mathRound (s.n / 9))).toNat
    ((d.vis i0 s.n).zipIdx.filter (fun p => decide (p.2 % every = 0))).map (fun p =>
      ⟨s.xOf p.2, p.1.t, decide (lastVis.t - first.t > 86400000)⟩)
  volumes := (d.vis i0 s.n).zipIdx.map (fun p =>
    ⟨s.xOf p.2, s.yVol p.1.v, decide (p.1.c ≥ p.1.o)⟩)
  series := d.series s.xOf s.yOf i0 s.n type
  sma :=
    if showSMA then
      (List.range s.n).filterMap (fun k : Nat =>
        (d.sma (i0 + k)).map (fun a => (s.xOf k, s.yOf a)))
    else []
  markers := (d.markers.filter (fun m =>
      decide (i0 ≤ d.nearestIdx m.t ∧ d.nearestIdx m.t < i0 + s.n))).map (fun m =>
    (s.xOf ((d.nearestIdx m.t : ℚ) - i0), m))
  last := (lastVis.c, s.yOf lastVis.c)
  hover :=
    if (i0 : ℚ) ≤ hoverIdx ∧ hoverIdx < i0 + s.n then some (s.xOf (hoverIdx - i0)) else none

/-- `draw` after `clampView`; none when it raises, at a bar that is not there. -/
def Data.picture (d : Data) (size : Size) (type : ChartType) (showSMA : Bool) (hoverIdx : ℚ)
    (v : View) : Option Picture :=
  let i0 := ⌊v.i0⌋.toNat
  let n := ⌊v.n⌋.toNat
  match d.vis i0 n, (d.vis i0 n)[n - 1]? with
  | first :: rest, some lastVis =>
      some (d.pictureOf (scale size n first rest) type showSMA hoverIdx i0 first lastVis)
  | _, _ => none

/-! ## From the payload -/

/-- The bar drawn for a bar of the database. -/
def ofBar (round : Nat → ℚ → ℚ) (b : Int × Ohlcv) : ChartBar where
  t := epochMs b.1
  o := round 2 b.2.open
  h := round 2 b.2.high
  l := round 2 b.2.low
  c := round 2 b.2.close
  v := round 4 b.2.vol

theorem mapM_records (round : Nat → ℚ → ℚ) (df : List (Int × Ohlcv)) :
    (ohlcvRecords round df).mapM chartBar = some (df.map (ofBar round)) := by
  induction df with
  | nil => rfl
  | cons b df ih =>
      rw [ohlcvRecords] at ih ⊢
      rw [List.map_cons, List.mapM_cons, ih]
      rfl

/-- The bars of the script are those of the payload. -/
theorem bars_ofPayload {round : Nat → ℚ → ℚ} {df : List (Int × Ohlcv)} {symbol dayLabel : String}
    {barSeconds sma : Int} {markers : Json} {note : Option String} {d : Data}
    (h : Data.ofPayload (payload (ohlcvRecords round df) symbol dayLabel barSeconds sma markers
      note) = some d) : d.bars = df.map (ofBar round) := by
  have hrecords : (payload (ohlcvRecords round df) symbol dayLabel barSeconds sma markers
      note).index "ohlcv" = .ok (.arr (ohlcvRecords round df)) := rfl
  unfold Data.ofPayload at h
  rw [hrecords] at h
  split at h
  · rename_i records' markers' sma' hr hm hs
    cases hr
    rw [mapM_records] at h
    split at h
    · rename_i bars markers'' hbars hmarkers
      cases h
      exact (Option.some.inj hbars).symm
    · cases h
  · cases h

/-! ## The range of bars -/

theorem mathRound_natCast (n : Nat) : mathRound n = n := by
  unfold mathRound
  rw [Int.floor_eq_iff]
  constructor
  · push_cast
    linarith
  · push_cast
    linarith

/-- The range of a clamped view: twelve bars at least, and existing ones if there are twelve. -/
structure Clamped (d : Data) (i0 n : Nat) : Prop where
  min_le : 12 ≤ n
  le_max : i0 + n ≤ max 12 d.bars.length

theorem clampView_spec (d : Data) (v : View) :
    ∃ i0 n : Nat, d.clampView v = ⟨i0, n⟩ ∧ Clamped d i0 n := by
  have hn : ∀ a len : Int, 0 ≤ len →
      12 ≤ max 12 (min len a) ∧ max 12 (min len a) ≤ max 12 len := by omega
  have hi : ∀ a n len : Int, 0 ≤ max 0 (min (len - n) a)
      ∧ (n ≤ max 12 len → 12 ≤ n → max 0 (min (len - n) a) + n ≤ max 12 len) := by omega
  obtain ⟨hlow, hhigh⟩ := hn (mathRound v.n) d.bars.length (Int.natCast_nonneg _)
  obtain ⟨hpos, hsum⟩ := hi (mathRound v.i0) (max 12 (min d.bars.length (mathRound v.n)))
    d.bars.length
  obtain ⟨n, hnat⟩ := Int.eq_ofNat_of_zero_le (show 0 ≤ max 12 (min (d.bars.length : Int)
    (mathRound v.n)) by omega)
  rw [hnat] at hpos hsum hlow hhigh
  obtain ⟨i0, hi0⟩ := Int.eq_ofNat_of_zero_le hpos
  have hle := hsum hhigh hlow
  refine ⟨i0, n, ?_, ⟨by omega, by omega⟩⟩
  show View.mk _ _ = _
  rw [show minBars = 12 from rfl, hnat, hi0]
  rfl

theorem length_vis (d : Data) (i0 n : Nat) : (d.vis i0 n).length = min n (d.bars.length - i0) := by
  rw [Data.vis, List.length_take, List.length_drop]

section

variable (d : Data) (size : Size) (type : ChartType) (showSMA : Bool) (hoverIdx : ℚ) {i0 n : Nat}

/-- The picture of a range of bars. -/
theorem picture_eq (hn : 0 < n) (hle : i0 + n ≤ d.bars.length) :
    ∃ first rest lastVis, d.vis i0 n = first :: rest
      ∧ d.picture size type showSMA hoverIdx ⟨i0, n⟩
        = some (d.pictureOf (scale size n first rest) type showSMA hoverIdx i0 first lastVis) := by
  have hlen : (d.vis i0 n).length = n := by
    rw [length_vis]
    omega
  have hlast : n - 1 < (d.vis i0 n).length := by omega
  cases hvis : d.vis i0 n with
  | nil =>
      rw [hvis] at hlen
      simp only [List.length_nil] at hlen
      omega
  | cons first rest =>
      rw [hvis] at hlast
      refine ⟨first, rest, (first :: rest)[n - 1], rfl, ?_⟩
      unfold Data.picture
      simp only [Int.floor_natCast, Int.toNat_natCast]
      rw [hvis, List.getElem?_eq_getElem hlast]

/-- A range past the last bar has none. -/
theorem picture_none (hn : 0 < n) (hlt : d.bars.length < i0 + n) :
    d.picture size type showSMA hoverIdx ⟨i0, n⟩ = none := by
  have hlast : (d.vis i0 n)[n - 1]? = none := by
    rw [List.getElem?_eq_none_iff, length_vis]
    omega
  unfold Data.picture
  simp only [Int.floor_natCast, Int.toNat_natCast]
  rw [hlast]
  cases d.vis i0 n with
  | nil => rfl
  | cons b bs => rfl

end

/-! ## The nearest bar -/

/-- Bar `i` is the first of those with the least distance to the time. -/
def Nearest (bars : List ChartBar) (t : ℚ) (i : Nat) : Prop :=
  ∃ b, bars[i]? = some b ∧ (∀ c ∈ bars, |b.t - t| ≤ |c.t - t|)
    ∧ ∀ c ∈ bars.take i, |b.t - t| < |c.t - t|

/-- The loop goes on from the nearest of the bars before. -/
theorem nearestFrom_spec (t : ℚ) (rest : List ChartBar) {bars : List ChartBar} {best : Nat}
    {b : ChartBar} (hb : bars[best]? = some b) (hle : ∀ c ∈ bars, |b.t - t| ≤ |c.t - t|)
    (hfirst : ∀ c ∈ bars.take best, |b.t - t| < |c.t - t|) :
    Nearest (bars ++ rest) t (nearestFrom t rest bars.length best |b.t - t|) := by
  induction rest generalizing bars best b with
  | nil =>
      rw [List.append_nil]
      exact ⟨b, hb, hle, hfirst⟩
  | cons x rest ih =>
      have hlt : best < bars.length := (List.getElem?_eq_some_iff.mp hb).1
      have hsplit : bars ++ x :: rest = (bars ++ [x]) ++ rest := by
        rw [List.append_assoc]
        rfl
      have hlen : bars.length + 1 = (bars ++ [x]).length := by
        rw [List.length_append, List.length_singleton]
      rw [nearestFrom, hsplit, hlen]
      split
      · rename_i hcloser
        refine ih List.getElem?_concat_length (fun c hc => ?_) (fun c hc => ?_)
        · rcases List.mem_append.mp hc with hc | hc
          · exact hcloser.le.trans (hle c hc)
          · rw [List.mem_singleton.mp hc]
        · rw [List.take_left] at hc
          exact hcloser.trans_le (hle c hc)
      · rename_i hnot
        refine ih ?_ (fun c hc => ?_) (fun c hc => ?_)
        · rw [List.getElem?_append_left hlt]
          exact hb
        · rcases List.mem_append.mp hc with hc | hc
          · exact hle c hc
          · rw [List.mem_singleton.mp hc]
            exact not_lt.mp hnot
        · rw [List.take_append_of_le_length hlt.le] at hc
          exact hfirst c hc

theorem nearestIdx_spec (d : Data) (t : ℚ) (hne : d.bars ≠ []) :
    Nearest d.bars t (d.nearestIdx t) := by
  unfold Data.nearestIdx
  cases hbars : d.bars with
  | nil => exact absurd hbars hne
  | cons b bs =>
      refine @nearestFrom_spec t bs [b] 0 b rfl (fun c hc => ?_) (fun c hc => ?_)
      · rw [List.mem_singleton.mp hc]
      · exact absurd hc List.not_mem_nil

/-- There is only one such bar. -/
theorem Nearest.unique {bars : List ChartBar} {t : ℚ} {i j : Nat} (hi : Nearest bars t i)
    (hj : Nearest bars t j) : i = j := by
  have hnot : ∀ {i j : Nat}, Nearest bars t i → Nearest bars t j → ¬ i < j := by
    rintro i j ⟨b, hb, hle, -⟩ ⟨c, hc, -, hfirst⟩ hlt
    have hmem : b ∈ bars.take j := by
      rw [List.mem_iff_getElem?]
      exact ⟨i, by rw [List.getElem?_take_of_lt hlt, hb]⟩
    exact absurd (hle c (List.mem_of_getElem? hc)) (not_le.mpr (hfirst b hmem))
  have hij := hnot hi hj
  have hji := hnot hj hi
  omega

/-! ## What a picture shows -/

/-- The middle of the column of the `k`-th of `n` bars. -/
def column (size : Size) (n : Nat) (k : ℚ) : ℚ := padL + (k + 1 / 2) * (size.chartW / n)

/-- A bar whose prices are in order. -/
structure ChartBar.Ordered (b : ChartBar) : Prop where
  low_le_open : b.l ≤ b.o
  open_le_high : b.o ≤ b.h
  low_le_close : b.l ≤ b.c
  close_le_high : b.c ≤ b.h

/-- **What a picture shows** of `n` bars from `i0`: each in its own column, higher prices higher,
all within the plot; volumes by their share of the largest, if it is not zero; and the markers
nearest to them. -/
structure Shows (d : Data) (size : Size) (type : ChartType) (i0 n : Nat) (p : Picture) : Prop where
  series : ∃ yOf : ℚ → ℚ, StrictAnti yOf
    ∧ (∀ b ∈ d.vis i0 n, padT ≤ yOf b.h ∧ yOf b.l ≤ padT + size.priceH)
    ∧ p.series = d.series (column size n) yOf i0 n type
  volumes : ∃ most : ℚ, (∀ b ∈ d.vis i0 n, b.v ≤ most)
    ∧ (most = 0 ∨ ∃ b ∈ d.vis i0 n, b.v = most)
    ∧ p.volumes = (d.vis i0 n).zipIdx.map (fun q => ⟨column size n q.2,
      if most = 0 then none else some (size.volTop + size.volH - q.1.v / most * size.volH),
      decide (q.1.c ≥ q.1.o)⟩)
  markers : ∀ x m, (x, m) ∈ p.markers ↔ m ∈ d.markers
    ∧ ∃ k < n, Nearest d.bars m.t (i0 + k) ∧ x = column size n k

theorem foldl_min_le {α : Type} (f : α → ℚ) (l : List α) (a : ℚ) :
    l.foldl (fun m x => min m (f x)) a ≤ a
      ∧ ∀ x ∈ l, l.foldl (fun m x => min m (f x)) a ≤ f x := by
  induction l generalizing a with
  | nil => exact ⟨le_refl a, fun x hx => absurd hx List.not_mem_nil⟩
  | cons b l ih =>
      obtain ⟨hstart, hrest⟩ := ih (min a (f b))
      refine ⟨hstart.trans (min_le_left _ _), fun x hx => ?_⟩
      rcases List.mem_cons.mp hx with rfl | hx
      · exact hstart.trans (min_le_right _ _)
      · exact hrest x hx

/-- The maximum is the start or one of the values. -/
theorem foldl_max_eq {α : Type} (f : α → ℚ) (l : List α) (a : ℚ) :
    l.foldl (fun m x => max m (f x)) a = a
      ∨ ∃ x ∈ l, f x = l.foldl (fun m x => max m (f x)) a := by
  induction l generalizing a with
  | nil => exact Or.inl rfl
  | cons b l ih =>
      rw [List.foldl_cons]
      rcases ih (max a (f b)) with hstart | ⟨x, hx, hmax⟩
      · rw [hstart]
        rcases max_choice a (f b) with h | h
        · exact Or.inl h
        · exact Or.inr ⟨b, List.mem_cons_self, h.symm⟩
      · exact Or.inr ⟨x, List.mem_cons_of_mem b hx, hmax⟩

theorem le_foldl_max {α : Type} (f : α → ℚ) (l : List α) (a : ℚ) :
    a ≤ l.foldl (fun m x => max m (f x)) a
      ∧ ∀ x ∈ l, f x ≤ l.foldl (fun m x => max m (f x)) a := by
  induction l generalizing a with
  | nil => exact ⟨le_refl a, fun x hx => absurd hx List.not_mem_nil⟩
  | cons b l ih =>
      obtain ⟨hstart, hrest⟩ := ih (max a (f b))
      refine ⟨(le_max_left _ _).trans hstart, fun x hx => ?_⟩
      rcases List.mem_cons.mp hx with rfl | hx
      · exact (le_max_right _ _).trans hstart
      · exact hrest x hx

/-- The prices drawn lie strictly between the ends of the scale. -/
theorem scale_bounds (size : Size) (n : Nat) {b : ChartBar} {bs : List ChartBar}
    (hb : b.Ordered) : ∀ x ∈ b :: bs,
      (scale size n b bs).pMin < x.l ∧ x.h < (scale size n b bs).pMax := by
  obtain ⟨hloFirst, hlo⟩ := foldl_min_le ChartBar.l bs b.l
  obtain ⟨hhiFirst, hhi⟩ := le_foldl_max ChartBar.h bs b.h
  have hpad : ∀ q : ℚ, 0 ≤ q → 0 < (if q * (3 / 50) = 0 then (1 : ℚ) else q * (3 / 50)) := by
    intro q hq
    split
    · exact one_pos
    · rename_i hne
      have hnonneg : 0 ≤ q * (3 / 50) := mul_nonneg hq (by norm_num)
      exact lt_of_le_of_ne hnonneg (Ne.symm hne)
  have hrange : 0 ≤ bs.foldl (fun m x => max m x.h) b.h - bs.foldl (fun m x => min m x.l) b.l := by
    have hbar : b.l ≤ b.h := hb.low_le_open.trans hb.open_le_high
    linarith
  have hpos := hpad _ hrange
  intro x hx
  have hxlo : bs.foldl (fun m x => min m x.l) b.l ≤ x.l := by
    rcases List.mem_cons.mp hx with rfl | hx
    · exact hloFirst
    · exact hlo x hx
  have hxhi : x.h ≤ bs.foldl (fun m x => max m x.h) b.h := by
    rcases List.mem_cons.mp hx with rfl | hx
    · exact hhiFirst
    · exact hhi x hx
  unfold scale
  dsimp only
  constructor
  · linarith
  · linarith

/-- A scale with room draws higher prices higher. -/
theorem yOf_strictAnti {s : Scale} (hroom : 0 < s.size.priceH) (hlt : s.pMin < s.pMax) :
    StrictAnti s.yOf := by
  intro a b hab
  have hscale : 0 < s.pMax - s.pMin := sub_pos.mpr hlt
  unfold Scale.yOf
  gcongr

/-- The ends of the scale are those of the price area. -/
theorem yOf_ends {s : Scale} (hlt : s.pMin < s.pMax) :
    s.yOf s.pMax = padT ∧ s.yOf s.pMin = padT + s.size.priceH := by
  have hne : s.pMax - s.pMin ≠ 0 := (sub_pos.mpr hlt).ne'
  unfold Scale.yOf
  constructor
  · rw [sub_self, zero_div, zero_mul, add_zero]
  · rw [div_self hne, one_mul]

/-- **A drawn picture** shows the range. -/
theorem shows_picture (d : Data) (size : Size) (type : ChartType) (showSMA : Bool) (hoverIdx : ℚ)
    {i0 n : Nat} (hn : 0 < n) (hle : i0 + n ≤ d.bars.length) (hroom : 0 < size.priceH)
    (hbars : ∀ b ∈ d.bars, b.Ordered) :
    ∃ p, d.picture size type showSMA hoverIdx ⟨i0, n⟩ = some p ∧ Shows d size type i0 n p := by
  obtain ⟨first, rest, lastVis, hvis, hpicture⟩ :=
    picture_eq d size type showSMA hoverIdx hn hle
  have hmem : ∀ b ∈ d.vis i0 n, b ∈ d.bars := fun b hb =>
    List.mem_of_mem_drop (List.mem_of_mem_take hb)
  have hfirst : first ∈ d.vis i0 n := by
    rw [hvis]
    exact List.mem_cons_self
  have hbounds : ∀ x ∈ first :: rest, (scale size n first rest).pMin < x.l
      ∧ x.h < (scale size n first rest).pMax :=
    scale_bounds size n (hbars first (hmem first hfirst))
  rw [← hvis] at hbounds
  have hlt : (scale size n first rest).pMin < (scale size n first rest).pMax := by
    obtain ⟨hlow, hhigh⟩ := hbounds first hfirst
    have hbar := hbars first (hmem first hfirst)
    linarith [hbar.low_le_open, hbar.open_le_high]
  have hanti : StrictAnti (scale size n first rest).yOf := yOf_strictAnti hroom hlt
  obtain ⟨hmax, hmin⟩ := yOf_ends hlt
  refine ⟨_, hpicture, ?_, ?_, ?_⟩
  · refine ⟨(scale size n first rest).yOf, hanti, fun b hb => ?_, rfl⟩
    obtain ⟨hlow, hhigh⟩ := hbounds b hb
    constructor
    · calc padT = (scale size n first rest).yOf (scale size n first rest).pMax := hmax.symm
        _ ≤ (scale size n first rest).yOf b.h := (hanti hhigh).le
    · calc (scale size n first rest).yOf b.l
          ≤ (scale size n first rest).yOf (scale size n first rest).pMin := (hanti hlow).le
        _ = padT + size.priceH := hmin
  · refine ⟨(scale size n first rest).maxVol, fun b hb => ?_, ?_, rfl⟩
    · rw [hvis] at hb
      exact (le_foldl_max ChartBar.v (first :: rest) 0).2 b hb
    · rw [hvis]
      exact foldl_max_eq ChartBar.v (first :: rest) 0
  · have hne : d.bars ≠ [] := List.ne_nil_of_mem (hmem first hfirst)
    intro x m
    show (x, m) ∈ (d.markers.filter _).map _ ↔ _
    rw [List.mem_map]
    constructor
    · rintro ⟨m', hm', hxm⟩
      obtain ⟨rfl, rfl⟩ := Prod.mk.inj hxm
      obtain ⟨hmark, hin⟩ := List.mem_filter.mp hm'
      obtain ⟨hlow, hhigh⟩ := of_decide_eq_true hin
      have hnear := nearestIdx_spec d m'.t hne
      refine ⟨hmark, d.nearestIdx m'.t - i0, ?_, ?_, ?_⟩
      · have hn' : (scale size n first rest).n = n := rfl
        omega
      · rwa [Nat.add_sub_cancel' hlow]
      · rw [Nat.cast_sub hlow]
        rfl
    · rintro ⟨hmark, k, hk, hnearest, rfl⟩
      have hnear : d.nearestIdx m.t = i0 + k := (nearestIdx_spec d m.t hne).unique hnearest
      refine ⟨m, List.mem_filter.mpr ⟨hmark, decide_eq_true ⟨by omega, ?_⟩⟩, ?_⟩
      · show d.nearestIdx m.t < i0 + n
        omega
      · rw [hnear]
        have hk' : ((i0 + k : Nat) : ℚ) - i0 = k := by
          push_cast
          ring
        rw [hk']
        rfl

end Chart

end NanoTick
