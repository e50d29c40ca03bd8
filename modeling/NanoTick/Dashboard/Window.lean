import NanoTick.Basic.Decimals
import NanoTick.Basic.ScriptText
import NanoTick.Dashboard.Instants
import NanoTick.Evaluation.Ticks
import Mathlib.Tactic

set_option autoImplicit false

/-! # The dashboard

`main` (`resources/dashboard.py`) loads the bars of some days, trims them to a window when one
was asked for, and writes a page: a template with a payload in its script. `dashboard_window`
follows it from the database to the page: a script that reads the payload back finds exactly the
bars of the database that start in the window, in their order, whatever the labels hold.

How numbers are rounded is the parameter `round`, how they are written `N`. An integer and the
float equal to it are one number here.
-/

namespace NanoTick

open Buckets JsonText Python Raising

/-! ## Windows -/

/-- `window_bounds`. -/
def windowBounds (center window : Int) : Int × Int :=
  (center - window * 60000, center + window * 60000)

/-- `window_days`. -/
def windowDays (lo hi : Int) : Except PyErr (List Date) := do
  let first ← utcDate lo
  let last ← utcDate hi
  .ok ((List.range (last - first + 1).toNat).map (fun n : Nat => first + n))

/-- Epoch milliseconds of a timestamp. -/
def epochMs (t : Int) : Int := (t - ms2ts 0) / 1000000

/-- `filter_window`. -/
def filterWindow (lo hi : Int) (df : List (Int × Ohlcv)) : List (Int × Ohlcv) :=
  df.filter (fun b => decide (lo ≤ epochMs b.1 ∧ epochMs b.1 ≤ hi))

/-- `HdbReader.bars`, the width in whole seconds. -/
def HdbReader.bars (hdb : Hdb) (s : Sym) (barSeconds : Int) (d : Date) :
    Except PyErr (List (Int × Ohlcv)) :=
  if barSeconds ≤ 0 then .error .valueError
  else .ok (NanoTick.bars hdb s d (barSeconds * 1000000000))

/-- `load_bars`: days that raise or have no bars are skipped. -/
def loadBars (bars : Date → Except PyErr (List (Int × Ohlcv))) (days : List Date) :
    Except PyErr (List (Int × Ohlcv)) :=
  let frames := days.filterMap (fun d =>
    match bars d with
    | .error _ => none
    | .ok b => if 0 < b.length then some b else none)
  if frames = [] then
    match days with
    | [] => .error .indexError
    | _ :: _ => .error .valueError
  else .ok frames.flatten

/-! ## The page -/

section

variable (round : Nat → ℚ → ℚ)

/-- `ohlcv_records`. -/
def ohlcvRecords (df : List (Int × Ohlcv)) : List Json :=
  df.map (fun b => .arr [.num (.rat (epochMs b.1)), .num (.rat (round 2 b.2.open)),
    .num (.rat (round 2 b.2.high)), .num (.rat (round 2 b.2.low)), .num (.rat (round 2 b.2.close)),
    .num (.rat (round 4 b.2.vol))])

/-- The payload of `render_html`. -/
def payload (records : List Json) (symbol dayLabel : String) (barSeconds sma : Int)
    (markers : Json) (note : Option String) : Json :=
  let note := match note with
    | some n => if n = "" then "candles = tick OHLCV" else n
    | none => "candles = tick OHLCV"
  .obj [
    ("meta", .obj [("symbol", .str symbol), ("bar_seconds", .num (.rat barSeconds)),
      ("range", .str dayLabel), ("n", .num (.rat records.length)), ("note", .str note)]),
    ("ohlcv", .arr records),
    ("markers", if markers.truthy then markers else .arr []),
    ("sma", .num (.rat sma))]

def placeholder : List Char := "__PAYLOAD__".toList

/-- `json.dumps(payload, separators=(",", ":"), ensure_ascii=False)`. -/
def compact : Style := { ascii := false, spaced := false, closed := false }

variable (N : Numerals)

/-- What `render_html` puts into the template. -/
def blob (p : Json) : List Char := replace close closeEscaped (text N compact p)

/-- `render_html`. -/
def renderHtml (template : List Char) (p : Json) : List Char :=
  replace placeholder (blob N p) template

/-- What the command line asks for. -/
inductive Asked where
  | days (start : String) (stop : Option String)
  | around (center : String) (window : Int) (label : String) (side : Option String)

structure DashboardArgs where
  symbol : String
  asked : Asked
  barSeconds : Int
  sma : Int
  markers : Option Json

/-- `markers + [marker]`. -/
def addMarker (markers marker : Json) : Except PyErr Json :=
  match markers with
  | .arr l => .ok (.arr (l ++ [marker]))
  | _ => .error .typeError

/-- The marker at the centre of a window. -/
def centerMarker (center : Int) (label : String) (side : Option String) : Json :=
  .obj ([("t", .num (.rat center)), ("label", .str label)]
    ++ (side.map (fun s => ("side", Json.str s))).toList)

def rangeLabel (days : List Date) : String :=
  if days.length = 1 then isoDate (days.headD 0)
  else isoDate (days.headD 0) ++ " → " ++ isoDate (days.getLastD 0)

/-- `main`, up to the text it writes. -/
def dashboard (template : List Char) (hdb : Hdb) (args : DashboardArgs) :
    Except PyErr (List Char) := do
  let markers := args.markers.getD (.arr [])
  let bars := HdbReader.bars hdb args.symbol args.barSeconds
  match args.asked with
  | .days start stop =>
      let days ← dateRange start (match stop with
        | some s => if s = "" then start else s
        | none => start)
      let df ← loadBars bars days
      .ok (renderHtml N template (payload (ohlcvRecords round df) args.symbol (rangeLabel days)
        args.barSeconds args.sma markers none))
  | .around center window label side =>
      -- an empty centre asks for days that are not there
      if center = "" then .error .typeError
      else do
        let ms ← parseInstant center
        let (lo, hi) := windowBounds ms window
        let days ← windowDays lo hi
        let markers ← addMarker markers (centerMarker ms label side)
        let df ← loadBars bars days
        let df := filterWindow lo hi df
        if df = [] then .error .valueError
        else do
          let minute ← isoMin ms
          .ok (renderHtml N template (payload (ohlcvRecords round df) args.symbol
            ("±" ++ toString window ++ "min · " ++ minute ++ " UTC") args.barSeconds args.sma
            markers none))

end

/-! ## The script of the page -/

section

variable {N : Numerals} {pre post : List Char} {p : Json}

/-- A template with one place for the payload, in a script. -/
structure OnePlace (pre post : List Char) : Prop where
  before : ¬ placeholder <:+: pre ++ placeholder.dropLast
  after : ¬ placeholder <:+: post

/-- **The payload in the page**: it stands where the placeholder stood, holds nothing that could
end the script, and is read back as it was. -/
structure Embedded (N : Numerals) (pre post : List Char) (p : Json) (page : List Char) : Prop where
  page_eq : page = pre ++ (blob N p ++ post)
  closes : ¬ close <:+: blob N p
  script : untilClose (blob N p ++ post) = blob N p ++ untilClose post
  reads : loads N (blob N p) = some p

theorem blob_eq (hp : AllNumbers N.Reads p) : blob N p = text N compact.close p := by
  have h := replace_text (S := compact) rfl hp []
  rwa [List.append_nil, replace_nil, List.append_nil] at h

/-- The text of a dictionary ends in a brace. -/
theorem getLast_text_obj (S : Style) (m : List (String × Json)) :
    (text N S (.obj m)).getLast? = some '}' := by
  rw [text, ← List.cons_append]
  exact List.getLast?_concat

theorem embedded_renderHtml (h : OnePlace pre post) {m : List (String × Json)}
    (hp : AllNumbers N.Reads (.obj m)) :
    Embedded N pre post (.obj m) (renderHtml N (pre ++ (placeholder ++ post)) (.obj m)) where
  page_eq := replace_once (by decide) h.before h.after
  closes := no_close_replace _
  script := by
    have hlast : (blob N (.obj m)).getLast? = some '}' := by rw [blob_eq hp, getLast_text_obj]
    exact untilClose_append (no_close_replace _) (by rw [← blob, hlast]; decide) post
  reads := by
    have hread := loads_text (S := compact.close) hp (t := []) (fun c hc => absurd hc
      List.not_mem_nil)
    rwa [List.append_nil, ← blob_eq hp] at hread

end

/-! ## The bars of a window -/

/-- Every row of the trades and of the stored bars is in the partition of its own date. -/
structure OwnDates (hdb : Hdb) : Prop where
  trade : ∀ d, ∀ r ∈ hdb.trade.rowsAt d, tsDate r.time = d
  bar : ∀ d, ∀ r ∈ hdb.bar.rowsAt d, tsDate r.time = d

def nsPerDay : Int := 1000000 * msPerDay

/-- A bucket that divides the day starts on the day of its rows. -/
theorem tsDate_xbar {sz : Int} (hsz : 0 < sz) (hday : sz ∣ nsPerDay) (t : Int) :
    tsDate (xbar sz t) = tsDate t := by
  obtain ⟨k, hk⟩ := hday
  have hshift : ∀ t : Int, tsDate t = t / nsPerDay + 10957 := by
    intro t
    have hsum : t - ms2ts 0 = t + 10957 * nsPerDay := by
      unfold ms2ts nsPerDay msPerDay
      omega
    have hne : nsPerDay ≠ 0 := by decide
    show (t - ms2ts 0) / nsPerDay = _
    rw [hsum, Int.add_mul_ediv_right _ _ hne]
  have hpos : (0 : Int) < nsPerDay := by decide
  have hnest := xbar_mul_xbar hsz k t
  rw [mul_comm k sz, ← hk] at hnest
  rw [hshift, hshift, Int.eq_of_mul_eq_mul_left hpos.ne' hnest]

/-- The date of a timestamp is that of its milliseconds. -/
theorem tsDate_eq_epochMs (t : Int) : tsDate t = epochMs t / msPerDay := by
  unfold tsDate epochMs
  rw [Int.ediv_ediv_of_nonneg (by decide)]

section

variable {hdb : Hdb} {s : Sym} {sz : Int}

/-- A bar of a day starts on that day. -/
theorem tsDate_of_mem_bars (hown : OwnDates hdb) (hsz : 0 < sz) (hday : sz ∣ nsPerDay) {d : Date}
    {b : Int × Ohlcv} (hb : b ∈ bars hdb s d sz) : tsDate b.1 = d := by
  have hkey : ∀ {ρ : Type} (time : ρ → Int) (agg : List ρ → Ohlcv) (l : List ρ),
      (∀ r ∈ l, tsDate (time r) = d) → b ∈ Grouping.selectBy (fun r => xbar sz (time r)) agg l →
      tsDate b.1 = d := by
    intro ρ time agg l hl hmem
    rw [Grouping.selectBy_eq_map_keysOf] at hmem
    obtain ⟨k, hk, rfl⟩ := List.mem_map.mp hmem
    obtain ⟨r, hr, rfl⟩ := Grouping.mem_keysOf.mp hk
    exact (tsDate_xbar hsz hday (time r)).trans (hl r hr)
  have htrades : b ∈ barsFromTrades hdb s d sz → tsDate b.1 = d :=
    hkey Trade.time ohlcv _ (fun r hr => hown.trade d r (List.mem_of_mem_filter hr))
  unfold bars at hb
  dsimp only at hb
  split at hb
  · split at hb
    · exact hkey BarRow.time _ _ (fun r hr => hown.bar d r (List.mem_of_mem_filter hr)) hb
    · exact htrades hb
  · exact htrades hb

theorem bars_pairwise (hdb : Hdb) (s : Sym) (sz : Int) (d : Date) :
    (bars hdb s d sz).Pairwise (fun a b => a.1 < b.1) :=
  sorted_readerBars hdb s sz d _ _ rfl

/-- The bars of days in order are in order. -/
theorem flatMap_bars_pairwise (hown : OwnDates hdb) (hsz : 0 < sz) (hday : sz ∣ nsPerDay)
    {days : List Date} (hdays : days.Pairwise (· < ·)) :
    (days.flatMap (fun d => bars hdb s d sz)).Pairwise (fun a b => a.1 < b.1) := by
  rw [List.pairwise_flatMap]
  refine ⟨fun d _ => bars_pairwise hdb s sz d, hdays.imp (fun hlt a ha b hb => ?_)⟩
  rw [← tsDate_of_mem_bars hown hsz hday ha, ← tsDate_of_mem_bars hown hsz hday hb] at hlt
  by_contra hle
  -- a later start is not on an earlier day
  have hmono : tsDate b.1 ≤ tsDate a.1 := by
    unfold tsDate
    exact Int.ediv_le_ediv (by decide) (by omega)
  exact absurd hlt (not_lt.mpr hmono)

/-- Days without bars add nothing. -/
theorem flatten_frames {α β : Type} (f : α → List β) (l : List α) :
    (l.filterMap (fun a => if 0 < (f a).length then some (f a) else none)).flatten
      = l.flatMap f := by
  induction l with
  | nil => rfl
  | cons a l ih =>
      rw [List.flatMap_cons, ← ih]
      rw [List.filterMap_cons]
      by_cases ha : 0 < (f a).length
      · rw [if_pos ha, List.flatten_cons]
      · have hnil : f a = [] := List.length_eq_zero_iff.mp (by omega)
        rw [if_neg ha, hnil, List.nil_append]

/-- The bars the reader has for the days, one day after the other, when there are any. -/
theorem loadBars_eq_ok_iff {barSeconds : Int} {days : List Date} {df : List (Int × Ohlcv)} :
    loadBars (HdbReader.bars hdb s barSeconds) days = .ok df ↔ 0 < barSeconds ∧ df ≠ []
      ∧ df = days.flatMap (fun d => bars hdb s d (barSeconds * 1000000000)) := by
  by_cases hpos : 0 < barSeconds
  · have hread : ∀ d, HdbReader.bars hdb s barSeconds d
        = .ok (bars hdb s d (barSeconds * 1000000000)) := fun d => if_neg (not_le.mpr hpos)
    have hflat := flatten_frames (fun d => bars hdb s d (barSeconds * 1000000000)) days
    unfold loadBars
    simp only [hread]
    rw [← hflat]
    split
    · rename_i hnone
      rw [hnone]
      constructor
      · intro h
        split at h <;> cases h
      · rintro ⟨-, hne, rfl⟩
        exact absurd rfl hne
    · rename_i hsome
      constructor
      · intro h
        cases h
        refine ⟨hpos, fun hnil => hsome ?_, rfl⟩
        -- every frame has a bar
        rw [List.flatten_eq_nil_iff] at hnil
        refine List.eq_nil_iff_forall_not_mem.mpr (fun frame hframe => ?_)
        obtain ⟨d, -, hd⟩ := List.mem_filterMap.mp hframe
        rw [Option.ite_none_right_eq_some] at hd
        rw [Option.some_inj.mp hd.2, hnil frame hframe] at hd
        exact absurd hd.1 (lt_irrefl 0)
      · rintro ⟨-, -, rfl⟩
        rfl
  · have hread : ∀ d, HdbReader.bars hdb s barSeconds d = .error .valueError :=
      fun d => if_pos (not_lt.mp hpos)
    unfold loadBars
    simp only [hread, List.filterMap_none, if_true]
    constructor
    · intro h
      split at h <;> cases h
    · rintro ⟨hlt, -⟩
      exact absurd hlt hpos

theorem mem_days {first last d : Int} :
    d ∈ (List.range (last - first + 1).toNat).map (fun n : Nat => first + n)
      ↔ first ≤ d ∧ d ≤ last := by
  rw [mem_dayRange]
  omega

theorem windowDays_eq_ok {lo hi : Int} {days : List Date} (h : windowDays lo hi = .ok days) :
    days.Pairwise (· < ·) ∧ ∀ d, d ∈ days ↔ lo / msPerDay ≤ d ∧ d ≤ hi / msPerDay := by
  obtain ⟨first, hfirst, h⟩ := bind_eq_ok.mp h
  obtain ⟨last, hlast, h⟩ := bind_eq_ok.mp h
  cases h
  rw [← utcDate_eq_ok hfirst, ← utcDate_eq_ok hlast]
  exact ⟨dayRange_pairwise first _, fun d => mem_days⟩

/-- **The bars of a window**: of the days the window spans, trimmed, they are all the database has
between its bounds. -/
theorem mem_filterWindow (hown : OwnDates hdb) (hsz : 0 < sz) (hday : sz ∣ nsPerDay) {lo hi : Int}
    {days : List Date} (h : windowDays lo hi = .ok days) (b : Int × Ohlcv) :
    b ∈ filterWindow lo hi (days.flatMap (fun d => bars hdb s d sz))
      ↔ (∃ d, b ∈ bars hdb s d sz) ∧ lo ≤ epochMs b.1 ∧ epochMs b.1 ≤ hi := by
  rw [filterWindow, List.mem_filter, decide_eq_true_eq, List.mem_flatMap]
  refine and_congr_left (fun hwindow => ⟨?_, ?_⟩)
  · rintro ⟨d, -, hb⟩
    exact ⟨d, hb⟩
  · rintro ⟨d, hb⟩
    refine ⟨d, ((windowDays_eq_ok h).2 d).mpr ?_, hb⟩
    have hdate := tsDate_of_mem_bars hown hsz hday hb
    rw [tsDate_eq_epochMs] at hdate
    rw [← hdate]
    exact ⟨Int.ediv_le_ediv (by decide) hwindow.1, Int.ediv_le_ediv (by decide) hwindow.2⟩

end

/-! ## From the database to the page -/

section

variable {round : Nat → ℚ → ℚ} {N : Numerals} {hdb : Hdb} {args : DashboardArgs}
variable {pre post : List Char}

/-- The numbers of a page are read back: integers, rounded values, and those of the markers. -/
structure PageNumbers (round : Nat → ℚ → ℚ) (N : Numerals) (args : DashboardArgs) : Prop where
  int : ∀ k : Int, N.Reads (.rat k)
  price : ∀ q, N.Reads (.rat (round 2 q))
  vol : ∀ q, N.Reads (.rat (round 4 q))
  markers : ∀ m ∈ args.markers, AllNumbers N.Reads m

theorem allNumbers_records (h : PageNumbers round N args) (df : List (Int × Ohlcv)) :
    ∀ r ∈ ohlcvRecords round df, AllNumbers N.Reads r := by
  intro r hr
  obtain ⟨b, -, rfl⟩ := List.mem_map.mp hr
  rw [allNumbers_arr]
  simp only [List.forall_mem_cons]
  exact ⟨h.int _, h.price _, h.price _, h.price _, h.price _, h.vol _,
    fun v hv => absurd hv List.not_mem_nil⟩

theorem allNumbers_payload (h : PageNumbers round N args) (df : List (Int × Ohlcv))
    (symbol dayLabel : String) (barSeconds sma : Int) {markers : Json}
    (hm : AllNumbers N.Reads markers) (note : Option String) :
    AllNumbers N.Reads (payload (ohlcvRecords round df) symbol dayLabel barSeconds sma markers
      note) := by
  have hlength : N.Reads (.rat ((ohlcvRecords round df).length : ℚ)) := by
    have hint := h.int ((ohlcvRecords round df).length : Int)
    rwa [Int.cast_natCast] at hint
  have hmarkers : AllNumbers N.Reads (if markers.truthy then markers else .arr []) := by
    split
    · exact hm
    · exact allNumbers_arr.mpr (fun v hv => absurd hv List.not_mem_nil)
  unfold payload
  dsimp only
  rw [allNumbers_obj]
  simp only [List.forall_mem_cons, allNumbers_obj, allNumbers_arr]
  exact ⟨⟨trivial, h.int _, trivial, hlength, trivial, fun e he => absurd he List.not_mem_nil⟩,
    allNumbers_records h df, hmarkers, h.int _, fun e he => absurd he List.not_mem_nil⟩

/-- The markers of a window with the one at its centre. -/
theorem allNumbers_addMarker (h : PageNumbers round N args) {center : Int} {label : String}
    {side : Option String} {markers : Json}
    (hadd : addMarker (args.markers.getD (.arr [])) (centerMarker center label side)
      = .ok markers) : AllNumbers N.Reads markers := by
  have hcenter : AllNumbers N.Reads (centerMarker center label side) := by
    unfold centerMarker
    rw [allNumbers_obj]
    cases side with
    | none => simpa using ⟨h.int center, trivial⟩
    | some side => simpa using ⟨h.int center, trivial, trivial⟩
  have hgiven : AllNumbers N.Reads (args.markers.getD (.arr [])) := by
    cases hm : args.markers with
    | none => exact allNumbers_arr.mpr (fun v hv => absurd hv List.not_mem_nil)
    | some m => exact h.markers m (by rw [hm]; rfl)
  unfold addMarker at hadd
  split at hadd
  · rename_i l hl
    cases hadd
    rw [hl, allNumbers_arr] at hgiven
    rw [allNumbers_arr, List.forall_mem_append]
    exact ⟨hgiven, List.forall_mem_singleton.mpr hcenter⟩
  · cases hadd

/-- A payload is a dictionary. -/
theorem payload_eq_obj (records : List Json) (symbol dayLabel : String) (barSeconds sma : Int)
    (markers : Json) (note : Option String) :
    ∃ m, payload records symbol dayLabel barSeconds sma markers note = .obj m := ⟨_, rfl⟩

/-- What is asked for around an instant: its milliseconds and minute, the markers with the one at
the centre, and all bars the database has between the bounds, in order. -/
structure InWindow (hdb : Hdb) (args : DashboardArgs) (center : String) (window : Int)
    (label : String) (side : Option String) (ms : Int) (minute : String) (markers : Json)
    (df : List (Int × Ohlcv)) : Prop where
  center_ne : center ≠ ""
  center_eq : parseInstant center = .ok ms
  minute_eq : isoMin ms = .ok minute
  days : (windowDays (ms - window * 60000) (ms + window * 60000)).isOk = true
  markers_eq : addMarker (args.markers.getD (.arr [])) (centerMarker ms label side) = .ok markers
  width : 0 < args.barSeconds
  ordered : df.Pairwise (fun a b => a.1 < b.1)
  mem_iff : ∀ b, b ∈ df ↔ (∃ d, b ∈ bars hdb args.symbol d (args.barSeconds * 1000000000))
    ∧ ms - window * 60000 ≤ epochMs b.1 ∧ epochMs b.1 ≤ ms + window * 60000
  some : df ≠ []

/-- Bars in order of time are the same when they have the same members. -/
theorem eq_of_ordered {l l' : List (Int × Ohlcv)} (h : l.Pairwise (fun a b => a.1 < b.1))
    (h' : l'.Pairwise (fun a b => a.1 < b.1)) (hmem : ∀ b, b ∈ l ↔ b ∈ l') : l = l' := by
  have hnodup : ∀ {l : List (Int × Ohlcv)}, l.Pairwise (fun a b => a.1 < b.1) → l.Nodup :=
    fun h => h.imp (fun hlt heq => absurd (congrArg Prod.fst heq) hlt.ne)
  have hperm : l.Perm l' := (List.perm_ext_iff_of_nodup (hnodup h) (hnodup h')).mpr hmem
  exact hperm.eq_of_pairwise (fun a b _ _ hab hba => absurd hab (lt_asymm hba)) h h'

/-- **The page of a window.** There is one exactly when the database has a bar between the bounds
(and the arguments are in range); what it has there, in order of time, is what a script finds in
the page, and the text of the labels does not end the script. -/
theorem dashboard_window (hnum : PageNumbers round N args) (hown : OwnDates hdb)
    (hplace : OnePlace pre post) (hday : args.barSeconds * 1000000000 ∣ nsPerDay)
    {center label : String} {window : Int} {side : Option String}
    (hasked : args.asked = .around center window label side) (page : List Char) :
    dashboard round N (pre ++ (placeholder ++ post)) hdb args = .ok page
      ↔ ∃ ms minute markers df, InWindow hdb args center window label side ms minute markers df
        ∧ Embedded N pre post (payload (ohlcvRecords round df) args.symbol
          ("±" ++ toString window ++ "min · " ++ minute ++ " UTC") args.barSeconds args.sma
          markers none) page := by
  unfold dashboard
  rw [hasked]
  dsimp only
  constructor
  · intro h
    split at h
    · cases h
    · rename_i hcenter
      obtain ⟨ms, hms, h⟩ := bind_eq_ok.mp h
      obtain ⟨days, hdays, h⟩ := bind_eq_ok.mp h
      obtain ⟨markers, hmarkers, h⟩ := bind_eq_ok.mp h
      obtain ⟨df, hdf, h⟩ := bind_eq_ok.mp h
      obtain ⟨hpos, -, rfl⟩ := loadBars_eq_ok_iff.mp hdf
      have hsz : 0 < args.barSeconds * 1000000000 := by omega
      split at h
      · cases h
      · rename_i hne
        obtain ⟨minute, hminute, h⟩ := bind_eq_ok.mp h
        cases h
        have hpairs := flatMap_bars_pairwise (s := args.symbol) hown hsz hday
          (windowDays_eq_ok hdays).1
        have hok : (windowDays (ms - window * 60000) (ms + window * 60000)).isOk = true := by
          show (windowDays (windowBounds ms window).1 (windowBounds ms window).2).isOk = true
          rw [hdays]
          rfl
        refine ⟨ms, minute, markers, _, ⟨hcenter, hms, hminute, hok, hmarkers, hpos,
          hpairs.filter _, mem_filterWindow hown hsz hday hdays, hne⟩, ?_⟩
        exact embedded_renderHtml hplace (allNumbers_payload hnum _ _ _ _ _
          (allNumbers_addMarker hnum hmarkers) none)
  · rintro ⟨ms, minute, markers, df, hw, hpage⟩
    obtain ⟨days, hdays⟩ : ∃ days, windowDays (ms - window * 60000) (ms + window * 60000)
        = .ok days := by
      cases hcase : windowDays (ms - window * 60000) (ms + window * 60000) with
      | error e =>
          have hok := hw.days
          rw [hcase] at hok
          cases hok
      | ok days => exact ⟨days, rfl⟩
    have hsz : 0 < args.barSeconds * 1000000000 := by
      have hwidth := hw.width
      omega
    have hpairs := flatMap_bars_pairwise (s := args.symbol) hown hsz hday
      (windowDays_eq_ok hdays).1
    have hdf : filterWindow (ms - window * 60000) (ms + window * 60000)
        (days.flatMap (fun d => bars hdb args.symbol d (args.barSeconds * 1000000000))) = df :=
      eq_of_ordered (hpairs.filter _) hw.ordered
        (fun b => (mem_filterWindow hown hsz hday hdays b).trans (hw.mem_iff b).symm)
    have hload : loadBars (HdbReader.bars hdb args.symbol args.barSeconds) days
        = .ok (days.flatMap (fun d => bars hdb args.symbol d (args.barSeconds * 1000000000))) := by
      refine loadBars_eq_ok_iff.mpr ⟨hw.width, fun hnil => hw.some ?_, rfl⟩
      rw [← hdf, hnil]
      rfl
    have hembedded := embedded_renderHtml hplace (allNumbers_payload hnum df args.symbol
      ("±" ++ toString window ++ "min · " ++ minute ++ " UTC") args.barSeconds args.sma
      (allNumbers_addMarker hnum hw.markers_eq) none)
    subst hdf
    rw [if_neg hw.center_ne]
    refine bind_eq_ok.mpr ⟨ms, hw.center_eq, bind_eq_ok.mpr ⟨days, hdays, bind_eq_ok.mpr
      ⟨markers, hw.markers_eq, bind_eq_ok.mpr ⟨_, hload, ?_⟩⟩⟩⟩
    refine (if_neg hw.some).trans (bind_eq_ok.mpr ⟨minute, hw.minute_eq, congrArg Except.ok ?_⟩)
    exact hembedded.page_eq.trans hpage.page_eq.symm

end

/-! ### A page -/

/-- Rounding to a number of decimals, ties upwards. -/
def roundTo (dp : Nat) (q : ℚ) : ℚ := (⌊q * 10 ^ dp + 1 / 2⌋ : ℚ) / 10 ^ dp

theorem decimals_roundTo {dp : Nat} (hdp : dp ≤ 4) (q : ℚ) :
    decimals.Reads (.rat (roundTo dp q)) := by
  refine decimals_reads ?_
  have hpow : (10 : ℚ) ^ dp * 10 ^ (4 - dp) = 10000 := by
    rw [← pow_add, Nat.add_sub_cancel' hdp]
    norm_num
  have hne : (10 : ℚ) ^ dp ≠ 0 := pow_ne_zero dp (by norm_num)
  have hint : roundTo dp q * 10000
      = ((⌊q * 10 ^ dp + 1 / 2⌋ * 10 ^ (4 - dp) : Int) : ℚ) := by
    rw [roundTo, ← hpow]
    push_cast
    field_simp
  rw [hint]
  exact Rat.den_intCast _

theorem decimals_int (k : Int) : decimals.Reads (.rat k) := by
  refine decimals_reads ?_
  have hint : (k : ℚ) * 10000 = ((k * 10000 : Int) : ℚ) := by push_cast; rfl
  rw [hint]
  exact Rat.den_intCast _

def scriptStart : List Char := "<script>const PAYLOAD = ".toList

def scriptEnd : List Char := ";</script>".toList

/-- One trade, on 2026-08-18 at 10:29. -/
def oneTrade : Hdb :=
  { Hdb.empty with trade := Parts.save 20683 [⟨ms2ts 1787048940000, "BTCUSDT", "binance", 1,
      201 / 2, 3 / 2, ms2ts 1787048940000, false⟩] ∅ }

/-- The half hours around 10:30, with an awkward label. -/
def halfPastTen : DashboardArgs where
  symbol := "BTCUSDT"
  asked := .around "2026-08-18 10:30" 30 "</script>" (some "buy")
  barSeconds := 60
  sma := 14
  markers := none

theorem ownDates_oneTrade : OwnDates oneTrade where
  trade d r hr := by
    by_cases hd : d = 20683
    · subst hd
      rw [oneTrade, Parts.rowsAt_save_self, List.mem_singleton] at hr
      subst hr
      decide +kernel
    · rw [oneTrade, Parts.rowsAt_save_ne hd, Parts.rowsAt_empty] at hr
      exact absurd hr List.not_mem_nil
  bar d r hr := by
    rw [show oneTrade.bar = ∅ from rfl, Parts.rowsAt_empty] at hr
    exact absurd hr List.not_mem_nil

theorem dashboard_window_half_past_ten : ∃ page ms minute markers df,
    dashboard roundTo decimals (scriptStart ++ (placeholder ++ scriptEnd)) oneTrade halfPastTen
        = .ok page
      ∧ InWindow oneTrade halfPastTen "2026-08-18 10:30" 30 "</script>" (some "buy") ms minute
        markers df
      ∧ Embedded decimals scriptStart scriptEnd (payload (ohlcvRecords roundTo df) "BTCUSDT"
        ("±" ++ toString (30 : Int) ++ "min · " ++ minute ++ " UTC") 60 14 markers none) page := by
  have hok : (dashboard roundTo decimals (scriptStart ++ (placeholder ++ scriptEnd)) oneTrade
      halfPastTen).isOk = true := by decide +kernel
  have hnum : PageNumbers roundTo decimals halfPastTen :=
    ⟨decimals_int, decimals_roundTo (by decide), decimals_roundTo (by decide),
      fun m hm => absurd hm (by simp [halfPastTen])⟩
  have hplace : OnePlace scriptStart scriptEnd := ⟨by decide +kernel, by decide +kernel⟩
  have hday : halfPastTen.barSeconds * 1000000000 ∣ nsPerDay := by decide +kernel
  have hpage := dashboard_window hnum ownDates_oneTrade hplace hday rfl
  cases hcase : dashboard roundTo decimals (scriptStart ++ (placeholder ++ scriptEnd)) oneTrade
      halfPastTen with
  | error e =>
      rw [hcase] at hok
      cases hok
  | ok page =>
      obtain ⟨ms, minute, markers, df, hwindow, hembedded⟩ := (hpage page).mp hcase
      exact ⟨page, ms, minute, markers, df, rfl, hwindow, hembedded⟩

end NanoTick
