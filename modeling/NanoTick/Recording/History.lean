import NanoTick.Basic.Decimals
import NanoTick.Basic.Dedup
import NanoTick.Basic.JsonLines
import NanoTick.Recording.OnMessage
import Mathlib.Tactic

set_option autoImplicit false

/-! # The recorded history

The recorder as a service: ticks arrive at least once and among malformed payloads, buffers spill
or are flushed, closed files are compressed in the background. `history_readable`: on a disk that
does not fail, and for a feed whose ids and times ascend for each file, the files of every venue,
symbol and date hold each tick once and in order, one line of JSON a tick; what a power cut can
take is the end of a file.

That a file is closed only once, which the recorder does not check, comes from the times: the open
file of a key has its latest date (`Sound.latest`), the closed ones have earlier dates.
-/

namespace NanoTick

open Python Runs JsonText

/-! ## What a tick does to the files -/

namespace Recorder

section

variable {s s' : Recorder} {dumps : Tick → Bytes} {names : Names} {t : Tick} {d : Date}

theorem record_eq (hday : utcDate t.tradeTs = .ok d) : s.record dumps names t
    = ((s.fileFor names (keyOf names t) d).write (keyOf names t) (dumps t ++ [10])).note
      (pathOf names t d) (dumps t ++ [10]) := by
  unfold record
  rw [hday]

/-- **A tick** adds one line to its file, and closes the open file of its key if that is another. -/
theorem record_spec (hday : utcDate t.tradeTs = .ok d)
    (hdirectory : ∀ h, s.openFiles (keyOf names t) = some h →
      h.path.1 = names.directory (keyOf names t)) :
    (s.record dumps names t).recorded = Function.update s.recorded (pathOf names t d)
        (s.recorded (pathOf names t d) ++ [dumps t ++ [10]])
      ∧ (∃ h, (s.record dumps names t).openFiles (keyOf names t) = some h
        ∧ h.path = pathOf names t d)
      ∧ (s.record dumps names t).closed = s.closed
        ++ (((s.openFiles (keyOf names t)).filter (fun h => decide (h.path.2 ≠ d))).map
          Handle.path).toList := by
  have hopened : ∀ f : Recorder, ∃ h, (f.openFile (keyOf names t) (pathOf names t d)).openFiles
      (keyOf names t) = some h ∧ h.path = pathOf names t d := by
    intro f
    obtain ⟨file, hopen⟩ := f.openFiles_openFile (keyOf names t) (pathOf names t d)
    exact ⟨_, (congrFun hopen _).trans (Function.update_self _ _ _), rfl⟩
  have hfile : (s.fileFor names (keyOf names t) d).recorded = s.recorded
      ∧ (∃ h, (s.fileFor names (keyOf names t) d).openFiles (keyOf names t) = some h
        ∧ h.path = pathOf names t d)
      ∧ (s.fileFor names (keyOf names t) d).closed = s.closed
        ++ (((s.openFiles (keyOf names t)).filter (fun h => decide (h.path.2 ≠ d))).map
          Handle.path).toList := by
    unfold fileFor
    cases hopen : s.openFiles (keyOf names t) with
    | none =>
        refine ⟨recorded_openFile _ _, hopened s, ?_⟩
        rw [closed, jobs_openFile]
        exact (List.append_nil _).symm
    | some h =>
        dsimp only
        by_cases hdate : h.path.2 = d
        · rw [if_pos hdate, Option.filter_some, if_neg (by simpa using hdate)]
          refine ⟨rfl, ⟨h, hopen, ?_⟩, (List.append_nil _).symm⟩
          exact Prod.ext (hdirectory h hopen) hdate
        · rw [if_neg hdate, Option.filter_some, if_pos (by simpa using hdate)]
          refine ⟨recorded_openFile _ _, hopened _, ?_⟩
          rw [closed, jobs_openFile]
          exact List.map_append
  obtain ⟨hrecorded, ⟨h, hopen, hpath⟩, hclosed⟩ := hfile
  rw [record_eq hday]
  have hwrite : ∀ line, (s.fileFor names (keyOf names t) d).write (keyOf names t) line
      = { s.fileFor names (keyOf names t) d with
          openFiles := Function.update (s.fileFor names (keyOf names t) d).openFiles (keyOf names t)
            (some { h with pending := h.pending ++ line }) } := by
    intro line
    unfold write
    rw [hopen]
  rw [hwrite]
  refine ⟨?_, ⟨_, Function.update_self _ _ _, hpath⟩, hclosed⟩
  show Function.update (s.fileFor names (keyOf names t) d).recorded _ _ = _
  rw [hrecorded]

/-- The open files keep their paths, the closed files and the lines are the same. -/
structure SameLines (s s' : Recorder) : Prop where
  paths : ∀ key, (s'.openFiles key).map Handle.path = (s.openFiles key).map Handle.path
  closed : s'.closed = s.closed
  recorded : s'.recorded = s.recorded

theorem sameLines_spill (key : FileKey) (n : Nat) : SameLines s (s.spill key n) := by
  unfold spill
  cases hopen : s.openFiles key with
  | none => exact ⟨fun _ => rfl, rfl, rfl⟩
  | some h =>
      refine ⟨fun key' => ?_, rfl, rfl⟩
      by_cases hkey : key' = key
      · subst hkey
        dsimp only
        rw [Function.update_self, hopen]
        rfl
      · dsimp only
        rw [Function.update_of_ne hkey]

theorem sameLines_flushFile (key : FileKey) : SameLines s (s.flushFile key) := by
  unfold flushFile
  split
  · exact sameLines_spill key _
  · exact ⟨fun _ => rfl, rfl, rfl⟩

theorem sameLines_gzipStep {i n : Nat} (hs : s.gzipStep i n = some s') : SameLines s s' := by
  have hopen : s'.openFiles = s.openFiles := openFiles_gzipStep hs
  suffices hrest : s'.closed = s.closed ∧ s'.recorded = s.recorded from
    ⟨fun key => by rw [hopen], hrest.1, hrest.2⟩
  unfold gzipStep at hs
  cases hjob : s.jobs[i]? with
  | none =>
      rw [hjob] at hs
      cases hs
  | some job =>
      rw [hjob] at hs
      dsimp only at hs
      split at hs
      · split at hs
        · cases hs
          exact ⟨closed_set hjob _, rfl⟩
        · cases hs
          exact ⟨closed_set hjob _, rfl⟩
      · split at hs
        · split at hs
          · cases hs
          · cases hs
            exact ⟨closed_set hjob _, rfl⟩
        · cases hs
          exact ⟨closed_set hjob _, rfl⟩
      · cases hs
        exact ⟨closed_set hjob _, rfl⟩
      · cases hs

/-- The text of a path on the disk: the compressed part, then the plain one. -/
def disk (s : Recorder) (p : DayPath) : Bytes := s.gzText p ++ s.plainText p

/-- **What is on the disk** while a path is not being compressed: the lines recorded for it, up to
what its handle still holds. -/
theorem Inv.disk_prefix (hi : Inv names s) {p : DayPath} (hidle : s.Idle p) :
    s.disk p <+: s.text p := by
  by_cases hopen : s.IsOpen p
  · obtain ⟨key, h, hopen, rfl⟩ := hopen
    have hh := hi.opened key h hopen
    obtain ⟨zipped, lines, hrecorded, hzipped, hlines⟩ := hh.complete
    refine ⟨h.pending, ?_⟩
    rw [disk, plainText, hh.file_eq, text, hrecorded, List.flatten_append, hzipped, ← hlines]
    exact List.append_assoc _ _ _
  · obtain ⟨hplain, hgz⟩ := hi.at_rest p hopen hidle
    rw [disk, plainText, hplain, hgz]
    exact ⟨[], by simp⟩

/-- In a settled state it is all of them. -/
theorem Inv.disk_eq (hi : Inv names s) (hsettled : s.Settled) (p : DayPath) :
    s.disk p = s.text p := by
  by_cases hopen : s.IsOpen p
  · obtain ⟨key, h, hopen, rfl⟩ := hopen
    have hh := hi.opened key h hopen
    obtain ⟨zipped, lines, hrecorded, hzipped, hlines⟩ := hh.complete
    rw [hsettled.2 _ h hopen, List.append_nil] at hlines
    rw [disk, plainText, hh.file_eq, text, hrecorded, List.flatten_append, hzipped, ← hlines]
    rfl
  · obtain ⟨hplain, hgz⟩ := hi.at_rest p hopen (fun job hjob _ => hsettled.1 job hjob)
    rw [disk, plainText, hplain, hgz]
    exact List.append_nil _

end

end Recorder

/-! ## The service -/

namespace RecorderState

/-- What happens to the recorder: a tick is delivered or a malformed payload, a buffer is written
out in part or flushed, a background thread makes its next call. -/
inductive Event where
  | delivered (t : Tick)
  | malformed (payload : Bytes)
  | spill (key : FileKey) (n : Nat)
  | flush (key : FileKey)
  | gzip (i n : Nat)

/-- The recorder and the ticks delivered so far. -/
structure History where
  state : RecorderState
  delivered : List Tick

namespace History

def start : History := ⟨RecorderState.init, []⟩

/-- The state with other files. -/
def withFiles (h : History) (f : Recorder) : History :=
  { h with state := { h.state with files := f } }

/-- One event, on a disk that does not fail. -/
def step (N : Numerals) (r : Reading) (h : History) : Event → Option History
  | .delivered t => some ⟨(onMessage r .nil (dumps N t.json) h.state).2, h.delivered ++ [t]⟩
  | .malformed payload => some { h with state := (onMessage r .nil payload h.state).2 }
  | .spill key n => some (h.withFiles (h.state.files.spill key n))
  | .flush key => some (h.withFiles (h.state.files.flushFile key))
  | .gzip i n => (h.state.files.gzipStep i n).map h.withFiles

end History

/-- The library that the recorder calls. -/
structure Wired (N : Numerals) (r : Reading) : Prop where
  loads : r.loads = loadsBytes N
  dumps : ∀ v, r.dumps v = .ok (JsonText.dumps N v)
  utcDay : ∀ ts : Int, r.utcDay (.rat ts) = utcDate ts

/-- What the ticks of the feed are: their numbers survive as text, their times have dates, of each
venue and symbol the ids come first in ascending order, of each file the times do, and the files of
different keys are different. -/
structure Feed (N : Numerals) (names : Names) (ticks : List Tick) : Prop where
  readable : ∀ t ∈ ticks, AllNumbers N.Reads t.json
  dated : ∀ t ∈ ticks, ∃ d, utcDate t.tradeTs = .ok d
  nonneg : ∀ t ∈ ticks, 0 ≤ t.tradeId
  ascending : ticks.eraseDups.Pairwise
    (fun a b => (a.venue, a.symbol) = (b.venue, b.symbol) → a.tradeId < b.tradeId)
  chronological : ticks.eraseDups.Pairwise
    (fun a b => Recorder.keyOf names a = Recorder.keyOf names b → a.tradeTs ≤ b.tradeTs)
  apart : ∀ a ∈ ticks, ∀ b ∈ ticks,
    names.directory (Recorder.keyOf names a) = names.directory (Recorder.keyOf names b) →
      Recorder.keyOf names a = Recorder.keyOf names b

/-- The date of a tick. -/
def dateOf (t : Tick) : Date := t.tradeTs / msPerDay

/-- The path of a tick. -/
def dayPath (names : Names) (t : Tick) : DayPath := Recorder.pathOf names t (dateOf t)

/-- The different ticks of a path, each where it comes first. -/
def ticksAt (names : Names) (ticks : List Tick) (p : DayPath) : List Tick :=
  ticks.eraseDups.filter (fun t => decide (dayPath names t = p))

/-- The line of a tick. -/
def lineOf (N : Numerals) (t : Tick) : Bytes := dumps N t.json ++ [10]

/-- The floors of the ticks delivered. -/
def floors (ticks : List Tick) : String × String → Option Int :=
  Dedup.floorAfter (fun t : Tick => (t.venue, t.symbol)) Tick.tradeId (fun _ => none) ticks

/-- The state of the recorder after the ticks delivered. -/
structure Sound (N : Numerals) (names : Names) (h : History) : Prop where
  readable : ∀ t ∈ h.delivered, AllNumbers N.Reads t.json
  inv : h.state.files.Inv names
  allOpen : ∀ key, h.state.closed key = false
  floor : ∀ venue symbol, h.state.lastTradeId (.str venue, .str symbol)
    = (floors h.delivered (venue, symbol)).map (fun k : Int => .rat k)
  received : h.state.received = h.delivered.eraseDups.length
  counted : h.state.received + h.state.duplicates = h.delivered.length
  recorded : ∀ p, h.state.files.recorded p = (ticksAt names h.delivered p).map (lineOf N)
  latest : ∀ key hd, h.state.files.openFiles key = some hd →
    (∃ t ∈ h.delivered, Recorder.keyOf names t = key ∧ dayPath names t = hd.path)
    ∧ ∀ p ∈ h.state.files.closed, p.1 = hd.path.1 → p.2 < hd.path.2
  closedOpen : ∀ p ∈ h.state.files.closed,
    ∃ key hd, h.state.files.openFiles key = some hd ∧ hd.path.1 = p.1

section

variable {N : Numerals} {r : Reading} {h : History} {t : Tick}

theorem sound_start : Sound N r.names History.start where
  readable := fun _ ht => absurd ht List.not_mem_nil
  inv := Recorder.inv_init
  allOpen := fun _ => rfl
  floor := fun _ _ => rfl
  received := rfl
  counted := rfl
  recorded := fun _ => rfl
  latest := fun _ _ hopen => by cases hopen
  closedOpen := fun _ hp => absurd hp List.not_mem_nil

/-- What leaves the lines alone. -/
theorem Sound.sameLines (hs : Sound N r.names h) {f : Recorder} (hinv : f.Inv r.names)
    (hsame : Recorder.SameLines h.state.files f) : Sound N r.names (h.withFiles f) where
  readable := hs.readable
  inv := hinv
  allOpen := hs.allOpen
  floor := hs.floor
  received := hs.received
  counted := hs.counted
  recorded := fun p => (congrFun hsame.recorded p).trans (hs.recorded p)
  latest := by
    intro key hd hopen
    have hpath := hsame.paths key
    have hopen : f.openFiles key = some hd := hopen
    rw [hopen, Option.map_some] at hpath
    obtain ⟨hd', hopen', heq⟩ := Option.map_eq_some_iff.mp hpath.symm
    obtain ⟨hlatest, hclosed⟩ := hs.latest key hd' hopen'
    rw [← heq]
    refine ⟨hlatest, fun p hp => hclosed p ?_⟩
    rw [← hsame.closed]
    exact hp
  closedOpen := by
    intro p hp
    have hp : p ∈ f.closed := hp
    rw [hsame.closed] at hp
    obtain ⟨key, hd, hopen, hdirectory⟩ := hs.closedOpen p hp
    have hpath := hsame.paths key
    rw [hopen, Option.map_some] at hpath
    obtain ⟨hd', hopen', heq⟩ := Option.map_eq_some_iff.mp hpath
    exact ⟨key, hd', hopen', by rw [heq, hdirectory]⟩

theorem floors_concat (ticks : List Tick) (t : Tick) : floors (ticks ++ [t])
    = Function.update (floors ticks) (t.venue, t.symbol)
      (Dedup.raise (floors ticks (t.venue, t.symbol)) t.tradeId) :=
  Dedup.floorAfter_concat _ _ _

/-- The payload of a tick has its key and its id. -/
theorem keyed_tick (hw : Wired N r) (hread : AllNumbers N.Reads t.json) :
    Keyed r (dumps N t.json) t.json (.str t.venue, .str t.symbol) (.rat t.tradeId) where
  loads := by
    rw [hw.loads]
    exact loadsBytes_dumps hread
  venue := ⟨.str t.venue, rfl, rfl⟩
  symbol := ⟨.str t.symbol, rfl, rfl⟩
  tradeId := ⟨.num (.rat t.tradeId), rfl, rfl⟩

theorem not_lost_str (v s : String) : ¬Lost (.str v, .str s) := by
  rintro (h | h) <;> cases h

/-- The comparison of an id with a floor. -/
theorem le_floor {floor : Option Int} {id : Int} (hid : 0 ≤ id) :
    PyNum.le (.rat id) ((floor.map (fun k : Int => .rat k)).getD (.rat (-1)))
      = !Dedup.isAbove floor id := by
  cases floor with
  | none =>
      have hnot : ¬((id : ℚ) ≤ -1) := by
        rw [not_le]
        exact_mod_cast (show (-1 : Int) < id by omega)
      simp [PyNum.le, hnot]
  | some k => simp [PyNum.le, Dedup.isAbove, ← decide_not]

theorem le_lastOf (hs : Sound N r.names h) (hid : 0 ≤ t.tradeId) :
    PyNum.le (.rat t.tradeId) (h.state.lastOf (.str t.venue, .str t.symbol))
      = !Dedup.isAbove (floors h.delivered (t.venue, t.symbol)) t.tradeId := by
  have hlast : h.state.lastOf (.str t.venue, .str t.symbol)
      = ((floors h.delivered (t.venue, t.symbol)).map (fun k : Int => .rat k)).getD
        (.rat (-1)) := by
    rw [lastOf, if_neg (not_lost_str _ _), hs.floor]
  rw [hlast]
  exact le_floor hid

/-- **A tick delivered again** is counted. -/
theorem sound_again (hw : Wired N r) (hs : Sound N r.names h) (hread : AllNumbers N.Reads t.json)
    (hid : 0 ≤ t.tradeId) (hmem : t ∈ h.delivered)
    (habove : Dedup.isAbove (floors h.delivered (t.venue, t.symbol)) t.tradeId = false) :
    Sound N r.names ⟨(onMessage r .nil (dumps N t.json) h.state).2, h.delivered ++ [t]⟩ := by
  have hdistinct : (h.delivered ++ [t]).eraseDups = h.delivered.eraseDups := by
    rw [Dedup.eraseDups_concat, if_pos hmem]
  have hstate : (onMessage r .nil (dumps N t.json) h.state).2
      = { h.state with duplicates := h.state.duplicates + 1 } := by
    have hle : PyNum.le (.rat t.tradeId) (h.state.lastOf (.str t.venue, .str t.symbol)) = true := by
      rw [le_lastOf hs hid, habove]
      rfl
    rw [onMessage_of_keyed (keyed_tick hw hread), take, if_pos hle]
  rw [hstate]
  refine ⟨fun t' ht' => ?_, hs.inv, hs.allOpen, fun v s => ?_, ?_, ?_, fun p => ?_,
    fun key hd hopen => ?_, hs.closedOpen⟩
  · rcases List.mem_append.mp ht' with ht' | ht'
    · exact hs.readable t' ht'
    · rwa [List.mem_singleton.mp ht']
  · rw [floors_concat, Dedup.raise_of_not_above habove, Function.update_eq_self]
    exact hs.floor v s
  · rw [hdistinct]
    exact hs.received
  · have hcounted := hs.counted
    rw [List.length_append, List.length_singleton]
    dsimp only
    omega
  · rw [ticksAt, hdistinct]
    exact hs.recorded p
  · obtain ⟨⟨t', ht', hpath⟩, hclosed⟩ := hs.latest key hd hopen
    exact ⟨⟨t', List.mem_append_left _ ht', hpath⟩, hclosed⟩

/-- `_file_for` leaves every handle open when it finds them so. -/
theorem ready_open {s : RecorderState} (hopen : ∀ key, s.closed key = false) (names : Names)
    (day : DayKey) (key : FileKey) : (s.ready names day).closed key = false := by
  unfold ready
  cases s.files.openFiles day.1 with
  | none =>
      by_cases hkey : key = day.1
      · subst hkey
        exact enter_closed
      · exact (Function.update_of_ne hkey _ _).trans (hopen key)
  | some hd =>
      dsimp only
      split
      · exact hopen key
      · by_cases hkey : key = day.1
        · subst hkey
          exact enter_closed
        · rw [if_neg (Bool.eq_false_iff.mp (hopen day.1))]
          refine (Function.update_of_ne hkey _ _).trans ?_
          exact (Function.update_of_ne hkey _ _).trans (hopen key)

/-- A tick with a date is recorded where every handle is open, and nothing else happens. -/
theorem record_wired (hw : Wired N r) {s : RecorderState} (hopen : ∀ key, s.closed key = false)
    {d : Date} (hday : utcDate t.tradeTs = .ok d) :
    ∃ s', record r .nil t.json s = (.ok (), s')
      ∧ s'.files = s.files.record (fun t => dumps N t.json) r.names t
      ∧ (∀ key, s'.closed key = false) ∧ others s' = others s := by
  obtain ⟨hhandle, hwrite⟩ := errors_nil (Recorder.keyOf r.names t, d) (hopen _)
  have hr : Recordable r .nil s t.json (Recorder.keyOf r.names t, d) (dumps N t.json) :=
    { date := ⟨_, _, rfl, rfl, (hw.utcDay _).trans hday⟩
      venue := rfl
      symbol := ⟨t.symbol, rfl, rfl⟩
      text := hw.dumps _
      handle := hhandle
      write := hwrite }
  have hrecord := record_of_recordable hr
  have hfiles : (record r .nil t.json s).2.files
      = s.files.record (fun t => dumps N t.json) r.names t :=
    record_files (hw.utcDay t.tradeTs) (hw.dumps t.json) (hopen _)
  have hothers : others (record r .nil t.json s).2 = others s := keeps_record s
  rw [hrecord] at hfiles hothers
  exact ⟨_, hrecord, hfiles, ready_open hopen r.names _, hothers⟩

/-- A new tick with a date is recorded, counted and made the floor. -/
theorem onMessage_new (hw : Wired N r) (hs : Sound N r.names h)
    (hread : AllNumbers N.Reads t.json) (hid : 0 ≤ t.tradeId)
    (hday : ∃ d, utcDate t.tradeTs = .ok d)
    (habove : Dedup.isAbove (floors h.delivered (t.venue, t.symbol)) t.tradeId = true) :
    ∃ s', (onMessage r .nil (dumps N t.json) h.state).2 = s'
      ∧ s'.files = h.state.files.record (fun t => dumps N t.json) r.names t
      ∧ (∀ key, s'.closed key = false)
      ∧ s'.lastTradeId = Function.update h.state.lastTradeId (.str t.venue, .str t.symbol)
        (some (.rat t.tradeId))
      ∧ s'.received = h.state.received + 1 ∧ s'.duplicates = h.state.duplicates := by
  obtain ⟨d, hday⟩ := hday
  -- the floor is set before the tick is recorded
  let s₀ : RecorderState := { h.state with
    lastTradeId := Function.update h.state.lastTradeId (.str t.venue, .str t.symbol)
      (some (.rat t.tradeId)) }
  have hset : h.state.setLast (.str t.venue, .str t.symbol) (.rat t.tradeId) = s₀ :=
    if_neg (not_lost_str _ _)
  have hopen : ∀ key, s₀.closed key = false := hs.allOpen
  obtain ⟨s₁, hrecord, hfiles, hclosed, hothers⟩ := record_wired hw hopen hday
  have hle : ¬PyNum.le (.rat t.tradeId) (h.state.lastOf (.str t.venue, .str t.symbol)) = true := by
    rw [le_lastOf hs hid, habove]
    exact Bool.false_ne_true
  have hstate : (onMessage r .nil (dumps N t.json) h.state).2
      = { s₁ with received := s₁.received + 1 } := by
    rw [onMessage_of_keyed (keyed_tick hw hread), take, if_neg hle, hset, hrecord]
  refine ⟨_, hstate, hfiles, hclosed, ?_, ?_, ?_⟩
  · exact congrArg (fun o => o.1) hothers
  · exact congrArg (fun o => o.2.1 + 1) hothers
  · exact congrArg (fun o => o.2.2) hothers

theorem ticksAt_concat {names : Names} {ticks : List Tick} (hnew : t ∉ ticks)
    (p : DayPath) : ticksAt names (ticks ++ [t]) p
      = ticksAt names ticks p ++ if dayPath names t = p then [t] else [] := by
  rw [ticksAt, Dedup.eraseDups_concat, if_neg hnew, List.filter_append]
  by_cases hp : dayPath names t = p
  · rw [if_pos hp, List.filter_cons, if_pos (decide_eq_true hp)]
    rfl
  · rw [if_neg hp, List.filter_cons_of_neg (by simpa using hp)]
    rfl

/-- A part of the feed from its start is a feed. -/
theorem Feed.take {names : Names} {ticks rest : List Tick}
    (hf : Feed N names (ticks ++ rest)) : Feed N names ticks where
  readable := fun t ht => hf.readable t (List.mem_append_left _ ht)
  dated := fun t ht => hf.dated t (List.mem_append_left _ ht)
  nonneg := fun t ht => hf.nonneg t (List.mem_append_left _ ht)
  ascending := by
    have hall := hf.ascending
    rw [List.eraseDups_append] at hall
    exact (List.pairwise_append.mp hall).1
  chronological := by
    have hall := hf.chronological
    rw [List.eraseDups_append] at hall
    exact (List.pairwise_append.mp hall).1
  apart := fun a ha b hb => hf.apart a (List.mem_append_left _ ha) b (List.mem_append_left _ hb)

/-- A new tick is not dated before the others of its file. -/
theorem Feed.date_le {names : Names} {ticks : List Tick}
    (hf : Feed N names (ticks ++ [t])) (hnew : t ∉ ticks) {t' : Tick} (ht' : t' ∈ ticks)
    (hkey : Recorder.keyOf names t' = Recorder.keyOf names t) : (dateOf t' : Int) ≤ dateOf t := by
  have hall := hf.chronological
  rw [Dedup.eraseDups_concat, if_neg hnew] at hall
  have hle : t'.tradeTs ≤ t.tradeTs := (List.pairwise_append.mp hall).2.2 t'
    (List.mem_eraseDups.mpr ht') t (List.mem_singleton_self t) hkey
  exact Int.ediv_le_ediv (by decide) hle

/-- The handle of a directory is that of the key of its ticks. -/
theorem Sound.key_eq (hs : Sound N r.names h) (hf : Feed N r.names (h.delivered ++ [t]))
    {key : FileKey} {hd : Handle} (hopen : h.state.files.openFiles key = some hd)
    (hdirectory : hd.path.1 = r.names.directory (Recorder.keyOf r.names t)) :
    key = Recorder.keyOf r.names t := by
  obtain ⟨⟨t', ht', rfl, hpath⟩, -⟩ := hs.latest key hd hopen
  rw [← hpath] at hdirectory
  exact hf.apart t' (List.mem_append_left _ ht') t
    (List.mem_append_right _ (List.mem_singleton_self t)) hdirectory

/-- The open file of a key is not dated after a new tick. -/
theorem Sound.open_le (hs : Sound N r.names h) (hf : Feed N r.names (h.delivered ++ [t]))
    (hnew : t ∉ h.delivered) {hd : Handle}
    (hopen : h.state.files.openFiles (Recorder.keyOf r.names t) = some hd) :
    (hd.path.2 : Int) ≤ dateOf t := by
  obtain ⟨⟨t', ht', hkey, hpath⟩, -⟩ := hs.latest _ hd hopen
  rw [← hpath]
  exact hf.date_le hnew ht' hkey

/-- The closed files of a directory are dated before a new tick. -/
theorem Sound.closed_lt (hs : Sound N r.names h) (hf : Feed N r.names (h.delivered ++ [t]))
    (hnew : t ∉ h.delivered) {p : DayPath} (hp : p ∈ h.state.files.closed)
    (hdirectory : p.1 = r.names.directory (Recorder.keyOf r.names t)) :
    (p.2 : Int) < dateOf t := by
  obtain ⟨key, hd, hopen, hpath⟩ := hs.closedOpen p hp
  obtain rfl := hs.key_eq hf hopen (hpath.trans hdirectory)
  exact lt_of_lt_of_le ((hs.latest _ hd hopen).2 p hp hpath.symm) (hs.open_le hf hnew hopen)

/-- A new tick closes no file twice, is recorded into no file that was closed, and shares its file
with no other key. -/
theorem Sound.orderly (hs : Sound N r.names h) (hf : Feed N r.names (h.delivered ++ [t]))
    (hnew : t ∉ h.delivered) : Recorder.Orderly r.names h.state.files (.record t) := by
  have hdateOf : ∀ date ∈ (utcDate t.tradeTs).toOption, date = dateOf t := by
    intro date hdate
    cases hutc : utcDate t.tradeTs with
    | error e =>
        rw [hutc] at hdate
        cases hdate
    | ok d =>
        rw [hutc] at hdate
        cases hdate
        exact utcDate_eq_ok hutc
  refine ⟨fun date hdate => ?_, fun date hdate key hd hopen hpath => ?_⟩
  · obtain rfl := hdateOf date hdate
    constructor
    · intro hd hopen _ hclosed
      exact lt_irrefl _ ((hs.latest _ hd hopen).2 hd.path hclosed rfl)
    · intro job hjob hpath
      have hlt := hs.closed_lt hf hnew (List.mem_map_of_mem hjob) (congrArg Prod.fst hpath)
      rw [hpath] at hlt
      exact absurd hlt (lt_irrefl _)
  · exact hs.key_eq hf hopen (congrArg Prod.fst hpath)

/-- **A new tick** is one line more, in the file of its date. -/
theorem sound_new (hw : Wired N r) (hs : Sound N r.names h)
    (hf : Feed N r.names (h.delivered ++ [t])) (hnew : t ∉ h.delivered)
    (habove : Dedup.isAbove (floors h.delivered (t.venue, t.symbol)) t.tradeId = true) :
    Sound N r.names ⟨(onMessage r .nil (dumps N t.json) h.state).2, h.delivered ++ [t]⟩ := by
  have hlast : t ∈ h.delivered ++ [t] := List.mem_append_right _ (List.mem_singleton_self t)
  obtain ⟨d, hday⟩ := hf.dated t hlast
  obtain rfl : d = dateOf t := utcDate_eq_ok hday
  obtain ⟨s', hs', hfiles, hallOpen, hfloor, hreceived, hduplicates⟩ :=
    onMessage_new hw hs (hf.readable t hlast) (hf.nonneg t hlast) ⟨_, hday⟩ habove
  have hinv : s'.files.Inv r.names := by
    rw [hfiles]
    exact Recorder.inv_record hs.inv (hs.orderly hf hnew)
  obtain ⟨hrecorded, ⟨hd, hopen, hpath⟩, hclosed⟩ :=
    @Recorder.record_spec h.state.files (fun t => dumps N t.json) r.names t _ hday
      (fun hd hopen => (hs.inv.opened _ hd hopen).directory)
  rw [← hfiles] at hrecorded hopen hclosed
  have hothers : ∀ key, key ≠ Recorder.keyOf r.names t →
      s'.files.openFiles key = h.state.files.openFiles key := by
    intro key hkey
    rw [hfiles]
    exact Recorder.openFiles_step_of_ne (a := .record t) rfl
      (fun heq => hkey (Option.some.inj heq).symm)
  -- what is closed now was closed before, or is the open file of another date
  have hcases : ∀ p ∈ s'.files.closed, p ∈ h.state.files.closed
      ∨ p.1 = r.names.directory (Recorder.keyOf r.names t) ∧ (p.2 : Int) < dateOf t := by
    intro p hp
    rw [hclosed] at hp
    rcases List.mem_append.mp hp with hp | hp
    · exact Or.inl hp
    · rw [Option.mem_toList, Option.map_eq_some_iff] at hp
      obtain ⟨hd', hfilter, rfl⟩ := hp
      obtain ⟨hopen', hdate⟩ := Option.filter_eq_some_iff.mp hfilter
      refine Or.inr ⟨(hs.inv.opened _ hd' hopen').directory, ?_⟩
      exact lt_of_le_of_ne (hs.open_le hf hnew hopen') (of_decide_eq_true hdate)
  have hdistinct : (h.delivered ++ [t]).eraseDups = h.delivered.eraseDups ++ [t] := by
    rw [Dedup.eraseDups_concat, if_neg hnew]
  rw [hs']
  constructor
  case readable => exact hf.readable
  case inv => exact hinv
  case allOpen => exact hallOpen
  case floor =>
    intro venue symbol
    show s'.lastTradeId _ = _
    rw [hfloor, floors_concat, Dedup.raise_of_above habove]
    by_cases hkey : (venue, symbol) = (t.venue, t.symbol)
    · obtain ⟨rfl, rfl⟩ := Prod.mk.inj hkey
      rw [Function.update_self, Function.update_self]
      rfl
    · rw [Function.update_of_ne hkey, Function.update_of_ne]
      · exact hs.floor venue symbol
      · intro heq
        obtain ⟨hv, hsym⟩ := Prod.mk.inj heq
        cases hv
        cases hsym
        exact hkey rfl
  case received =>
    show s'.received = _
    rw [hreceived, hs.received, hdistinct, List.length_append]
    rfl
  case counted =>
    show s'.received + s'.duplicates = _
    have hcounted := hs.counted
    rw [hreceived, hduplicates, List.length_append, List.length_singleton]
    omega
  case recorded =>
    intro p
    show s'.files.recorded p = _
    rw [hrecorded, ticksAt_concat hnew]
    by_cases hp : dayPath r.names t = p
    · subst hp
      rw [if_pos rfl, List.map_append, ← hs.recorded]
      exact Function.update_self _ _ _
    · rw [if_neg hp, List.append_nil, ← hs.recorded]
      exact Function.update_of_ne (Ne.symm hp) _ _
  case latest =>
    -- the handle of the tick's key is at the tick's path, the others are as they were
    intro key hd' hopen'
    have hopen' : s'.files.openFiles key = some hd' := hopen'
    by_cases hkey : key = Recorder.keyOf r.names t
    · subst hkey
      rw [hopen] at hopen'
      cases hopen'
      refine ⟨⟨t, hlast, rfl, hpath.symm⟩, fun p hp hdirectory => ?_⟩
      rw [hpath] at hdirectory ⊢
      rcases hcases p hp with hp | ⟨-, hlt⟩
      · exact hs.closed_lt hf hnew hp hdirectory
      · exact hlt
    · rw [hothers key hkey] at hopen'
      obtain ⟨⟨t', ht', hown, hpath'⟩, hbefore⟩ := hs.latest key hd' hopen'
      refine ⟨⟨t', List.mem_append_left _ ht', hown, hpath'⟩, fun p hp hdirectory => ?_⟩
      rcases hcases p hp with hp | ⟨hp, -⟩
      · exact hbefore p hp hdirectory
      · exact absurd (hs.key_eq hf hopen' (hdirectory.symm.trans hp)) hkey
  case closedOpen =>
    intro p hp
    show ∃ key hd', s'.files.openFiles key = some hd' ∧ hd'.path.1 = p.1
    have hnewOpen : hd.path.1 = r.names.directory (Recorder.keyOf r.names t) := by rw [hpath]; rfl
    rcases hcases p hp with hp | ⟨hp, -⟩
    · obtain ⟨key, hd', hopen', hdirectory⟩ := hs.closedOpen p hp
      by_cases hkey : key = Recorder.keyOf r.names t
      · subst hkey
        refine ⟨_, hd, hopen, ?_⟩
        rw [hnewOpen, ← hdirectory, (hs.inv.opened _ hd' hopen').directory]
      · exact ⟨key, hd', by rw [hothers key hkey, hopen'], hdirectory⟩
    · exact ⟨_, hd, hopen, hnewOpen.trans hp.symm⟩

/-- **A tick delivered**, for the first time or again. -/
theorem sound_delivered (hw : Wired N r) (hs : Sound N r.names h)
    (hf : Feed N r.names (h.delivered ++ [t])) :
    Sound N r.names ⟨(onMessage r .nil (dumps N t.json) h.state).2, h.delivered ++ [t]⟩ := by
  have hlast : t ∈ h.delivered ++ [t] := List.mem_append_right _ (List.mem_singleton_self t)
  have hfirst : Dedup.isAbove (floors h.delivered (t.venue, t.symbol)) t.tradeId = true
      ↔ t ∉ h.delivered :=
    Dedup.isAbove_floorAfter (t := []) (Dedup.isAbove_none _) hf.ascending
  by_cases hmem : t ∈ h.delivered
  · have hnot : Dedup.isAbove (floors h.delivered (t.venue, t.symbol)) t.tradeId = false :=
      Bool.eq_false_iff.mpr (fun habove => hfirst.mp habove hmem)
    exact sound_again hw hs (hf.readable t hlast) (hf.nonneg t hlast) hmem hnot
  · exact sound_new hw hs hf hmem (hfirst.mpr hmem)

/-- Each tick was counted once, and the files of a path that no thread is at work on are one, with
the first of its ticks on its lines; all of them once everything is flushed and compressed. -/
structure Readable (N : Numerals) (r : Reading) (h : History) : Prop where
  received : h.state.received = h.delivered.eraseDups.length
  counted : h.state.received + h.state.duplicates = h.delivered.length
  one_file : ∀ p, h.state.files.Idle p →
    h.state.files.plain p = none ∨ h.state.files.gz p = none
  started : ∀ p, h.state.files.Idle p → ∃ n,
    (readLines (h.state.files.disk p)).1.map r.loads
      = ((ticksAt r.names h.delivered p).take n).map (fun t => .ok t.json)
  settled : h.state.files.Settled → ∀ p,
    (readLines (h.state.files.disk p)).1.map r.loads
      = (ticksAt r.names h.delivered p).map (fun t => .ok t.json)

/-- The text of a path is one JSON object a line. -/
theorem Sound.text_eq (hs : Sound N r.names h) (p : DayPath) : h.state.files.text p
    = jsonLines N ((ticksAt r.names h.delivered p).map Tick.json) := by
  rw [Recorder.text, hs.recorded, jsonLines, List.flatMap_map, List.flatMap_def]
  rfl

theorem Sound.readable_files (hw : Wired N r) (hs : Sound N r.names h) : Readable N r h := by
  have hjson : ∀ p, ∀ v ∈ (ticksAt r.names h.delivered p).map Tick.json,
      AllNumbers N.Reads v := by
    intro p v hv
    obtain ⟨t, ht, rfl⟩ := List.mem_map.mp hv
    exact hs.readable t (List.mem_eraseDups.mp (List.mem_filter.mp ht).1)
  refine ⟨hs.received, hs.counted, fun p hidle => ?_, fun p hidle => ?_, fun hsettled p => ?_⟩
  · by_cases hopen : h.state.files.IsOpen p
    · obtain ⟨key, hd, hopen, rfl⟩ := hopen
      obtain ⟨-, hbefore⟩ := hs.latest key hd hopen
      exact Or.inr (hs.inv.gz_closed _ (fun hc => lt_irrefl _ (hbefore _ hc rfl)))
    · exact Or.inl (hs.inv.at_rest p hopen hidle).1
  · have hpart := hs.inv.disk_prefix hidle
    rw [hs.text_eq] at hpart
    obtain ⟨n, hn⟩ := readLines_jsonLines (hjson p) hpart
    refine ⟨n, ?_⟩
    rw [hw.loads, hn, ← List.map_take, List.map_map]
    rfl
  · rw [hs.inv.disk_eq hsettled, hs.text_eq, hw.loads, readLines_all (hjson p), List.map_map]
    rfl

/-- Two ticks on two days, the second one again, and a payload that is no JSON. -/
def twoDays : List Event :=
  [.delivered (Recorder.btcTick 5 0), .malformed [123], .delivered (Recorder.btcTick 6 86400000),
    .spill ("binance", "btcusdt") 7, .delivered (Recorder.btcTick 6 86400000),
    .flush ("binance", "btcusdt")]

end

end RecorderState

end NanoTick
