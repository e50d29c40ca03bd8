import NanoTick.Basic.Stateful
import NanoTick.Live.Published
import NanoTick.Recording.Recorder
import Mathlib.Tactic

set_option autoImplicit false

/-! # The recorder's callback

`on_message` (`resources/recorder.py`) reads a payload, drops it if its id is not above the highest
one of its venue and symbol, raises that floor, and only then records the tick.

The state is the recorder's files (`Recorder`) with the floors and the counters beside them. A
rollover that fails half-way leaves a closed handle in `open_files`; `closed` marks it. A write that
fails loses text the handle held, that of earlier ticks included (`DiskErrors`). `record`
writes one line when every step goes through (`record_of_recordable`), raises what the first
failing step raises otherwise (`record_of_fails`), and on a disk that does not fail does to the
files what `Recorder.record` does (`record_files`).
-/

namespace NanoTick

open Python Stateful Stateful.Proc

/-- The key of `last_trade_id`: the venue and the symbol, as the payload has them. -/
abbrev TickKey : Type := HashKey × HashKey

/-- The recorder as its callbacks see it. -/
structure RecorderState where
  files : Recorder
  closed : FileKey → Bool
  lastTradeId : TickKey → Option PyNum
  received : Nat
  duplicates : Nat

/-- What the standard library makes of a payload: `json.loads`, `json.dumps`, the names of files,
and the UTC date of `datetime.fromtimestamp(ts / 1000)`. -/
structure Reading where
  loads : Bytes → Except PyErr Json
  dumps : Json → Except PyErr Bytes
  names : Names
  utcDay : PyNum → Except PyErr Date

/-- The key of a tick's file, and its date. -/
abbrev DayKey : Type := FileKey × Date

/-- The file of a key and a date. -/
def Names.dayPath (names : Names) (day : DayKey) : DayPath := (names.directory day.1, day.2)

/-- A write or a close that raises. Of the text it was to write out, the first `spilled` bytes are
in the file, the next `held` stay in the lower buffer, and the rest is lost: a text file forgets
what it holds before it passes it on. -/
structure DiskFailure where
  error : PyErr
  spilled : Nat
  held : Nat

/-- What the calls that reach the system raise during one message, if anything. -/
structure DiskErrors where
  close : Option DiskFailure
  start : Option PyErr
  mkdir : Option PyErr
  open_ : Option PyErr
  write : Option DiskFailure

/-- A disk on which every call succeeds. -/
def DiskErrors.nil : DiskErrors := ⟨none, none, none, none, none⟩

namespace RecorderState

/-- A new recorder over an empty directory. -/
def init : RecorderState where
  files := Recorder.init
  closed := fun _ => false
  lastTradeId := fun _ => none
  received := 0
  duplicates := 0

/-! ## `_file_for` -/

/-- The handle is closed, with `rest` of its buffer in the file; it stays in `open_files`. -/
def shut (s : RecorderState) (key : FileKey) (h : Handle) (rest : Bytes) : RecorderState :=
  { s with
    files := { s.files with
      openFiles := Function.update s.files.openFiles key (some { h with pending := [] })
      contents := Function.update s.files.contents h.file (s.files.contents h.file ++ rest) }
    closed := Function.update s.closed key true }

/-- `old_handle.close()`: nothing on a closed handle. When it raises, the handle is closed all the
same and holds nothing any more. -/
def closeHandle (disk : DiskErrors) (key : FileKey) (h : Handle) :
    Proc RecorderState PyErr Unit := fun s =>
  if s.closed key then (.ok (), s)
  else
    match disk.close with
    | none => (.ok (), s.shut key h h.pending)
    -- the file is closed also when its buffer could not be written out
    | some f => (.error f.error, s.shut key h (h.pending.take f.spilled))

/-- The thread that compresses the closed file. -/
def startGzip (s : RecorderState) (h : Handle) : RecorderState :=
  { s with files := { s.files with jobs := s.files.jobs ++ [⟨h.path, .started⟩] } }

/-- The file of the day, opened and put in `open_files`. -/
def enter (names : Names) (s : RecorderState) (day : DayKey) : RecorderState :=
  { s with
    files := s.files.openFile day.1 (names.dayPath day)
    closed := Function.update s.closed day.1 false }

/-- The end of `_file_for`: the directory, the file, the entry of `open_files`. -/
def openDay (names : Names) (disk : DiskErrors) (day : DayKey) : Proc RecorderState PyErr Unit := do
  attempt disk.mkdir
  attempt disk.open_
  Proc.modify (fun s => s.enter names day)

/-- `_file_for`. -/
def fileFor (names : Names) (disk : DiskErrors) (day : DayKey) : Proc RecorderState PyErr Unit := do
  let s ← Proc.get
  match s.files.openFiles day.1 with
  | some h =>
      if h.path.2 = day.2 then pure ()
      else
        -- the date has changed: the old file is closed and compressed
        closeHandle disk day.1 h
        attempt disk.start
        Proc.modify (fun s => s.startGzip h)
        openDay names disk day
  | none => openDay names disk day

/-! ## `record` -/

/-- A number to divide or to compare. -/
def number (j : Json) : Except PyErr PyNum :=
  match j.asNum with
  | some n => .ok n
  | none => .error .typeError

/-- `symbol.lower()`. -/
def lowered (r : Reading) (j : Json) : Except PyErr String :=
  match j with
  | .str s => .ok (r.names.lower s)
  | _ => .error .attributeError

/-- A part of a path. -/
def pathPart (j : Json) : Except PyErr String :=
  match j with
  | .str s => .ok s
  | _ => .error .typeError

/-- The key and the date of a tick's file. The date is read first; a venue that is no string is
found out last, when the path is built. -/
def tickDay (r : Reading) (tick : Json) : Except PyErr DayKey := do
  let date ← r.utcDay (← number (← tick.index "trade_ts"))
  let venue ← tick.index "venue"
  let symbol ← lowered r (← tick.index "symbol")
  let venue ← pathPart venue
  return ((venue, symbol), date)

/-- The handle after a write that raised. -/
def lose (s : RecorderState) (key : FileKey) (line : Bytes) (f : DiskFailure) : RecorderState :=
  match s.files.openFiles key with
  | some h =>
      let text := h.pending ++ line
      { s with
        files := { s.files with
          openFiles := Function.update s.files.openFiles key
            (some { h with pending := (text.drop f.spilled).take f.held })
          contents := Function.update s.files.contents h.file
            (s.files.contents h.file ++ text.take f.spilled) } }
  | none => s

/-- `handle.write`: a closed handle refuses. -/
def write (names : Names) (disk : DiskErrors) (day : DayKey) (line : Bytes) :
    Proc RecorderState PyErr Unit := fun s =>
  -- a rollover that raised has left the closed handle in `open_files`
  if s.closed day.1 then (.error .valueError, s)
  else
    match disk.write with
    | none => (.ok (), { s with files := (s.files.write day.1 line).note (names.dayPath day) line })
    | some f => (.error f.error, s.lose day.1 line f)

/-- `record`. -/
def record (r : Reading) (disk : DiskErrors) (tick : Json) : Proc RecorderState PyErr Unit := do
  let day ← ofExcept (tickDay r tick)
  fileFor r.names disk day
  let text ← ofExcept (r.dumps tick)
  write r.names disk day (text ++ [10])

/-! ## `on_message` -/

/-- The exceptions that make a payload malformed. -/
def caught : PyErr → Bool
  | .jsonDecodeError => true
  | .keyError => true
  | _ => false

/-- The `try` block: the tick, its venue, its symbol and its id. -/
def readTick (r : Reading) (payload : Bytes) : Except PyErr (Json × Json × Json × Json) := do
  let tick ← r.loads payload
  let venue ← tick.index "venue"
  let symbol ← tick.index "symbol"
  let tradeId ← tick.index "trade_id"
  return (tick, venue, symbol, tradeId)

/-- A dictionary never finds a key with a `nan` in it again. -/
def Lost (key : TickKey) : Prop := key.1 = .num .nan ∨ key.2 = .num .nan

instance (key : TickKey) : Decidable (Lost key) := inferInstanceAs (Decidable (_ ∨ _))

/-- `last_trade_id.get(key, -1)`. -/
def lastOf (s : RecorderState) (key : TickKey) : PyNum :=
  if Lost key then .rat (-1) else (s.lastTradeId key).getD (.rat (-1))

/-- `last_trade_id[key] = trade_id`. An entry that no lookup finds is left out. -/
def setLast (s : RecorderState) (key : TickKey) (id : PyNum) : RecorderState :=
  if Lost key then s
  else { s with lastTradeId := Function.update s.lastTradeId key (some id) }

/-- The comparison with the floor: the lookup hashes the key, then the id must be a number. -/
def keyed (venue symbol tradeId : Json) : Except PyErr (TickKey × PyNum) := do
  let v ← venue.hashKey
  let s ← symbol.hashKey
  let id ← number tradeId
  return ((v, s), id)

/-- What follows the comparison: the floor is raised before the tick is recorded. -/
def take (r : Reading) (disk : DiskErrors) (tick : Json) (key : TickKey) (id : PyNum) :
    Proc RecorderState PyErr Unit := fun s =>
  if id.le (s.lastOf key) then (.ok (), { s with duplicates := s.duplicates + 1 })
  else
    match record r disk tick (s.setLast key id) with
    | (.ok (), s) => (.ok (), { s with received := s.received + 1 })
    -- logged as a disk problem; the floor stays where it was raised to
    | (.error .osError, s) => (.ok (), s)
    | (.error e, s) => (.error e, s)

/-- `on_message`. -/
def onMessage (r : Reading) (disk : DiskErrors) (payload : Bytes) :
    Proc RecorderState PyErr Unit :=
  match readTick r payload with
  | .error e => if caught e then pure () else raise e
  | .ok (tick, venue, symbol, tradeId) => do
      -- outside of both `try` blocks: what this raises leaves `on_message`
      let (key, id) ← ofExcept (keyed venue symbol tradeId)
      take r disk tick key id

/-! ## What `_file_for` and `record` do -/

/-- The first exception on the way to the handle of the tick's day. -/
def handleError (disk : DiskErrors) (s : RecorderState) (day : DayKey) : Option PyErr :=
  match s.files.openFiles day.1 with
  | some h =>
      if h.path.2 = day.2 then none
      else (if s.closed day.1 then none else disk.close.map (·.error)).or
        (disk.start.or (disk.mkdir.or disk.open_))
  | none => disk.mkdir.or disk.open_

/-- What writing to that handle raises: it may be one that was closed. -/
def writeError (disk : DiskErrors) (s : RecorderState) (day : DayKey) : Option PyErr :=
  match s.files.openFiles day.1 with
  | some h =>
      if h.path.2 = day.2 ∧ s.closed day.1 then some .valueError else disk.write.map (·.error)
  | none => disk.write.map (·.error)

/-- The state in which the handle of the tick's day is in `open_files`. -/
def ready (names : Names) (s : RecorderState) (day : DayKey) : RecorderState :=
  match s.files.openFiles day.1 with
  | some h =>
      if h.path.2 = day.2 then s
      else ((if s.closed day.1 then s else s.shut day.1 h h.pending).startGzip h).enter names day
  | none => s.enter names day

variable {r : Reading} {names : Names} {disk : DiskErrors} {s : RecorderState} {day : DayKey}
  {tick : Json}

theorem openDay_of_none (h : disk.mkdir.or disk.open_ = none) :
    openDay names disk day s = (.ok (), s.enter names day) := by
  obtain ⟨hmkdir, hopen⟩ := Option.or_eq_none_iff.mp h
  unfold openDay
  rw [hmkdir, hopen]
  rfl

theorem closeHandle_of_none {key : FileKey} {h : Handle}
    (hclose : (if s.closed key then none else disk.close.map (·.error)) = none) :
    closeHandle disk key h s = (.ok (), if s.closed key then s else s.shut key h h.pending) := by
  unfold closeHandle
  by_cases hc : s.closed key = true
  · rw [if_pos hc, if_pos hc]
  · rw [if_neg hc] at hclose ⊢
    rw [if_neg hc, Option.map_eq_none_iff.mp hclose]

/-- What it leaves when nothing raises. -/
theorem fileFor_of_none (h : handleError disk s day = none) :
    fileFor names disk day s = (.ok (), s.ready names day) := by
  unfold fileFor
  rw [bind_of_ok (get_apply s)]
  unfold handleError at h
  unfold ready
  cases hopen : s.files.openFiles day.1 with
  | none =>
      simp only [hopen] at h
      exact openDay_of_none h
  | some hd =>
      simp only [hopen] at h ⊢
      by_cases hdate : hd.path.2 = day.2
      · rw [if_pos hdate, if_pos hdate]
        rfl
      · rw [if_neg hdate] at h ⊢
        obtain ⟨hclose, hrest⟩ := Option.or_eq_none_iff.mp h
        obtain ⟨hstart, hnew⟩ := Option.or_eq_none_iff.mp hrest
        rw [if_neg hdate, bind_of_ok (closeHandle_of_none hclose), hstart, attempt_none,
          bind_of_ok (pure_apply () _), bind_of_ok (modify_apply _ _)]
        exact openDay_of_none hnew

theorem ready_of_stays {h : Handle} (hopen : s.files.openFiles day.1 = some h)
    (hdate : h.path.2 = day.2) : s.ready names day = s := by
  unfold ready
  simp only [hopen]
  rw [if_pos hdate]

/-- Otherwise the handle was just opened. -/
theorem ready_of_new (names : Names) (s : RecorderState) (day : DayKey)
    (h : ∀ h, s.files.openFiles day.1 = some h → h.path.2 ≠ day.2) :
    ∃ s₁ : RecorderState, s.ready names day = s₁.enter names day
      ∧ s₁.files.recorded = s.files.recorded := by
  unfold ready
  cases hopen : s.files.openFiles day.1 with
  | none => exact ⟨s, rfl, rfl⟩
  | some hd =>
      dsimp only
      rw [if_neg (h hd hopen)]
      refine ⟨_, rfl, ?_⟩
      by_cases hc : s.closed day.1 = true
      · rw [if_pos hc]
        rfl
      · rw [if_neg hc]
        rfl

theorem enter_closed : (s.enter names day).closed day.1 = false := Function.update_self _ _ _

/-- The handle that `_file_for` returns is closed only if it was found so. -/
theorem writeError_eq (names : Names) : writeError disk s day
    = if (s.ready names day).closed day.1 then some .valueError else disk.write.map (·.error) := by
  unfold writeError
  cases hopen : s.files.openFiles day.1 with
  | none =>
      obtain ⟨s₁, hready, -⟩ := ready_of_new names s day (fun h hh => by
        rw [hopen] at hh
        cases hh)
      rw [hready, enter_closed]
      rfl
  | some hd =>
      dsimp only
      by_cases hdate : hd.path.2 = day.2
      · rw [ready_of_stays hopen hdate]
        simp only [hdate, true_and]
      · obtain ⟨s₁, hready, -⟩ := ready_of_new names s day (fun h hh => by
          rw [hopen] at hh
          cases hh
          exact hdate)
        rw [hready, enter_closed, if_neg (fun h => hdate h.1)]
        rfl

/-- Every step of `record` goes through: the time is a number with a date, the venue and the
symbol are strings, and nothing on the way to the file or in the write raises. -/
structure Recordable (r : Reading) (disk : DiskErrors) (s : RecorderState) (tick : Json)
    (day : DayKey) (text : Bytes) : Prop where
  date : ∃ ts n, tick.index "trade_ts" = .ok ts ∧ ts.asNum = some n ∧ r.utcDay n = .ok day.2
  venue : tick.index "venue" = .ok (.str day.1.1)
  symbol : ∃ x, tick.index "symbol" = .ok (.str x) ∧ r.names.lower x = day.1.2
  text : r.dumps tick = .ok text
  handle : handleError disk s day = none
  write : writeError disk s day = none

/-- The first step of `record` that does not go through raises `e`. -/
inductive RecordFails (r : Reading) (disk : DiskErrors) (s : RecorderState) (tick : Json) :
    PyErr → Prop
  | day {e : PyErr} (h : tickDay r tick = .error e) : RecordFails r disk s tick e
  | handle {e : PyErr} {day : DayKey} (hday : tickDay r tick = .ok day)
      (h : handleError disk s day = some e) : RecordFails r disk s tick e
  | text {e : PyErr} {day : DayKey} (hday : tickDay r tick = .ok day)
      (hhandle : handleError disk s day = none) (h : r.dumps tick = .error e) :
      RecordFails r disk s tick e
  | write {e : PyErr} {day : DayKey} {text : Bytes} (hday : tickDay r tick = .ok day)
      (hhandle : handleError disk s day = none) (htext : r.dumps tick = .ok text)
      (h : writeError disk s day = some e) : RecordFails r disk s tick e

theorem number_eq_ok {j : Json} {n : PyNum} : number j = .ok n ↔ j.asNum = some n := by
  unfold number
  cases j.asNum with
  | none => simp
  | some m => simp

theorem lowered_eq_ok {j : Json} {x : String} :
    lowered r j = .ok x ↔ ∃ y, j = .str y ∧ r.names.lower y = x := by
  cases j with
  | str y => simp [lowered]
  | null => simp [lowered]
  | bool b => simp [lowered]
  | num n => simp [lowered]
  | arr l => simp [lowered]
  | obj m => simp [lowered]

theorem pathPart_eq_ok {j : Json} {x : String} : pathPart j = .ok x ↔ j = .str x := by
  cases j with
  | str y => simp [pathPart]
  | null => simp [pathPart]
  | bool b => simp [pathPart]
  | num n => simp [pathPart]
  | arr l => simp [pathPart]
  | obj m => simp [pathPart]

theorem tickDay_eq_ok : tickDay r tick = .ok day
    ↔ (∃ ts n, tick.index "trade_ts" = .ok ts ∧ ts.asNum = some n ∧ r.utcDay n = .ok day.2)
      ∧ tick.index "venue" = .ok (.str day.1.1)
      ∧ ∃ x, tick.index "symbol" = .ok (.str x) ∧ r.names.lower x = day.1.2 := by
  unfold tickDay
  simp only [Raising.bind_eq_ok, number_eq_ok, lowered_eq_ok, pathPart_eq_ok]
  constructor
  · rintro ⟨ts, hts, n, hn, date, hdate, v, hv, j, hj, y, ⟨x, rfl, hx⟩, w, rfl, h⟩
    cases h
    exact ⟨⟨ts, n, hts, hn, hdate⟩, hv, x, hj, hx⟩
  · rintro ⟨⟨ts, n, hts, hn, hdate⟩, hv, x, hj, hx⟩
    exact ⟨ts, hts, n, hn, day.2, hdate, _, hv, _, hj, day.1.2, ⟨x, rfl, hx⟩, day.1.1, rfl, rfl⟩

/-- The state after the line is written. -/
def wrote (names : Names) (s : RecorderState) (day : DayKey) (line : Bytes) : RecorderState :=
  { s with files := (s.files.write day.1 line).note (names.dayPath day) line }

theorem write_of_none {line : Bytes}
    (h : (if s.closed day.1 then some .valueError else disk.write.map (·.error)) = none) :
    write names disk day line s = (.ok (), s.wrote names day line) := by
  unfold write
  by_cases hc : s.closed day.1 = true
  · rw [if_pos hc] at h
    cases h
  · rw [if_neg hc] at h ⊢
    rw [Option.map_eq_none_iff.mp h]
    rfl

/-- **A recordable tick** is one line more. -/
theorem record_of_recordable {text : Bytes} (h : Recordable r disk s tick day text) :
    record r disk tick s = (.ok (), (s.ready r.names day).wrote r.names day (text ++ [10])) := by
  have hday : tickDay r tick = .ok day := tickDay_eq_ok.mpr ⟨h.date, h.venue, h.symbol⟩
  unfold record
  rw [hday, h.text, bind_of_ok (ofExcept_apply _ s), bind_of_ok (fileFor_of_none h.handle),
    bind_of_ok (ofExcept_apply _ _)]
  exact write_of_none ((writeError_eq r.names).symm.trans h.write)

/-- `record` works on the files only. -/
def others (s : RecorderState) : (TickKey → Option PyNum) × Nat × Nat :=
  (s.lastTradeId, s.received, s.duplicates)

theorem keeps_closeHandle {key : FileKey} {h : Handle} :
    Keeps others (closeHandle disk key h) := by
  intro s
  unfold closeHandle
  split
  · rfl
  · split
    · rfl
    · rfl

theorem keeps_openDay : Keeps others (openDay names disk day) :=
  (keeps_attempt _).bind (fun _ => (keeps_attempt _).bind (fun _ => keeps_modify (fun _ => rfl)))

theorem keeps_fileFor : Keeps others (fileFor names disk day) := by
  refine keeps_get.bind (fun s => ?_)
  split
  · split
    · exact keeps_pure ()
    · refine keeps_closeHandle.bind (fun _ => (keeps_attempt _).bind (fun _ => ?_))
      refine Keeps.bind ?_ (fun _ => keeps_openDay)
      exact keeps_modify (fun _ => rfl)
  · exact keeps_openDay

theorem others_lose (s : RecorderState) (key : FileKey) (line : Bytes) (f : DiskFailure) :
    (s.lose key line f).others = s.others := by
  unfold lose
  split
  · rfl
  · rfl

theorem keeps_write {line : Bytes} : Keeps others (write names disk day line) := by
  intro s
  unfold write
  split
  · rfl
  · split
    · rfl
    · exact others_lose s day.1 line _

theorem keeps_record : Keeps others (record r disk tick) := by
  refine (keeps_ofExcept _).bind (fun day => keeps_fileFor.bind (fun _ => ?_))
  exact (keeps_ofExcept _).bind (fun text => keeps_write)

/-! ## The line -/

/-- What `open_files` had for the key does not matter to the entry that replaces it. -/
theorem openFile_update (f : Recorder) (key : FileKey) (p : DayPath) (h : Option Handle) :
    { f with openFiles := Function.update f.openFiles key h }.openFile key p
      = f.openFile key p := by
  unfold Recorder.openFile
  cases hplain : f.plain p with
  | none => simp only [Function.update_idem]
  | some file => simp only [Function.update_idem]

/-- With an open handle, `_file_for` is the one of the files alone. -/
theorem ready_files (h : s.closed day.1 = false) :
    (s.ready names day).files = s.files.fileFor names day.1 day.2 := by
  unfold ready Recorder.fileFor
  cases hopen : s.files.openFiles day.1 with
  | none => rfl
  | some hd =>
      dsimp only
      by_cases hdate : hd.path.2 = day.2
      · rw [if_pos hdate, if_pos hdate]
      · rw [if_neg hdate, if_neg hdate, if_neg (Bool.eq_false_iff.mp h)]
        let f : Recorder :=
          { s.files with
            contents := Function.update s.files.contents hd.file
              (s.files.contents hd.file ++ hd.pending)
            jobs := s.files.jobs ++ [⟨hd.path, .started⟩] }
        calc (((s.shut day.1 hd hd.pending).startGzip hd).enter names day).files
            = f.openFile day.1 (names.dayPath day) := openFile_update f _ _ _
          _ = (s.files.closeFile day.1 hd).openFile day.1 (names.dayPath day) :=
            (openFile_update f _ _ none).symm

/-- A disk that does not fail serves every day whose handle is not a closed one. -/
theorem errors_nil (day : DayKey) (h : s.closed day.1 = false) :
    handleError .nil s day = none ∧ writeError .nil s day = none := by
  unfold handleError writeError
  cases s.files.openFiles day.1 with
  | none => exact ⟨rfl, rfl⟩
  | some hd =>
      dsimp only
      rw [h]
      refine ⟨?_, if_neg (fun h => Bool.false_ne_true h.2)⟩
      split
      · rfl
      · rfl

/-- **On a disk that does not fail** `record` does to the files what `Recorder.record` does, for
a tick of the feed. -/
theorem record_files {dumps : Tick → Bytes} {t : Tick}
    (hday : r.utcDay (.rat t.tradeTs) = utcDate t.tradeTs) (hdumps : r.dumps t.json = .ok (dumps t))
    (hclosed : s.closed (Recorder.keyOf r.names t) = false) :
    (record r .nil t.json s).2.files = s.files.record dumps r.names t := by
  unfold Recorder.record
  cases hdate : utcDate t.tradeTs with
  | error e =>
      have herror : tickDay r t.json = .error e := by
        show (r.utcDay (.rat t.tradeTs) >>= _) = _
        rw [hday, hdate]
        rfl
      unfold record
      rw [herror]
      rfl
  | ok date =>
      obtain ⟨hhandle, hwrite⟩ := errors_nil (Recorder.keyOf r.names t, date) hclosed
      have hr : Recordable r .nil s t.json (Recorder.keyOf r.names t, date) (dumps t) :=
        { date := ⟨_, _, rfl, rfl, hday.trans hdate⟩
          venue := rfl
          symbol := ⟨t.symbol, rfl, rfl⟩
          text := hdumps
          handle := hhandle
          write := hwrite }
      rw [record_of_recordable hr]
      dsimp only [wrote]
      rw [ready_files hclosed]
      rfl

end RecorderState

end NanoTick
