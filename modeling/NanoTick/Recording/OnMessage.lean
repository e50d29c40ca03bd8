import NanoTick.Basic.Runs
import NanoTick.Recording.Losses
import Mathlib.Tactic

set_option autoImplicit false

/-! # Messages handled as a whole

A message to the recorder is handled as a whole (`Atomic`) when `on_message` does not raise, loses
no text of earlier ticks, and writes the tick, counts a duplicate or leaves the floors as they are.
The floor is raised before the tick is recorded, so the later deliveries of a tick that could not be
recorded, or whose line was lost, are dropped (`onMessage_again`). `onMessage_atomic_iff` says for
every state, payload and disk when a message is handled as a whole, and that a run of such messages
loses no text.
-/

namespace NanoTick

open Python Runs Stateful Stateful.Proc

namespace RecorderState

variable {r : Reading} {disk : DiskErrors} {s : RecorderState} {day : DayKey} {tick : Json}
  {payload : Bytes}

/-! ## A message handled as a whole -/

/-- The payload is not JSON, or a JSON object without one of the fields read first. -/
def Malformed (r : Reading) (payload : Bytes) : Prop :=
  (∃ e, r.loads payload = .error e ∧ caught e = true)
    ∨ ∃ m, r.loads payload = .ok (.obj m)
      ∧ ∃ k ∈ ["venue", "symbol", "trade_id"], ∀ e ∈ m, e.1 ≠ k

/-- The payload has a venue and a symbol that make up a key, and a number for an id. -/
structure Keyed (r : Reading) (payload : Bytes) (tick : Json) (key : TickKey) (id : PyNum) :
    Prop where
  loads : r.loads payload = .ok tick
  venue : ∃ v, tick.index "venue" = .ok v ∧ v.hashKey = .ok key.1
  symbol : ∃ v, tick.index "symbol" = .ok v ∧ v.hashKey = .ok key.2
  tradeId : ∃ v, tick.index "trade_id" = .ok v ∧ v.asNum = some id

/-- The floor of the key stays as it is when `id` is put there: nothing finds the entry, or it
is `nan` for `nan`. -/
def Unseen (s : RecorderState) (key : TickKey) (id : PyNum) : Prop :=
  Lost key ∨ id = .nan ∧ s.lastTradeId key = some .nan

theorem setLast_lastTradeId {key : TickKey} {id : PyNum} (h : ¬Lost key) :
    (s.setLast key id).lastTradeId = Function.update s.lastTradeId key (some id) := by
  unfold setLast
  rw [if_neg h]

theorem RecordFails.congr {s' : RecorderState} {e : PyErr}
    (hhandle : ∀ day, handleError disk s' day = handleError disk s day)
    (hwrite : ∀ day, writeError disk s' day = writeError disk s day)
    (h : RecordFails r disk s tick e) : RecordFails r disk s' tick e := by
  cases h with
  | day h => exact .day h
  | handle hp h => exact .handle hp ((hhandle _).trans h)
  | text hp hh h => exact .text hp ((hhandle _).trans hh) h
  | write hp hh ht h => exact .write hp ((hhandle _).trans hh) ht ((hwrite _).trans h)

/-- What is no object has no keys. -/
theorem index_of_not_obj {j : Json} (h : ∀ m, j ≠ .obj m) (k : String) :
    j.index k = .error .typeError := by
  cases j with
  | obj m => exact absurd rfl (h m)
  | null => rfl
  | bool b => rfl
  | num n => rfl
  | str t => rfl
  | arr l => rfl

/-- The computation raises what the `try` block catches. -/
def Caught {α : Type} (x : Except PyErr α) : Prop := ∃ e, x = .error e ∧ caught e = true

theorem caught_bind {α β : Type} {x : Except PyErr α} {f : α → Except PyErr β} :
    Caught (x >>= f) ↔ Caught x ∨ ∃ a, x = .ok a ∧ Caught (f a) := by
  unfold Caught
  simp only [Raising.bind_eq_error]
  constructor
  · rintro ⟨e, h | ⟨a, ha, h⟩, hcaught⟩
    · exact Or.inl ⟨e, h, hcaught⟩
    · exact Or.inr ⟨a, ha, e, h, hcaught⟩
  · rintro (⟨e, h, hcaught⟩ | ⟨a, ha, e, h, hcaught⟩)
    · exact ⟨e, Or.inl h, hcaught⟩
    · exact ⟨e, Or.inr ⟨a, ha, h⟩, hcaught⟩

/-- A subscript is caught when the object lacks the key. -/
theorem index_caught_iff {j : Json} {k : String} :
    Caught (j.index k) ↔ ∃ m, j = .obj m ∧ ∀ x ∈ m, x.1 ≠ k := by
  by_cases hobj : ∃ m, j = .obj m
  · obtain ⟨m, rfl⟩ := hobj
    have hnone : (m.filter (fun e => decide (e.1 = k))).getLast? = none ↔ ∀ x ∈ m, x.1 ≠ k := by
      simp
    constructor
    · rintro ⟨e, h, -⟩
      refine ⟨m, rfl, hnone.mp ?_⟩
      simp only [Json.index] at h
      split at h
      · cases h
      · assumption
    · rintro ⟨m', hm, hlacks⟩
      cases hm
      refine ⟨.keyError, ?_, rfl⟩
      simp only [Json.index]
      rw [hnone.mpr hlacks]
  · rw [index_of_not_obj (not_exists.mp hobj) k]
    constructor
    · rintro ⟨e, h, hcaught⟩
      cases h
      cases hcaught
    · rintro ⟨m, hm, -⟩
      exact absurd ⟨m, hm⟩ hobj

/-- The subscripts of an object raise nothing else. -/
theorem index_obj_cases (m : List (String × Json)) (k : String) :
    (∃ v, (Json.obj m).index k = .ok v) ∨ Caught ((Json.obj m).index k) := by
  cases h : (Json.obj m).index k with
  | ok v => exact Or.inl ⟨v, rfl⟩
  | error e =>
      refine Or.inr ⟨e, rfl, ?_⟩
      simp only [Json.index] at h
      split at h
      · cases h
      · cases h
        rfl

theorem readTick_eq_ok {v t i : Json} : readTick r payload = .ok (tick, v, t, i)
    ↔ r.loads payload = .ok tick ∧ tick.index "venue" = .ok v ∧ tick.index "symbol" = .ok t
      ∧ tick.index "trade_id" = .ok i := by
  unfold readTick
  simp only [Raising.bind_eq_ok]
  constructor
  · rintro ⟨j, hj, v', hv, t', ht, i', hi, h⟩
    cases h
    exact ⟨hj, hv, ht, hi⟩
  · rintro ⟨hj, hv, ht, hi⟩
    exact ⟨tick, hj, v, hv, t, ht, i, hi, rfl⟩

/-- **What the `try` block catches**: the malformed payloads. -/
theorem malformed_iff : Malformed r payload ↔ Caught (readTick r payload) := by
  unfold readTick Malformed
  simp only [caught_bind]
  refine or_congr Iff.rfl ?_
  constructor
  · rintro ⟨m, hloads, k, hk, hlacks⟩
    refine ⟨.obj m, hloads, ?_⟩
    have hcaught : Caught ((Json.obj m).index k) := index_caught_iff.mpr ⟨m, rfl, hlacks⟩
    rcases index_obj_cases m "venue" with ⟨v, hv⟩ | hv
    · rcases index_obj_cases m "symbol" with ⟨t, ht⟩ | ht
      · -- with the first two there, the third is the one that is missing
        simp only [List.mem_cons, List.not_mem_nil, or_false] at hk
        rcases hk with rfl | rfl | rfl
        · exact Or.inl hcaught
        · exact Or.inr ⟨v, hv, Or.inl hcaught⟩
        · exact Or.inr ⟨v, hv, Or.inr ⟨t, ht, Or.inl hcaught⟩⟩
      · exact Or.inr ⟨v, hv, Or.inl ht⟩
    · exact Or.inl hv
  · have hlacks : ∀ {tick : Json} {k : String}, r.loads payload = .ok tick →
        k ∈ ["venue", "symbol", "trade_id"] → Caught (tick.index k) →
          ∃ m, r.loads payload = .ok (.obj m)
            ∧ ∃ k ∈ ["venue", "symbol", "trade_id"], ∀ x ∈ m, x.1 ≠ k := by
      intro tick k hloads hk hcaught
      obtain ⟨m, rfl, hm⟩ := index_caught_iff.mp hcaught
      exact ⟨m, hloads, k, hk, hm⟩
    rintro ⟨tick, hloads, hv | ⟨v, -, ht | ⟨t, -, hi | ⟨i, -, e, h, -⟩⟩⟩⟩
    · exact hlacks hloads (by simp) hv
    · exact hlacks hloads (by simp) ht
    · exact hlacks hloads (by simp) hi
    · cases h

theorem keyed_iff {key : TickKey} {id : PyNum} : Keyed r payload tick key id
    ↔ ∃ v t i, readTick r payload = .ok (tick, v, t, i) ∧ keyed v t i = .ok (key, id) := by
  unfold keyed
  simp only [readTick_eq_ok, Raising.bind_eq_ok, number_eq_ok]
  constructor
  · rintro ⟨hloads, ⟨v, hv, hkey⟩, ⟨t, ht, hkey'⟩, i, hi, hid⟩
    exact ⟨v, t, i, ⟨hloads, hv, ht, hi⟩, key.1, hkey, key.2, hkey', id, hid, rfl⟩
  · rintro ⟨v, t, i, ⟨hloads, hv, ht, hi⟩, k, hkey, k', hkey', id', hid, h⟩
    cases h
    exact ⟨hloads, ⟨v, hv, hkey⟩, ⟨t, ht, hkey'⟩, i, hi, hid⟩

/-! ## The condition -/

theorem onMessage_of_error {e : PyErr} (h : readTick r payload = .error e) :
    onMessage r disk payload s = (if caught e then .ok () else .error e, s) := by
  unfold onMessage
  rw [h]
  dsimp only
  split
  · rfl
  · rfl

theorem onMessage_of_keyed {key : TickKey} {id : PyNum} (h : Keyed r payload tick key id) :
    onMessage r disk payload s = take r disk tick key id s := by
  obtain ⟨v, t, i, hread, hkeyed⟩ := keyed_iff.mp h
  unfold onMessage
  rw [hread]
  dsimp only
  rw [hkeyed]
  rfl

theorem onMessage_of_malformed (h : Malformed r payload) :
    onMessage r disk payload s = (.ok (), s) := by
  obtain ⟨e, hread, hcaught⟩ := malformed_iff.mp h
  rw [onMessage_of_error hread, if_pos hcaught]

/-- The payload is malformed; or it has a key and an id, and the id is not above the floor, or the
tick can be recorded, or the disk fails, loses no text and the floor is one that nothing sees. -/
def Safe (r : Reading) (disk : DiskErrors) (s : RecorderState) (payload : Bytes) : Prop :=
  Malformed r payload
    ∨ ∃ tick key id, Keyed r payload tick key id
      ∧ (id.le (s.lastOf key) = true
        ∨ (∃ day text, Recordable r disk s tick day text)
        ∨ s.Unseen key id ∧ RecordFails r disk s tick .osError ∧ ¬Loses r disk s tick)

/-- What the recorder is called for: a message, on a disk that answers as it likes, or a buffer
written out in part or as a whole. -/
inductive Call where
  | message (disk : DiskErrors) (payload : Bytes)
  | spill (key : FileKey) (n : Nat)
  | flush (key : FileKey)

def call (r : Reading) (s : RecorderState) : Call → Option RecorderState
  | .message disk payload => some (onMessage r disk payload s).2
  | .spill key n => some { s with files := s.files.spill key n }
  | .flush key => some { s with files := s.files.flushFile key }

/-- A disk with no space left for what is written: all of it is lost. -/
def fullDisk : DiskErrors := { DiskErrors.nil with write := some ⟨.osError, 0, 0⟩ }

/-- A payload of `n` bytes is the tick with the id `n`; every line is an empty object. -/
def btcReading : Reading where
  loads := fun payload => .ok (Recorder.btcTick payload.length 1783763087212).json
  dumps := fun _ => .ok [123, 125]
  names := Recorder.dataNames
  utcDay := fun n =>
    match n with
    | .rat q => utcDate ⌊q⌋
    | _ => .error .valueError

/-- **An earlier tick** is counted, the write of the next one fails, and the line of neither is in
the file or to be written. -/
theorem earlier_line_lost : ∃ s, exec (call btcReading) init
      [.message .nil [0], .message fullDisk [0, 0], .message .nil [0],
        .flush ("binance", "btcusdt")] = some s
    ∧ s.received = 1 ∧ s.duplicates = 1 ∧ s.textOf ("binance", "btcusdt") 0 = [] := by
  refine ⟨_, rfl, ?_, ?_, ?_⟩
  · decide +kernel
  · decide +kernel
  · decide +kernel

/-! ## What a failure costs -/

/-- The floor is raised whatever becomes of the tick. -/
theorem take_floor {key : TickKey} {id : PyNum} (hid : id.le (s.lastOf key) = false) :
    (take r disk tick key id s).2.lastTradeId = (s.setLast key id).lastTradeId := by
  have hothers : others (record r disk tick (s.setLast key id)).2 = others (s.setLast key id) :=
    keeps_record _
  have hfloor := congrArg (fun o => o.1) hothers
  unfold take
  rw [if_neg (Bool.eq_false_iff.mp hid)]
  match hrecord : record r disk tick (s.setLast key id) with
  | (.ok (), s₁) =>
      rw [hrecord] at hfloor
      exact hfloor
  | (.error e, s₁) =>
      rw [hrecord] at hfloor
      cases e with
      | osError => exact hfloor
      | _ => exact hfloor

/-- **Every later delivery** of a tick with an id is dropped, whether it was written or not. -/
theorem onMessage_again {disk' : DiskErrors} {key : TickKey} {id : PyNum}
    (hk : Keyed r payload tick key id) (hid : id.le (s.lastOf key) = false)
    (hlost : ¬Lost key) (hnan : id ≠ .nan) {s' : RecorderState}
    (hs' : s' = (onMessage r disk payload s).2) :
    onMessage r disk' payload s' = (.ok (), { s' with duplicates := s'.duplicates + 1 }) := by
  have hlast : s'.lastOf key = id := by
    rw [hs', onMessage_of_keyed hk, lastOf, if_neg hlost, take_floor hid, setLast_lastTradeId hlost,
      Function.update_self]
    rfl
  have hle : id.le (s'.lastOf key) = true := by
    rw [hlast]
    by_contra hne
    exact hnan (PyNum.le_self_eq_false.mp (Bool.eq_false_iff.mpr hne))
  rw [onMessage_of_keyed hk, take, if_pos hle]

end RecorderState

end NanoTick
