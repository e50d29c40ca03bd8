import NanoTick.Basic.FirstOfKey
import NanoTick.Basic.Raising
import NanoTick.Live.FeedHandler
import Mathlib.Tactic

set_option autoImplicit false

/-! # The feed handler on payloads as they come

`FeedHandler` (`resources/feedhandler.py`) on whatever JSON is published, where
`NanoTick.FeedHandler` has records of the right types. The network thread lets a payload through
when `int` accepts its id; the main thread sorts the ids, reads the other fields and converts
them. Each of these raises on values of its own.

The states here have no re-bridge pending. A call that raises ends the process.
-/

namespace NanoTick

open Python Raising Grouping FirstOfKey

/-! ## What the code calls -/

/-- A row of the columns of `parse_live_ticks`. -/
structure TickRow where
  time : Int
  eventTime : Int
  sym : Json
  venue : Json
  tradeID : Int
  price : PyNum
  qty : PyNum
  buyerMaker : Bool

/-- A row of the columns of `parse_live_quotes`. -/
structure QuoteTickRow where
  time : Int
  sym : Json
  venue : Json
  updateID : Int
  bid : PyNum
  bidSize : PyNum
  ask : PyNum
  askSize : PyNum

/-- `json.loads`, `int` and `float` on a string, and the table constructors of pykx
(`HdbWriter._table`, `HdbWriter._quote_table`). -/
structure Outside where
  loads : List UInt8 → Except PyErr Json
  intOfStr : String → Option Int
  floatOfStr : String → Option PyNum
  table : List TickRow → Except PyErr (List Trade)
  quoteTable : List QuoteTickRow → Except PyErr (List Quote)

/-- `int`. -/
def Outside.int (o : Outside) (j : Json) : Except PyErr Int := j.toInt o.intOfStr

/-- `float`. -/
def Outside.float (o : Outside) (j : Json) : Except PyErr PyNum := j.toFloat o.floatOfStr

/-! ## Payloads -/

/-- A payload whose `key` is there and accepted by `int`, which makes it a number of the line or
a string. -/
structure Payload (o : Outside) (key : String) where
  record : Json
  id : SortKey
  accepted : ∃ v n, record.index key = .ok v ∧ o.int v = .ok n ∧ v.sortKey = some id

/-- The check of the network thread: `int(payload[key])`. -/
def accept (o : Outside) (key : String) (record : Json) : Except PyErr (Payload o key) :=
  match hv : record.index key with
  | .error e => .error e
  | .ok v =>
      match hn : o.int v with
      | .error e => .error e
      | .ok n =>
          .ok ⟨record, v.sortKey.get (Json.sortKey_of_toInt hn), v, n, hv, hn,
            (Option.some_get _).symm⟩

/-- A queued `(kind, payload)`. -/
inductive Queued (o : Outside) where
  | trade (p : Payload o "trade_id")
  | quote (p : Payload o "update_id")

/-- An MQTT message. -/
structure Message where
  topic : String
  payload : List UInt8
  deriving DecidableEq, Repr

/-- `msg.topic.startswith("quotes/")`: what is not a quote counts as a trade. -/
def Message.isQuote (m : Message) : Bool := "quotes/".toList.isPrefixOf m.topic.toList

/-- The `try` of `_on_message`. -/
def decode (o : Outside) (m : Message) : Except PyErr (Queued o) := do
  let payload ← o.loads m.payload
  if m.isQuote then return .quote (← accept o "update_id" payload)
  else return .trade (← accept o "trade_id" payload)

/-- The exceptions `_on_message` catches; a `UnicodeDecodeError` is a `ValueError`. -/
def malformed : PyErr → Bool
  | .jsonDecodeError => true
  | .keyError => true
  | .typeError => true
  | .valueError => true
  | .unicodeDecodeError => true
  | _ => false

/-! ## Rows -/

/-- `int(t["trade_ts"])` and the like: read a field and convert it. -/
def field {α : Type} (j : Json) (key : String) (convert : Json → Except PyErr α) :
    Except PyErr α := j.index key >>= convert

/-- The round of `parse_live_ticks` for one record. -/
def parseLiveTick (o : Outside) (t : Payload o "trade_id") : Except PyErr TickRow := do
  let tradeTs ← field t.record "trade_ts" o.int
  let eventTs ← field t.record "event_ts" o.int
  let sym ← t.record.index "symbol"
  let venue ← t.record.index "venue"
  let tradeId ← field t.record "trade_id" o.int
  let price ← field t.record "price" o.float
  let qty ← field t.record "qty" o.float
  let isBuyerMaker ← t.record.index "is_buyer_maker"
  return {
    time := toMillis tradeTs, eventTime := toMillis eventTs, sym := sym, venue := venue,
    tradeID := tradeId, price := price, qty := qty, buyerMaker := isBuyerMaker.truthy }

/-- The round of `parse_live_quotes` for one record. -/
def parseLiveQuote (o : Outside) (q : Payload o "update_id") : Except PyErr QuoteTickRow := do
  let recvTs ← field q.record "recv_ts" o.int
  let sym ← q.record.index "symbol"
  let venue ← q.record.index "venue"
  let updateId ← field q.record "update_id" o.int
  let bid ← field q.record "bid" o.float
  let bidQty ← field q.record "bid_qty" o.float
  let ask ← field q.record "ask" o.float
  let askQty ← field q.record "ask_qty" o.float
  return {
    time := toMillis recvTs, sym := sym, venue := venue, updateID := updateId,
    bid := bid, bidSize := bidQty, ask := ask, askSize := askQty }

/-- What `parse_live_ticks` asks of a record whose id `int` accepts: the fields are there and
convert. -/
structure CompleteTick (o : Outside) (t : Payload o "trade_id") : Prop where
  tradeTs : Succeeds (field t.record "trade_ts" o.int)
  eventTs : Succeeds (field t.record "event_ts" o.int)
  symbol : Succeeds (t.record.index "symbol")
  venue : Succeeds (t.record.index "venue")
  price : Succeeds (field t.record "price" o.float)
  qty : Succeeds (field t.record "qty" o.float)
  isBuyerMaker : Succeeds (t.record.index "is_buyer_maker")

/-- What `parse_live_quotes` asks of a record whose id `int` accepts. -/
structure CompleteQuote (o : Outside) (q : Payload o "update_id") : Prop where
  recvTs : Succeeds (field q.record "recv_ts" o.int)
  symbol : Succeeds (q.record.index "symbol")
  venue : Succeeds (q.record.index "venue")
  bid : Succeeds (field q.record "bid" o.float)
  bidQty : Succeeds (field q.record "bid_qty" o.float)
  ask : Succeeds (field q.record "ask" o.float)
  askQty : Succeeds (field q.record "ask_qty" o.float)

theorem Payload.succeeds_id {o : Outside} {key : String} (p : Payload o key) :
    Succeeds (field p.record key o.int) := by
  obtain ⟨v, n, hv, hn, -⟩ := p.accepted
  exact ⟨n, bind_eq_ok.mpr ⟨v, hv, hn⟩⟩

/-- A record parses when its fields are there and convert; its id does already. -/
theorem succeeds_parseLiveTick {o : Outside} {t : Payload o "trade_id"} :
    Succeeds (parseLiveTick o t) ↔ CompleteTick o t := by
  simp only [parseLiveTick, succeeds_bind]
  constructor
  · rintro ⟨a, ha, b, hb, c, hc, d, hd, e, he, f, hf, g, hg, i, hi, -⟩
    exact ⟨⟨a, ha⟩, ⟨b, hb⟩, ⟨c, hc⟩, ⟨d, hd⟩, ⟨f, hf⟩, ⟨g, hg⟩, ⟨i, hi⟩⟩
  · rintro ⟨⟨a, ha⟩, ⟨b, hb⟩, ⟨c, hc⟩, ⟨d, hd⟩, ⟨f, hf⟩, ⟨g, hg⟩, ⟨i, hi⟩⟩
    obtain ⟨e, he⟩ := t.succeeds_id
    exact ⟨a, ha, b, hb, c, hc, d, hd, e, he, f, hf, g, hg, i, hi, succeeds_ok _⟩

theorem succeeds_parseLiveQuote {o : Outside} {q : Payload o "update_id"} :
    Succeeds (parseLiveQuote o q) ↔ CompleteQuote o q := by
  simp only [parseLiveQuote, succeeds_bind]
  constructor
  · rintro ⟨a, ha, b, hb, c, hc, e, he, d, hd, f, hf, g, hg, i, hi, -⟩
    exact ⟨⟨a, ha⟩, ⟨b, hb⟩, ⟨c, hc⟩, ⟨d, hd⟩, ⟨f, hf⟩, ⟨g, hg⟩, ⟨i, hi⟩⟩
  · rintro ⟨⟨a, ha⟩, ⟨b, hb⟩, ⟨c, hc⟩, ⟨d, hd⟩, ⟨f, hf⟩, ⟨g, hg⟩, ⟨i, hi⟩⟩
    obtain ⟨e, he⟩ := q.succeeds_id
    exact ⟨a, ha, b, hb, c, hc, e, he, d, hd, f, hf, g, hg, i, hi, succeeds_ok _⟩

/-! ## The network thread -/

/-- `FeedHandler`, as far as payloads change it. -/
structure RawHandler (o : Outside) where
  queue : List (Queued o)
  dropped : Nat
  roller : RdbRoller
  lastId : HashKey → Option SortKey
  lastQuoteId : HashKey → Option SortKey

/-- `_on_message`. -/
def RawHandler.onMessage {o : Outside} (h : RawHandler o) (m : Message) :
    Except PyErr (RawHandler o) :=
  match decode o m with
  | .ok r =>
      if h.queue.length < queueMaxsize then .ok { h with queue := h.queue ++ [r] }
      else .ok { h with dropped := h.dropped + 1 }
  | .error e => if malformed e then .ok h else .error e

/-- An infinite float: `int` raises an `OverflowError` on it. -/
def infinite : Json → Bool
  | .num .posInf => true
  | .num .negInf => true
  | _ => false

/-- The network thread takes the message: `json.loads` raises nothing but what `_on_message`
catches (as it does on a payload nested too deep), and the id is not infinite. -/
structure Readable (o : Outside) (m : Message) : Prop where
  loads : ∀ e, o.loads m.payload = .error e → malformed e = true
  id : ∀ j v, o.loads m.payload = .ok j
    → j.index (if m.isQuote then "update_id" else "trade_id") = .ok v → infinite v = false

theorem malformed_of_index {j : Json} {key : String} {e : PyErr} (h : j.index key = .error e) :
    malformed e = true := by
  rcases Json.index_eq_error h with rfl | rfl
  · rfl
  · rfl

/-- `int` raises on a JSON value what `_on_message` catches, unless the value is infinite. -/
theorem malformed_of_int {o : Outside} {v : Json} {e : PyErr} (h : o.int v = .error e) :
    malformed e = !infinite v := by
  cases v with
  | null => cases h; rfl
  | bool b => cases h
  | num n =>
      cases n with
      | rat q => cases h
      | posInf => cases h; rfl
      | negInf => cases h; rfl
      | nan => cases h; rfl
  | str s =>
      simp only [Outside.int, Json.toInt] at h
      split at h
      · cases h
      · cases h
        rfl
  | arr l => cases h; rfl
  | obj m => cases h; rfl

theorem infinite_int {o : Outside} {v : Json} (h : infinite v = true) :
    o.int v = .error .overflowError := by
  cases v with
  | num n =>
      cases n with
      | rat q => cases h
      | posInf => rfl
      | negInf => rfl
      | nan => cases h
  | null => cases h
  | bool b => cases h
  | str s => cases h
  | arr l => cases h
  | obj m => cases h

/-- The check of a payload raises what the subscript or `int` raises. -/
theorem accept_eq_error {o : Outside} {key : String} {j : Json} {e : PyErr} :
    accept o key j = .error e ↔ j.index key = .error e
      ∨ ∃ v, j.index key = .ok v ∧ o.int v = .error e := by
  unfold accept
  split
  · rename_i e' hv
    simp [hv]
  · rename_i v hv
    split
    · rename_i e' hn
      simp [hv, hn]
    · rename_i n hn
      simp [hv, hn]

/-- A payload is let through or dropped unless its id is infinite. -/
theorem accept_fine_iff {o : Outside} {key : String} {j : Json} :
    (∀ e, accept o key j = .error e → malformed e = true)
      ↔ ∀ v, j.index key = .ok v → infinite v = false := by
  constructor
  · intro h v hv
    cases hinf : infinite v with
    | false => rfl
    | true =>
        have hraise := h .overflowError (accept_eq_error.mpr (Or.inr ⟨v, hv, infinite_int hinf⟩))
        cases hraise
  · intro h e he
    rcases accept_eq_error.mp he with hindex | ⟨v, hv, hint⟩
    · exact malformed_of_index hindex
    · rw [malformed_of_int hint, h v hv]
      rfl

theorem decode_eq_error {o : Outside} {m : Message} {e : PyErr} :
    decode o m = .error e ↔ o.loads m.payload = .error e ∨ ∃ j, o.loads m.payload = .ok j
      ∧ (m.isQuote = true ∧ accept o "update_id" j = .error e
        ∨ m.isQuote = false ∧ accept o "trade_id" j = .error e) := by
  unfold decode
  rw [bind_eq_error]
  refine or_congr Iff.rfl (exists_congr (fun j => and_congr Iff.rfl ?_))
  cases m.isQuote with
  | true =>
      rw [if_pos rfl, bind_pure_eq_error]
      simp
  | false =>
      rw [if_neg Bool.false_ne_true, bind_pure_eq_error]
      simp

/-- The `try` block raises only what is caught, exactly for the readable messages. -/
theorem decode_fine_iff {o : Outside} {m : Message} :
    (∀ e, decode o m = .error e → malformed e = true) ↔ Readable o m := by
  have hid : ∀ j, (∀ e, (m.isQuote = true ∧ accept o "update_id" j = .error e
        ∨ m.isQuote = false ∧ accept o "trade_id" j = .error e) → malformed e = true)
      ↔ ∀ v, j.index (if m.isQuote then "update_id" else "trade_id") = .ok v
        → infinite v = false := by
    intro j
    rw [← accept_fine_iff (o := o)]
    cases m.isQuote with
    | true => simp
    | false => simp
  constructor
  · intro h
    refine ⟨fun e he => h e (decode_eq_error.mpr (Or.inl he)), fun j v hj => ?_⟩
    exact (hid j).mp (fun e he => h e (decode_eq_error.mpr (Or.inr ⟨j, hj, he⟩))) v
  · intro h e he
    rcases decode_eq_error.mp he with hloads | ⟨j, hj, hraise⟩
    · exact h.loads e hloads
    · exact (hid j).mpr (fun v => h.id j v hj) e hraise

theorem RawHandler.succeeds_onMessage {o : Outside} {h : RawHandler o} {m : Message} :
    Succeeds (h.onMessage m) ↔ Readable o m := by
  rw [← decode_fine_iff, onMessage]
  cases hd : decode o m with
  | ok r =>
      refine iff_of_true ?_ (fun e he => by cases he)
      dsimp only
      split
      · exact succeeds_ok _
      · exact succeeds_ok _
  | error e =>
      dsimp only
      cases he : malformed e with
      | true =>
          refine iff_of_true (succeeds_ok h) (fun e' he' => ?_)
          cases he'
          exact he
      | false =>
          refine iff_of_false (not_succeeds_error e) (fun hall => ?_)
          rw [hall e rfl] at he
          cases he

/-- **No readable message stops the network thread**, and every other one does. -/
theorem RawHandler.succeeds_messages {o : Outside} {ms : List Message} {h : RawHandler o} :
    Succeeds (ms.foldlM RawHandler.onMessage h) ↔ ∀ m ∈ ms, Readable o m :=
  succeeds_foldlM_of_forall (fun _ _ => succeeds_onMessage)

end NanoTick
