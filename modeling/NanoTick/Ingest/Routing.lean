import NanoTick.Basic.Decimals
import NanoTick.Basic.JsonLines
import NanoTick.Backfill.ThreeSources
import Mathlib.Tactic

set_option autoImplicit false

/-! # From the stream to the feed handler's queue

`run` (`ingest/main.py`) takes the messages of the combined stream, normalises trades and book
tickers and hands them to `MqttSink.send`, which publishes their JSON under a topic that starts
with the kind of record. On the other side `_on_message` reads the topic and the payload again.

* `run_arrives`: what comes to the feed handler's queue is what was normalised, record for record
  and in order, whatever else the stream sends; a message that raises only loses itself.
* `market_arrives`: of the exchange's trades and book tickers the rows come out that they should.

Besides what `Outside` has, `str.lower`, the clock and what paho's `publish` does with each
message are parameters.
-/

namespace NanoTick

open Python Raising JsonText

/-! ## `run` -/

/-- `str.lower`, and `str` on a value that is no string. -/
structure Texts where
  lower : String → String
  str : Json → String

/-- A value in a format string. -/
def Texts.format (t : Texts) : Json → String
  | .str s => s
  | j => t.str j

/-- What `publish` does when it is called: take the message, answer that its queue is full, or
raise. -/
inductive Publish where
  | queued
  | full
  | raises (e : PyErr)
  deriving DecidableEq, Repr

/-- A round of `run`: the message, the clock in milliseconds, and what `publish` does if it is
called. -/
structure Round where
  msg : Json
  now : Int
  publish : Publish

/-- `MqttSink`, with what the client has taken. -/
structure MqttSink where
  published : List Message
  dropped : Nat
  deriving DecidableEq, Repr

/-- `s.endswith(suffix)`. -/
def endsWith (s suffix : String) : Bool := suffix.toList.isSuffixOf s.toList

/-- `normalize_quote`, without a receive time of its own. -/
def normalizeQuote (o : Outside) (now : Int) (msg : Json) : Except PyErr Json := do
  let symbol ← msg.index "s"
  let updateId ← msg.index "u"
  let bid ← field msg "b" o.float
  let bidQty ← field msg "B" o.float
  let ask ← field msg "a" o.float
  let askQty ← field msg "A" o.float
  return .obj [("venue", .str "binance"), ("symbol", symbol), ("update_id", updateId),
    ("bid", .num bid), ("bid_qty", .num bidQty), ("ask", .num ask), ("ask_qty", .num askQty),
    ("recv_ts", .num (.rat now))]

/-- The record a message is normalised to, with the root of its topic; none for a stream of
another name. -/
def routed (o : Outside) (now : Int) (msg : Json) : Except PyErr (Option (String × Json)) := do
  let streamName ← msg.index "stream"
  let data ← msg.index "data"
  match streamName with
  | .str name =>
      if endsWith name "@trade" then do
        let record ← normalizeTrade o data
        return some ("ticks", record)
      else if endsWith name "@bookTicker" then do
        let record ← normalizeQuote o now data
        return some ("quotes", record)
      else return none
  | _ => .error .attributeError

/-- The topic of a record. -/
def topicOf (t : Texts) (topicRoot : String) (message : Json) : Except PyErr String := do
  let venue ← message.index "venue"
  let symbol ← message.index "symbol"
  match symbol with
  | .str s => return topicRoot ++ "/" ++ t.format venue ++ "/" ++ t.lower s
  | _ => .error .attributeError

/-- `MqttSink.send`. -/
def MqttSink.send (t : Texts) (N : Numerals) (publish : Publish) (topicRoot : String)
    (sink : MqttSink) (message : Json) : Except PyErr MqttSink := do
  let topic ← topicOf t topicRoot message
  match publish with
  | .queued => return { sink with published := sink.published ++ [⟨topic, dumps N message⟩] }
  | .full => return { sink with dropped := sink.dropped + 1 }
  | .raises e => .error e

/-- The `try` of `run`. -/
def MqttSink.handle (o : Outside) (t : Texts) (N : Numerals) (sink : MqttSink) (r : Round) :
    Except PyErr MqttSink := do
  match ← routed o r.now r.msg with
  | some (topicRoot, record) => sink.send t N r.publish topicRoot record
  | none => return sink

/-- `run` over messages: any exception drops the message. -/
def run (o : Outside) (t : Texts) (N : Numerals) (rounds : List Round) : MqttSink :=
  rounds.foldl (fun sink r =>
    match sink.handle o t N r with
    | .ok sink' => sink'
    | .error _ => sink) ⟨[], 0⟩

/-! ## What a round sends -/

/-- The symbol of a record, if it is a string. -/
def symbolOf (record : Json) : Option String :=
  match record.index "symbol" with
  | .ok (.str s) => some s
  | _ => none

/-- The record that `publish` is called with, and the root of its topic. -/
def Round.sends (o : Outside) (r : Round) : Option (String × Json) :=
  match routed o r.now r.msg with
  | .ok (some sent) => if (symbolOf sent.2).isSome then some sent else none
  | _ => none

/-- The records that are published, in order. -/
def sent (o : Outside) (rounds : List Round) : List (String × Json) :=
  (rounds.filter (fun r => r.publish = .queued)).filterMap (Round.sends o)

/-- The key of the id that the feed handler checks. -/
def idKey (topicRoot : String) : String := if topicRoot = "quotes" then "update_id" else "trade_id"

/-- What the feed handler queues of a published record: nothing if its id is no number. -/
def arrival (o : Outside) (sent : String × Json) : Option (Queued o) :=
  if sent.1 = "quotes" then (accept o "update_id" sent.2).toOption.map Queued.quote
  else (accept o "trade_id" sent.2).toOption.map Queued.trade

/-- The topic of a record whose symbol is a string. -/
def topic (t : Texts) (topicRoot symbol : String) : String :=
  topicRoot ++ "/" ++ "binance" ++ "/" ++ t.lower symbol

/-- The message that a record is published as. -/
def messageOf (t : Texts) (N : Numerals) (sent : String × Json) : Message where
  topic := topic t sent.1 ((symbolOf sent.2).getD "")
  payload := dumps N sent.2

section

variable {o : Outside} {t : Texts} {N : Numerals}

/-- What is routed goes to one of two roots, as a record of the venue. -/
theorem routed_spec {now : Int} {msg : Json} {sent : String × Json}
    (h : routed o now msg = .ok (some sent)) :
    (sent.1 = "ticks" ∨ sent.1 = "quotes") ∧ sent.2.index "venue" = .ok (.str "binance") := by
  obtain ⟨name, -, h⟩ := bind_eq_ok.mp h
  obtain ⟨data, -, h⟩ := bind_eq_ok.mp h
  cases name with
  | str name =>
      simp only at h
      split at h
      · obtain ⟨record, hnormal, hret⟩ := bind_eq_ok.mp h
        cases hret
        refine ⟨Or.inl rfl, ?_⟩
        simp only [normalizeTrade, bind_eq_ok] at hnormal
        obtain ⟨_, -, _, -, _, -, _, -, _, -, _, -, _, -, hret⟩ := hnormal
        cases hret
        rfl
      · split at h
        · obtain ⟨record, hnormal, hret⟩ := bind_eq_ok.mp h
          cases hret
          refine ⟨Or.inr rfl, ?_⟩
          simp only [normalizeQuote, bind_eq_ok] at hnormal
          obtain ⟨_, -, _, -, _, -, _, -, _, -, _, -, hret⟩ := hnormal
          cases hret
          rfl
        · cases h
  | _ => cases h

/-- The topic of a record of the venue: none unless its symbol is a string. -/
theorem topicOf_eq {topicRoot : String} {record : Json}
    (hvenue : record.index "venue" = .ok (.str "binance")) :
    (topicOf t topicRoot record).toOption = (symbolOf record).map (topic t topicRoot) := by
  unfold topicOf symbolOf
  rw [hvenue]
  cases record.index "symbol" with
  | error e => rfl
  | ok symbol => cases symbol <;> rfl

/-- `send` on a record of the venue. -/
theorem send_eq (sink : MqttSink) (publish : Publish) {sent : String × Json}
    (hvenue : sent.2.index "venue" = .ok (.str "binance")) :
    (sink.send t N publish sent.1 sent.2).toOption
      = if (symbolOf sent.2).isSome then
          match publish with
          | .queued => some { sink with published := sink.published ++ [messageOf t N sent] }
          | .full => some { sink with dropped := sink.dropped + 1 }
          | .raises _ => none
        else none := by
  have htopic : (topicOf t sent.1 sent.2).toOption = (symbolOf sent.2).map (topic t sent.1) :=
    topicOf_eq hvenue
  unfold MqttSink.send messageOf
  cases hsymbol : symbolOf sent.2 with
  | none =>
      rw [hsymbol] at htopic
      cases h : topicOf t sent.1 sent.2 with
      | ok topic =>
          rw [h] at htopic
          cases htopic
      | error e => rfl
  | some s =>
      rw [hsymbol] at htopic
      cases h : topicOf t sent.1 sent.2 with
      | error e =>
          rw [h] at htopic
          cases htopic
      | ok topic =>
          rw [h] at htopic
          cases htopic
          cases publish <;> rfl

/-- The sink after a round of `run`. -/
def afterRound (o : Outside) (t : Texts) (N : Numerals) (sink : MqttSink) (r : Round) : MqttSink :=
  match r.sends o, r.publish with
  | some sent, .queued => { sink with published := sink.published ++ [messageOf t N sent] }
  | some _, .full => { sink with dropped := sink.dropped + 1 }
  | _, _ => sink

/-- **A round**: what it sends is published, or counted when the queue is full; an exception
changes nothing. -/
theorem round_eq (sink : MqttSink) (r : Round) :
    (match sink.handle o t N r with
      | .ok sink' => sink'
      | .error _ => sink) = afterRound o t N sink r := by
  have hkeep : ∀ x : Except PyErr MqttSink, (match x with
      | .ok sink' => sink'
      | .error _ => sink) = x.toOption.getD sink := by
    intro x
    cases x with
    | ok sink' => rfl
    | error e => rfl
  rw [hkeep]
  unfold MqttSink.handle afterRound Round.sends
  cases hrouted : routed o r.now r.msg with
  | error e => rfl
  | ok route =>
      cases route with
      | none => rfl
      | some sent =>
          change (sink.send t N r.publish sent.1 sent.2).toOption.getD sink = _
          rw [send_eq sink r.publish (routed_spec hrouted).2]
          dsimp only
          cases (symbolOf sent.2).isSome with
          | false => rfl
          | true => cases r.publish <;> rfl

theorem sent_cons (r : Round) (rounds : List Round) : sent o (r :: rounds)
    = (if r.publish = .queued then (r.sends o).toList else []) ++ sent o rounds := by
  rw [sent, List.filter_cons]
  cases r.publish with
  | queued =>
      rw [if_pos rfl, if_pos (decide_eq_true rfl), List.filterMap_cons]
      cases r.sends o <;> rfl
  | _ => rfl

/-- **`run`** publishes what its rounds send, in order, and counts what the full queue refused. -/
theorem run_eq (rounds : List Round) :
    (run o t N rounds).published = (sent o rounds).map (messageOf t N)
      ∧ (run o t N rounds).dropped
        = rounds.countP (fun r => (r.sends o).isSome && decide (r.publish = .full)) := by
  have hrun : ∀ sink : MqttSink,
      (rounds.foldl (afterRound o t N) sink).published
          = sink.published ++ (sent o rounds).map (messageOf t N)
        ∧ (rounds.foldl (afterRound o t N) sink).dropped = sink.dropped
          + rounds.countP (fun r => (r.sends o).isSome && decide (r.publish = .full)) := by
    induction rounds with
    | nil => exact fun sink => ⟨(List.append_nil _).symm, rfl⟩
    | cons r rounds ih =>
        intro sink
        obtain ⟨hpublished, hdropped⟩ := ih (afterRound o t N sink r)
        rw [List.foldl_cons, hpublished, hdropped, sent_cons, List.countP_cons]
        unfold afterRound
        cases hsends : r.sends o with
        | none => cases r.publish <;> exact ⟨rfl, rfl⟩
        | some x =>
            cases r.publish with
            | queued => exact ⟨by simp, rfl⟩
            | full =>
                refine ⟨rfl, ?_⟩
                simp only [Option.isSome_some, decide_true, Bool.and_self, if_pos]
                omega
            | raises e => exact ⟨rfl, rfl⟩
  have hfold : run o t N rounds = rounds.foldl (afterRound o t N) ⟨[], 0⟩ := by
    refine congrArg (fun f => List.foldl f _ rounds) ?_
    funext sink r
    exact round_eq sink r
  rw [hfold]
  obtain ⟨hpublished, hdropped⟩ := hrun ⟨[], 0⟩
  exact ⟨hpublished.trans (List.nil_append _), hdropped.trans (Nat.zero_add _)⟩

/-! ## What arrives -/

theorem mem_sent {rounds : List Round} {x : String × Json} (h : x ∈ sent o rounds) :
    (x.1 = "ticks" ∨ x.1 = "quotes") ∧ ∃ s, symbolOf x.2 = some s := by
  obtain ⟨r, -, hr⟩ := List.mem_filterMap.mp h
  unfold Round.sends at hr
  cases hrouted : routed o r.now r.msg with
  | error e =>
      rw [hrouted] at hr
      cases hr
  | ok route =>
      rw [hrouted] at hr
      cases route with
      | none => cases hr
      | some y =>
          obtain ⟨hsymbol, hxy⟩ := Option.ite_none_right_eq_some.mp hr
          cases hxy
          exact ⟨(routed_spec hrouted).1, Option.isSome_iff_exists.mp hsymbol⟩

/-- The topic tells the kind. -/
theorem isQuote_messageOf {x : String × Json} (hroot : x.1 = "ticks" ∨ x.1 = "quotes") :
    (messageOf t N x).isQuote = decide (x.1 = "quotes") := by
  have htopic : (messageOf t N x).topic.toList
      = x.1.toList ++ "/binance/".toList ++ (t.lower ((symbolOf x.2).getD "")).toList := by
    simp [messageOf, topic]
  unfold Message.isQuote
  rw [htopic]
  rcases hroot with hroot | hroot
  · rw [hroot]
    rfl
  · rw [hroot]
    rfl

section

variable (ho : o.loads = loadsBytes N)

include ho

/-- **A published record is read back**: as the same record, and of the same kind. -/
theorem decode_messageOf {x : String × Json} (hroot : x.1 = "ticks" ∨ x.1 = "quotes")
    (hx : AllNumbers N.Reads x.2) : (decode o (messageOf t N x)).toOption = arrival o x := by
  have hloads : o.loads (messageOf t N x).payload = .ok x.2 := by
    rw [ho]
    exact loadsBytes_dumps hx
  unfold decode arrival
  rw [hloads, isQuote_messageOf hroot]
  change (if decide (x.1 = "quotes") = true then
      (accept o "update_id" x.2 >>= fun p => pure (Queued.quote p))
    else accept o "trade_id" x.2 >>= fun p => pure (Queued.trade p)).toOption = _
  by_cases hquote : x.1 = "quotes"
  · rw [if_pos (decide_eq_true hquote), if_pos hquote]
    cases accept o "update_id" x.2 <;> rfl
  · rw [if_neg (by simpa using hquote), if_neg hquote]
    cases accept o "trade_id" x.2 <;> rfl

/-- The network thread takes it unless its id is infinite. -/
theorem readable_messageOf {x : String × Json} (hroot : x.1 = "ticks" ∨ x.1 = "quotes")
    (hx : AllNumbers N.Reads x.2) : Readable o (messageOf t N x)
      ↔ ∀ v, x.2.index (idKey x.1) = .ok v → infinite v = false := by
  have hloads : o.loads (messageOf t N x).payload = .ok x.2 := by
    rw [ho]
    exact loadsBytes_dumps hx
  have hkey : (if (messageOf t N x).isQuote then "update_id" else "trade_id") = idKey x.1 := by
    rw [isQuote_messageOf hroot, idKey]
    by_cases hquote : x.1 = "quotes"
    · rw [if_pos hquote, if_pos (decide_eq_true hquote)]
    · rw [if_neg hquote, if_neg (by simpa using hquote)]
  constructor
  · intro h v hv
    refine h.id x.2 v hloads ?_
    rw [hkey]
    exact hv
  · intro h
    refine ⟨fun e he => ?_, fun j v hj hv => ?_⟩
    · rw [hloads] at he
      cases he
    · rw [hloads] at hj
      cases hj
      rw [hkey] at hv
      exact h v hv

end

/-- **Messages one after the other**: what is decoded is queued up to the queue's size, and what
there is no room for is counted. -/
theorem onMessages_eq {ms : List Message} (hms : ∀ m ∈ ms, Readable o m) {h : RawHandler o}
    (hroom : h.queue.length ≤ queueMaxsize) :
    ms.foldlM RawHandler.onMessage h = .ok { h with
      queue := h.queue ++ (ms.filterMap (fun m => (decode o m).toOption)).take
        (queueMaxsize - h.queue.length)
      dropped := h.dropped + ((ms.filterMap (fun m => (decode o m).toOption)).length
        - (queueMaxsize - h.queue.length)) } := by
  induction ms generalizing h with
  | nil =>
      rw [List.foldlM_nil, List.filterMap_nil, List.take_nil, List.append_nil, List.length_nil,
        Nat.zero_sub, Nat.add_zero]
      rfl
  | cons m ms ih =>
      obtain ⟨hm, hms⟩ := List.forall_mem_cons.mp hms
      rw [List.foldlM_cons]
      cases hd : decode o m with
      | error e =>
          have hquiet : h.onMessage m = .ok h := by
            unfold RawHandler.onMessage
            rw [hd]
            exact if_pos (decode_fine_iff.mpr hm e hd)
          refine bind_eq_ok.mpr ⟨h, hquiet, ?_⟩
          rw [ih hms hroom, List.filterMap_cons_none (by rw [hd]; rfl)]
      | ok r =>
          rw [List.filterMap_cons_some (b := r) (by rw [hd]; rfl)]
          by_cases hlt : h.queue.length < queueMaxsize
          · have hqueued : h.onMessage m = .ok { h with queue := h.queue ++ [r] } := by
              unfold RawHandler.onMessage
              rw [hd]
              exact if_pos hlt
            have hlen : (h.queue ++ [r]).length = h.queue.length + 1 := by simp
            refine bind_eq_ok.mpr ⟨_, hqueued, ?_⟩
            rw [ih hms (h := { h with queue := h.queue ++ [r] }) (by dsimp only; omega)]
            obtain ⟨room, hsplit⟩ : ∃ room, queueMaxsize - h.queue.length = room + 1 :=
              ⟨queueMaxsize - h.queue.length - 1, by omega⟩
            have hless : queueMaxsize - (h.queue ++ [r]).length = room := by omega
            dsimp only
            rw [hsplit, hless, List.take_succ_cons, List.append_assoc, List.singleton_append,
              List.length_cons, Nat.add_sub_add_right]
          · have hdropped : h.onMessage m = .ok { h with dropped := h.dropped + 1 } := by
              unfold RawHandler.onMessage
              rw [hd]
              exact if_neg hlt
            refine bind_eq_ok.mpr ⟨_, hdropped, ?_⟩
            rw [ih hms (h := { h with dropped := h.dropped + 1 }) hroom]
            have hfull : queueMaxsize - h.queue.length = 0 := by omega
            dsimp only
            rw [hfull, List.take_zero, List.take_zero, List.length_cons, Nat.sub_zero, Nat.sub_zero,
              Nat.add_assoc, Nat.add_comm 1]

/-- **What was normalised arrives.** For any messages of the stream, any clock and any answers of
the client: the network thread takes everything that is published exactly when no id is infinite;
then the queue grows by the records that were sent, in order, each as it was normalised and of
its kind, up to the queue's size. What the client had no room for, and what the handler had none
for, is counted. -/
theorem run_arrives (o : Outside) (t : Texts) (N : Numerals) (ho : o.loads = loadsBytes N)
    (rounds : List Round) (hwire : ∀ x ∈ sent o rounds, AllNumbers N.Reads x.2)
    (h : RawHandler o) (hroom : h.queue.length ≤ queueMaxsize) :
    (Succeeds ((run o t N rounds).published.foldlM RawHandler.onMessage h)
        ↔ ∀ x ∈ sent o rounds, ∀ v, x.2.index (idKey x.1) = .ok v → infinite v = false)
      ∧ (∀ h', (run o t N rounds).published.foldlM RawHandler.onMessage h = .ok h' →
          h' = { h with
            queue := h.queue ++ ((sent o rounds).filterMap (arrival o)).take
              (queueMaxsize - h.queue.length)
            dropped := h.dropped + (((sent o rounds).filterMap (arrival o)).length
              - (queueMaxsize - h.queue.length)) })
      ∧ (run o t N rounds).dropped
        = rounds.countP (fun r => (r.sends o).isSome && decide (r.publish = .full)) := by
  obtain ⟨hpublished, hdropped⟩ := run_eq (o := o) (t := t) (N := N) rounds
  have hsucceeds : Succeeds ((run o t N rounds).published.foldlM RawHandler.onMessage h)
      ↔ ∀ x ∈ sent o rounds, Readable o (messageOf t N x) := by
    rw [RawHandler.succeeds_messages, hpublished, List.forall_mem_map]
  have hdecode : ((sent o rounds).map (messageOf t N)).filterMap
      (fun m => (decode o m).toOption) = (sent o rounds).filterMap (arrival o) := by
    rw [List.filterMap_map]
    exact List.filterMap_congr (fun x hx => decode_messageOf ho (mem_sent hx).1 (hwire x hx))
  refine ⟨?_, fun h' hh' => ?_, hdropped⟩
  · rw [hsucceeds]
    exact forall₂_congr (fun x hx => readable_messageOf ho (mem_sent hx).1 (hwire x hx))
  · have hreadable := hsucceeds.mp ⟨h', hh'⟩
    rw [hpublished] at hh'
    rw [onMessages_eq (by rwa [List.forall_mem_map]) hroom, hdecode] at hh'
    exact (Except.ok.inj hh').symm

end

/-! ## The exchange's messages -/

/-- A best bid and ask of the exchange. -/
structure ExchangeQuote where
  updateId : Int
  bid : String
  bidQty : String
  ask : String
  askQty : String
  bid_decimal : IsDecimal bid
  bidQty_decimal : IsDecimal bidQty
  ask_decimal : IsDecimal ask
  askQty_decimal : IsDecimal askQty

namespace ExchangeQuote

/-- The quote as a message of the `@bookTicker` stream. -/
def message (symbol : Sym) (q : ExchangeQuote) : Json :=
  .obj [("u", .num (.rat q.updateId)), ("s", .str symbol), ("b", .str q.bid), ("B", .str q.bidQty),
    ("a", .str q.ask), ("A", .str q.askQty)]

/-- The record that is published of a quote, stamped with the time it is received. -/
def record (o : Outside) (symbol : Sym) (now : Int) (q : ExchangeQuote) : Json :=
  .obj [("venue", .str "binance"), ("symbol", .str symbol), ("update_id", .num (.rat q.updateId)),
    ("bid", .num (numberOf o q.bid)), ("bid_qty", .num (numberOf o q.bidQty)),
    ("ask", .num (numberOf o q.ask)), ("ask_qty", .num (numberOf o q.askQty)),
    ("recv_ts", .num (.rat now))]

/-- The row of a quote. -/
def row (o : Outside) (symbol : Sym) (now : Int) (q : ExchangeQuote) : QuoteTickRow where
  time := toMillis now
  sym := .str symbol
  venue := .str "binance"
  updateID := q.updateId
  bid := numberOf o q.bid
  bidSize := numberOf o q.bidQty
  ask := numberOf o q.ask
  askSize := numberOf o q.askQty

end ExchangeQuote

/-- A trade or a quote of a symbol, under a stream's name. -/
inductive MarketEvent where
  | trade (stream : String) (symbol : Sym) (t : ExchangeTrade)
  | quote (stream : String) (symbol : Sym) (q : ExchangeQuote)

namespace MarketEvent

/-- The message of the combined stream. -/
def message : MarketEvent → Json
  | .trade stream symbol t =>
      .obj [("stream", .str (stream ++ "@trade")), ("data", t.message symbol)]
  | .quote stream symbol q =>
      .obj [("stream", .str (stream ++ "@bookTicker")), ("data", q.message symbol)]

/-- The record it is normalised to, and the root of its topic. -/
def record (o : Outside) (now : Int) : MarketEvent → String × Json
  | .trade _ symbol t => ("ticks", t.record o symbol)
  | .quote _ symbol q => ("quotes", q.record o symbol now)

/-- The row it is parsed to in the end. -/
def row (o : Outside) (now : Int) : MarketEvent → TickRow ⊕ QuoteTickRow
  | .trade _ symbol t => .inl (t.row o symbol (toMillis t.eventTime))
  | .quote _ symbol q => .inr (q.row o symbol now)

end MarketEvent

/-- What a round hears: a message of the exchange, which the client takes, or something else. -/
inductive Heard where
  | event (e : MarketEvent) (now : Int)
  | other (r : Round)

namespace Heard

def round : Heard → Round
  | .event e now => ⟨e.message, now, .queued⟩
  | .other r => r

def record (o : Outside) : Heard → Option (String × Json)
  | .event e now => some (e.record o now)
  | .other _ => none

def row (o : Outside) : Heard → Option (TickRow ⊕ QuoteTickRow)
  | .event e now => some (e.row o now)
  | .other _ => none

end Heard

theorem mem_records {o : Outside} {heard : List Heard} {x : String × Json}
    (h : x ∈ heard.filterMap (Heard.record o)) :
    ∃ e now, Heard.event e now ∈ heard ∧ e.record o now = x := by
  obtain ⟨y, hy, hrecord⟩ := List.mem_filterMap.mp h
  cases y with
  | other r => cases hrecord
  | event e now => exact ⟨e, now, hy, Option.some.inj hrecord⟩

/-- The row of a queued record. -/
def Queued.row {o : Outside} : Queued o → Except PyErr (TickRow ⊕ QuoteTickRow)
  | .trade p => (parseLiveTick o p).map Sum.inl
  | .quote p => (parseLiveQuote o p).map Sum.inr

theorem endsWith_append (s suffix : String) : endsWith (s ++ suffix) suffix = true := by
  rw [endsWith, String.toList_append, List.isSuffixOf_iff_suffix]
  exact List.suffix_append _ _

/-- A book ticker's stream is no trade stream. -/
theorem endsWith_bookTicker (s : String) : endsWith (s ++ "@bookTicker") "@trade" = false := by
  rw [Bool.eq_false_iff]
  intro h
  rw [endsWith, String.toList_append, List.isSuffixOf_iff_suffix] at h
  obtain ⟨l, hl⟩ := h
  have hlast := congrArg (fun l => l.getLast?) hl
  simp at hlast

/-- An integer id is accepted. -/
theorem accept_int (o : Outside) {key : String} {record : Json} {k : Int}
    (h : record.index key = .ok (.num (.rat k))) :
    ∃ p, accept o key record = .ok p ∧ p.record = record := by
  cases haccept : accept o key record with
  | ok p =>
      refine ⟨p, rfl, ?_⟩
      unfold accept at haccept
      split at haccept
      · cases haccept
      · split at haccept
        · cases haccept
        · cases haccept
          rfl
  | error e =>
      rcases accept_eq_error.mp haccept with hindex | ⟨v, hv, hint⟩
      · rw [h] at hindex
        cases hindex
      · rw [h] at hv
        cases hv
        rw [toInt_int] at hint
        cases hint

/-- Its id is an integer. -/
theorem idKey_event (o : Outside) (e : MarketEvent) (now : Int) : ∀ v,
    (e.record o now).2.index (idKey (e.record o now).1) = .ok v → infinite v = false := by
  intro v hv
  cases e with
  | trade stream symbol t =>
      cases hv
      rfl
  | quote stream symbol q =>
      cases hv
      rfl

theorem accept_trade (o : Outside) (t : ExchangeTrade) (symbol : Sym) :
    ∃ p : Payload o "trade_id", accept o "trade_id" (t.record o symbol) = .ok p
      ∧ p.record = t.record o symbol := accept_int o (k := t.id) rfl

theorem accept_quote (o : Outside) (q : ExchangeQuote) (symbol : Sym) (now : Int) :
    ∃ p : Payload o "update_id", accept o "update_id" (q.record o symbol now) = .ok p
      ∧ p.record = q.record o symbol now := accept_int o (k := q.updateId) rfl

section

variable {o : Outside} {digit : Char → Bool} (hd : Documented o digit .ok)

include hd

theorem normalizeTrade_eq (t : ExchangeTrade) (symbol : Sym) :
    normalizeTrade o (t.message symbol) = .ok (t.record o symbol) := by
  obtain ⟨record, hrecord, hsame⟩ := bind_eq_ok.mp (normalizeTrade_message hd t symbol)
  cases hsame
  exact hrecord

theorem normalizeQuote_message (q : ExchangeQuote) (symbol : Sym) (now : Int) :
    normalizeQuote o now (q.message symbol) = .ok (q.record o symbol now) := by
  have hbid := float_decimal hd q.bid_decimal
  have hbidQty := float_decimal hd q.bidQty_decimal
  have hask := float_decimal hd q.ask_decimal
  have haskQty := float_decimal hd q.askQty_decimal
  refine bind_eq_ok.mpr ⟨.str symbol, rfl, bind_eq_ok.mpr ⟨.num (.rat q.updateId), rfl, ?_⟩⟩
  refine bind_eq_ok.mpr ⟨_, field_eq_ok rfl hbid, bind_eq_ok.mpr ⟨_, field_eq_ok rfl hbidQty, ?_⟩⟩
  exact bind_eq_ok.mpr ⟨_, field_eq_ok rfl hask, bind_eq_ok.mpr ⟨_, field_eq_ok rfl haskQty, rfl⟩⟩

/-- The row of a published quote. -/
theorem parseLiveQuote_record (q : ExchangeQuote) (symbol : Sym) (now : Int)
    {p : Payload o "update_id"} (hp : p.record = q.record o symbol now) :
    parseLiveQuote o p = .ok (q.row o symbol now) := by
  have hbid := float_numberOf hd q.bid_decimal
  have hbidQty := float_numberOf hd q.bidQty_decimal
  have hask := float_numberOf hd q.ask_decimal
  have haskQty := float_numberOf hd q.askQty_decimal
  unfold parseLiveQuote
  rw [hp]
  refine bind_eq_ok.mpr ⟨_, field_eq_ok rfl (toInt_int o now), ?_⟩
  refine bind_eq_ok.mpr ⟨.str symbol, rfl, bind_eq_ok.mpr ⟨.str "binance", rfl, ?_⟩⟩
  refine bind_eq_ok.mpr ⟨_, field_eq_ok rfl (toInt_int o q.updateId), ?_⟩
  refine bind_eq_ok.mpr ⟨_, field_eq_ok rfl hbid, bind_eq_ok.mpr ⟨_, field_eq_ok rfl hbidQty, ?_⟩⟩
  exact bind_eq_ok.mpr ⟨_, field_eq_ok rfl hask, bind_eq_ok.mpr ⟨_, field_eq_ok rfl haskQty, rfl⟩⟩

/-- A message of the exchange is sent as its record. -/
theorem sends_event (e : MarketEvent) (now : Int) :
    (Heard.event e now).round.sends o = some (e.record o now) := by
  have hrouted : routed o now e.message = .ok (some (e.record o now)) := by
    cases e with
    | trade stream symbol t =>
        refine bind_eq_ok.mpr ⟨.str (stream ++ "@trade"), rfl, ?_⟩
        refine bind_eq_ok.mpr ⟨t.message symbol, rfl, ?_⟩
        dsimp only
        rw [if_pos (endsWith_append _ _)]
        exact bind_eq_ok.mpr ⟨_, normalizeTrade_eq hd t symbol, rfl⟩
    | quote stream symbol q =>
        refine bind_eq_ok.mpr ⟨.str (stream ++ "@bookTicker"), rfl, ?_⟩
        refine bind_eq_ok.mpr ⟨q.message symbol, rfl, ?_⟩
        dsimp only
        rw [endsWith_bookTicker, if_neg Bool.false_ne_true, if_pos (endsWith_append _ _)]
        exact bind_eq_ok.mpr ⟨_, normalizeQuote_message hd q symbol now, rfl⟩
  have hsymbol : (symbolOf (e.record o now).2).isSome = true := by
    cases e with
    | trade stream symbol t => rfl
    | quote stream symbol q => rfl
  show (match routed o now e.message with
    | .ok (some sent) => if (symbolOf sent.2).isSome then some sent else none
    | _ => none) = _
  rw [hrouted]
  exact if_pos hsymbol

/-- Its record is queued, and parses to its row. -/
theorem arrival_event (e : MarketEvent) (now : Int) :
    ∃ q, arrival o (e.record o now) = some q ∧ q.row = .ok (e.row o now) := by
  cases e with
  | trade stream symbol t =>
      obtain ⟨p, haccept, hp⟩ := accept_trade o t symbol
      refine ⟨.trade p, ?_, ?_⟩
      · show (accept o "trade_id" (t.record o symbol)).toOption.map Queued.trade = _
        rw [haccept]
        rfl
      · show (parseLiveTick o p).map Sum.inl = _
        rw [parseLiveTick_eq, hp, liveRow_record hd]
        rfl
  | quote stream symbol q =>
      obtain ⟨p, haccept, hp⟩ := accept_quote o q symbol now
      refine ⟨.quote p, ?_, ?_⟩
      · show (accept o "update_id" (q.record o symbol now)).toOption.map Queued.quote = _
        rw [haccept]
        rfl
      · show (parseLiveQuote o p).map Sum.inr = _
        rw [parseLiveQuote_record hd q symbol now hp]
        rfl

/-- The records sent are those of the exchange's messages. -/
theorem sent_heard {heard : List Heard}
    (hother : ∀ r, Heard.other r ∈ heard → r.publish = .queued → r.sends o = none) :
    sent o (heard.map Heard.round) = heard.filterMap (Heard.record o) := by
  induction heard with
  | nil => rfl
  | cons x heard ih =>
      have hrest := ih (fun r hr => hother r (List.mem_cons_of_mem x hr))
      rw [List.map_cons, sent_cons, hrest]
      cases x with
      | event e now =>
          have hsends : (if (Heard.event e now).round.publish = .queued then
              ((Heard.event e now).round.sends o).toList else []) = [e.record o now] := by
            rw [sends_event hd]
            rfl
          rw [hsends]
          rfl
      | other r =>
          have hquiet : (if r.publish = .queued then (r.sends o).toList else []) = [] := by
            split
            · rename_i hqueued
              rw [hother r List.mem_cons_self hqueued]
              rfl
            · rfl
          rw [List.filterMap_cons_none rfl]
          exact congrArg (· ++ heard.filterMap (Heard.record o)) hquiet

/-- The rows of what arrives. -/
theorem rows_heard (heard : List Heard) :
    ((heard.filterMap (Heard.record o)).filterMap (arrival o)).map Queued.row
      = (heard.filterMap (Heard.row o)).map Except.ok := by
  induction heard with
  | nil => rfl
  | cons x heard ih =>
      cases x with
      | other r => exact ih
      | event e now =>
          obtain ⟨q, harrival, hrow⟩ := arrival_event hd e now
          change ((e.record o now :: heard.filterMap (Heard.record o)).filterMap
            (arrival o)).map Queued.row
              = (e.row o now :: heard.filterMap (Heard.row o)).map Except.ok
          rw [List.filterMap_cons_some harrival, List.map_cons, ih, hrow, List.map_cons]

end

/-- **The exchange's messages arrive.** Among whatever else the stream sends, as long as nothing
else is published: the network thread takes all that is published, and when there is room in the
queue it grows by one record for each trade and book ticker, in order, which the main thread
parses to the row of that trade or quote. -/
theorem market_arrives (o : Outside) (digit : Char → Bool) (hd : Documented o digit .ok) (t : Texts)
    (N : Numerals) (ho : o.loads = loadsBytes N) (heard : List Heard)
    (hother : ∀ r, Heard.other r ∈ heard → r.publish = .queued → r.sends o = none)
    (hwire : ∀ e now, Heard.event e now ∈ heard → AllNumbers N.Reads (e.record o now).2)
    (h : RawHandler o)
    (hroom : h.queue.length + (heard.filterMap (Heard.row o)).length ≤ queueMaxsize) :
    ∃ queued : List (Queued o), queued.map Queued.row = (heard.filterMap (Heard.row o)).map .ok
      ∧ (run o t N (heard.map Heard.round)).published.foldlM RawHandler.onMessage h
        = .ok { h with queue := h.queue ++ queued } := by
  have hsent := sent_heard hd hother
  have hrows := rows_heard hd heard
  have hlen : ((heard.filterMap (Heard.record o)).filterMap (arrival o)).length
      = (heard.filterMap (Heard.row o)).length := by
    have hlengths := congrArg List.length hrows
    rwa [List.length_map, List.length_map] at hlengths
  obtain ⟨hpublished, -⟩ := run_eq (o := o) (t := t) (N := N) (heard.map Heard.round)
  have hreadable : ∀ m ∈ (run o t N (heard.map Heard.round)).published, Readable o m := by
    rw [hpublished, hsent, List.forall_mem_map]
    intro x hx
    obtain ⟨e, now, hmem, rfl⟩ := mem_records hx
    have hroot : (e.record o now).1 = "ticks" ∨ (e.record o now).1 = "quotes" :=
      (mem_sent (hsent ▸ hx)).1
    exact (readable_messageOf ho hroot (hwire e now hmem)).mpr (idKey_event o e now)
  have hdecode : (run o t N (heard.map Heard.round)).published.filterMap
      (fun m => (decode o m).toOption)
      = (heard.filterMap (Heard.record o)).filterMap (arrival o) := by
    rw [hpublished, hsent, List.filterMap_map]
    refine List.filterMap_congr (fun x hx => ?_)
    obtain ⟨e, now, hmem, rfl⟩ := mem_records hx
    exact decode_messageOf ho (mem_sent (hsent ▸ hx)).1 (hwire e now hmem)
  refine ⟨_, hrows, ?_⟩
  rw [onMessages_eq hreadable (by omega), hdecode, List.take_of_length_le (by omega), hlen]
  have hnone : (heard.filterMap (Heard.row o)).length - (queueMaxsize - h.queue.length) = 0 := by
    omega
  rw [hnone, Nat.add_zero]

/-! ### A trade, something else and a quote -/

/-- The small library with JSON in bytes. -/
def wiredLibrary : Outside := { smallLibrary with loads := loadsBytes decimals }

theorem wiredLibrary_documented : Documented wiredLibrary Char.isDigit .ok where
  int_repr := smallLibrary_documented.int_repr
  float_decimal := smallLibrary_documented.float_decimal
  float_float := smallLibrary_documented.float_float
  digit_ascii := smallLibrary_documented.digit_ascii
  wire_eq := smallLibrary_documented.wire_eq

def lowerTexts : Texts := ⟨String.toLower, fun _ => ""⟩

def quoteNine : ExchangeQuote where
  updateId := 9
  bid := "1.5"
  bidQty := "2"
  ask := "2"
  askQty := "1.5"
  bid_decimal := tradeSeven.price_decimal
  bidQty_decimal := tradeSeven.qty_decimal
  ask_decimal := tradeSeven.qty_decimal
  askQty_decimal := tradeSeven.price_decimal

/-- An answer of the exchange that is no list of streams comes between the two. -/
def heardThree : List Heard :=
  [.event (.trade "btcusdt" "BTCUSDT" tradeSeven) 1786492800300,
    .other ⟨.arr [], 1786492800310, .queued⟩,
    .event (.quote "btcusdt" "BTCUSDT" quoteNine) 1786492800320]

theorem heardThree_other (r : Round) (hr : Heard.other r ∈ heardThree) (_ : r.publish = .queued) :
    r.sends wiredLibrary = none := by
  simp only [heardThree, List.mem_cons, Heard.other.injEq, reduceCtorEq, false_or,
    List.not_mem_nil, or_false] at hr
  subst hr
  rfl

theorem heardThree_wire (e : MarketEvent) (now : Int) (he : Heard.event e now ∈ heardThree) :
    AllNumbers decimals.Reads (e.record wiredLibrary now).2 := by
  have hint : ∀ k : Int, decimals.Reads (.rat k) := fun k => decimals_reads (by
    rw [← Int.cast_ofNat, ← Int.cast_mul]
    exact Rat.den_intCast _)
  have hhalf : decimals.Reads (.rat (3 / 2)) := decimals_reads (by norm_num)
  have htwo : decimals.Reads (.rat 2) := hint 2
  simp only [heardThree, List.mem_cons, Heard.event.injEq, reduceCtorEq, false_or,
    List.not_mem_nil, or_false] at he
  rcases he with ⟨rfl, rfl⟩ | ⟨rfl, rfl⟩
  · show AllNumbers decimals.Reads (.obj _)
    rw [allNumbers_obj]
    simp only [List.forall_mem_cons]
    exact ⟨trivial, trivial, hint _, hhalf, htwo, hint _, hint _, trivial,
      fun _ h => absurd h List.not_mem_nil⟩
  · show AllNumbers decimals.Reads (.obj _)
    rw [allNumbers_obj]
    simp only [List.forall_mem_cons]
    exact ⟨trivial, trivial, hint _, hhalf, htwo, htwo, hhalf, hint _,
      fun _ h => absurd h List.not_mem_nil⟩

/-- The queue of an idle handler takes the trade and the quote, with the rows they should have. -/
theorem market_arrives_two :
    ∃ queued : List (Queued wiredLibrary),
      queued.map Queued.row
          = [.ok (.inl (tradeSeven.row wiredLibrary "BTCUSDT" 1786492800240)),
            .ok (.inr (quoteNine.row wiredLibrary "BTCUSDT" 1786492800320))]
        ∧ (run wiredLibrary lowerTexts decimals (heardThree.map Heard.round)).published.foldlM
            RawHandler.onMessage (RawHandler.idle wiredLibrary)
          = .ok { RawHandler.idle wiredLibrary with queue := queued } :=
  market_arrives wiredLibrary Char.isDigit wiredLibrary_documented lowerTexts decimals rfl
    heardThree heardThree_other heardThree_wire (RawHandler.idle wiredLibrary) (by decide)

/-- The same messages: nothing infinite is sent, so the network thread takes what is published. -/
theorem run_arrives_two :
    Succeeds ((run wiredLibrary lowerTexts decimals
      (heardThree.map Heard.round)).published.foldlM RawHandler.onMessage
        (RawHandler.idle wiredLibrary)) := by
  have hsent := sent_heard wiredLibrary_documented heardThree_other
  refine (run_arrives wiredLibrary lowerTexts decimals rfl _ (fun x hx => ?_)
    (RawHandler.idle wiredLibrary) (by decide)).1.mpr (fun x hx => ?_)
  · obtain ⟨e, now, he, rfl⟩ := mem_records (hsent ▸ hx)
    exact heardThree_wire e now he
  · obtain ⟨e, now, -, rfl⟩ := mem_records (hsent ▸ hx)
    exact idKey_event wiredLibrary e now

end NanoTick
