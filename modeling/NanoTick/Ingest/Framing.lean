import NanoTick.Basic.Decimals
import NanoTick.Basic.JsonLines
import NanoTick.Ingest.Consumer
import Mathlib.Tactic

set_option autoImplicit false

/-! # The bytes of the TCP sink

`send` encodes a message as the line `{"seq": n, ...message}`; the lines wait in the two deques,
are evicted, requeued and written, each connection carrying those the requeue and the cap leave.
The consumer sees bytes, cut anywhere. `stream_readable`: the complete lines of what it has of a
connection are the messages sent, each under its number, in the order they were written.

A run is followed with the messages sent so far and the bytes written on each connection.
-/

namespace NanoTick

open Python Runs TcpSink JsonText

/-! ## Messages and lines -/

/-- A dictionary. -/
abbrev Dict : Type := List (String × Json)

/-- `d[key] = value`: a key keeps its place. -/
def Dict.put (d : Dict) (e : String × Json) : Dict :=
  if e.1 ∈ d.map Prod.fst then d.map (fun x => if x.1 = e.1 then e else x) else d ++ [e]

/-- `{"seq": seq, **message}`. -/
def withSeq (seq : Nat) (message : Dict) : Json :=
  .obj (message.foldl Dict.put [("seq", .num (.rat seq))])

/-- The encoder of `send`. -/
def encodeLine (N : Numerals) (seq : Nat) (message : Dict) : Except PyErr (List UInt8) :=
  .ok (dumps N (withSeq seq message))

theorem Dict.index_put (d : Dict) (e : String × Json) (key : String) :
    (Json.obj (d.put e)).index key = if e.1 = key then .ok e.2 else (Json.obj d).index key := by
  unfold Dict.put
  by_cases hmem : e.1 ∈ d.map Prod.fst
  · rw [if_pos hmem]
    have hkey : ∀ x : String × Json, (if x.1 = e.1 then e else x).1 = x.1 := by
      intro x
      split
      · rename_i h
        exact h.symm
      · rfl
    have hfilter : (d.map (fun x => if x.1 = e.1 then e else x)).filter
        (fun x => decide (x.1 = key)) = (d.filter (fun x => decide (x.1 = key))).map
          (fun x => if x.1 = e.1 then e else x) := by
      rw [List.filter_map]
      refine congrArg _ (List.filter_congr (fun x _ => ?_))
      rw [Function.comp_apply, hkey]
    rw [Json.index, hfilter, List.getLast?_map]
    by_cases he : e.1 = key
    · rw [if_pos he]
      obtain ⟨x, hx, hxe⟩ := List.mem_map.mp hmem
      have hin : x ∈ d.filter (fun x => decide (x.1 = key)) :=
        List.mem_filter.mpr ⟨hx, decide_eq_true (hxe.trans he)⟩
      obtain ⟨y, hy⟩ := Option.isSome_iff_exists.mp
        (List.getLast?_isSome.mpr (List.ne_nil_of_mem hin))
      have hykey := (List.mem_filter.mp (List.mem_of_getLast? hy)).2
      rw [hy, Option.map_some, if_pos ((of_decide_eq_true hykey).trans he.symm)]
    · rw [if_neg he, Json.index]
      cases hlast : (d.filter (fun x => decide (x.1 = key))).getLast? with
      | none => rfl
      | some y =>
          have hykey := (List.mem_filter.mp (List.mem_of_getLast? hlast)).2
          rw [Option.map_some, if_neg (fun h => he (h.symm.trans (of_decide_eq_true hykey)))]
  · rw [if_neg hmem, Json.index, List.filter_append]
    by_cases he : e.1 = key
    · rw [if_pos he, List.filter_cons, if_pos (decide_eq_true he), List.filter_nil,
        List.getLast?_concat]
    · rw [if_neg he, List.filter_cons_of_neg (by simpa using he), List.filter_nil,
        List.append_nil, Json.index]

/-- The fields of a line: the number, unless the message has a `seq` of its own, and the fields of
the message. -/
theorem index_withSeq (seq : Nat) (message : Dict) (key : String) :
    (withSeq seq message).index key
      = if key ∈ message.map Prod.fst then (Json.obj message).index key
        else if key = "seq" then .ok (.num (.rat seq)) else .error .keyError := by
  have hfold : ∀ (m d : Dict), (Json.obj (m.foldl Dict.put d)).index key
      = if key ∈ m.map Prod.fst then (Json.obj m).index key else (Json.obj d).index key := by
    intro m
    induction m with
    | nil => exact fun d => rfl
    | cons e m ih =>
        intro d
        rw [List.foldl_cons, ih, Dict.index_put, List.map_cons]
        by_cases hrest : key ∈ m.map Prod.fst
        · obtain ⟨x, hx, hxe⟩ := List.mem_map.mp hrest
          have hin : x ∈ m.filter (fun x => decide (x.1 = key)) :=
            List.mem_filter.mpr ⟨hx, decide_eq_true hxe⟩
          rw [if_pos hrest, if_pos (List.mem_cons_of_mem _ hrest), Json.index, Json.index,
            List.filter_cons]
          split_ifs with he
          · rw [List.getLast?_cons_of_ne_nil (List.ne_nil_of_mem hin)]
          · rfl
        · have hnone : m.filter (fun x => decide (x.1 = key)) = [] := by
            refine List.filter_eq_nil_iff.mpr (fun x hx hxe => hrest ?_)
            exact List.mem_map.mpr ⟨x, hx, of_decide_eq_true hxe⟩
          rw [if_neg hrest]
          by_cases he : e.1 = key
          · rw [if_pos he, if_pos (he ▸ List.mem_cons_self), Json.index,
              List.filter_cons, if_pos (decide_eq_true he), hnone]
            rfl
          · rw [if_neg he, if_neg (by
              rw [List.mem_cons, not_or]
              exact ⟨fun h => he h.symm, hrest⟩)]
  have hone : (Json.obj [("seq", .num (.rat seq))]).index key
      = if key = "seq" then .ok (.num (.rat seq)) else .error .keyError := by
    by_cases hkey : key = "seq"
    · rw [if_pos hkey, hkey]
      rfl
    · rw [if_neg hkey, Json.index,
        List.filter_cons_of_neg (by simpa using fun h => hkey h.symm)]
      rfl
  rw [withSeq, hfold, hone]

section

variable {P : PyNum → Prop}

theorem allNumbers_put {d : Dict} {e : String × Json} (hd : ∀ x ∈ d, AllNumbers P x.2)
    (he : AllNumbers P e.2) : ∀ x ∈ d.put e, AllNumbers P x.2 := by
  intro x hx
  unfold Dict.put at hx
  split at hx
  · obtain ⟨y, hy, rfl⟩ := List.mem_map.mp hx
    split
    · exact he
    · exact hd y hy
  · rcases List.mem_append.mp hx with hx | hx
    · exact hd x hx
    · rw [List.mem_singleton.mp hx]
      exact he

theorem allNumbers_withSeq {seq : Nat} {message : Dict} (hseq : P (.rat seq))
    (hmessage : AllNumbers P (.obj message)) : AllNumbers P (withSeq seq message) := by
  have hfold : ∀ (m d : Dict), (∀ x ∈ m, AllNumbers P x.2) → (∀ x ∈ d, AllNumbers P x.2) →
      ∀ x ∈ m.foldl Dict.put d, AllNumbers P x.2 := by
    intro m
    induction m with
    | nil => exact fun d _ hd => hd
    | cons e m ih =>
        intro d hm hd
        obtain ⟨he, hm⟩ := List.forall_mem_cons.mp hm
        exact ih (d.put e) hm (allNumbers_put hd he)
  rw [allNumbers_obj] at hmessage
  refine allNumbers_obj.mpr (hfold message _ hmessage ?_)
  intro x hx
  rw [List.mem_singleton.mp hx]
  exact hseq

end

/-! ## Runs with their bytes -/

/-- A system with the messages sent and the bytes written on each connection. -/
structure Framing where
  uplink : Uplink
  sent : List Dict
  stream : Nat → List UInt8

namespace Framing

def init (maxBufferBytes : Int) : Framing := ⟨Uplink.init maxBufferBytes, [], fun _ => []⟩

/-- The messages sent after an action. -/
def sentAfter (sent : List Dict) : Uplink.Action Dict → List Dict
  | .send message => sent ++ [message]
  | _ => sent

/-- One action: what joins the wire of a connection is written on it. -/
def step (N : Numerals) (f : Framing) (a : Uplink.Action Dict) : Option Framing :=
  (Uplink.anyStep (encodeLine N) f.uplink a).map (fun w => {
    uplink := w
    sent := sentAfter f.sent a
    stream := fun c => f.stream c
      ++ ((w.wire c).drop (f.uplink.wire c).length).flatMap Entry.line })

/-- What was sent under a number. -/
def valueOf (sent : List Dict) (k : Nat) : Json := withSeq k ((sent[k - 1]?).getD [])

/-- An entry holds the line of the message sent under its number. -/
def Carries (N : Numerals) (sent : List Dict) (e : Entry) : Prop :=
  1 ≤ e.seq ∧ e.seq ≤ sent.length ∧ e.line = dumps N (valueOf sent e.seq) ++ [10]

structure Framed (N : Numerals) (f : Framing) : Prop where
  numbered : f.uplink.sink.nextSeq = f.sent.length + 1
  buffered : ∀ e ∈ f.uplink.sink.queue, Carries N f.sent e
  known : ∀ c, ∀ k ∈ f.uplink.written c, 1 ≤ k ∧ k ≤ f.sent.length
  streamed : ∀ c, f.stream c = jsonLines N ((f.uplink.written c).map (valueOf f.sent))

theorem valueOf_append (sent : List Dict) (m : Dict) {k : Nat} (hk : 1 ≤ k)
    (hle : k ≤ sent.length) : valueOf (sent ++ [m]) k = valueOf sent k := by
  rw [valueOf, valueOf, List.getElem?_append_left (by omega)]

theorem Carries.append {N : Numerals} {sent : List Dict} {e : Entry} (h : Carries N sent e)
    (m : Dict) : Carries N (sent ++ [m]) e := by
  obtain ⟨hk, hle, hline⟩ := h
  refine ⟨hk, ?_, ?_⟩
  · rw [List.length_append]
    omega
  · rw [valueOf_append sent m hk hle]
    exact hline

section

variable {N : Numerals} {f f' : Framing}

theorem framed_init (maxBufferBytes : Int) : Framed N (init maxBufferBytes) where
  numbered := rfl
  buffered := fun _ he => absurd he List.not_mem_nil
  known := fun _ _ hk => absurd hk List.not_mem_nil
  streamed := fun _ => rfl

/-- What sends nothing and writes nothing. -/
theorem Framed.quiet (h : Framed N f) {w : Uplink} (hnext : w.sink.nextSeq = f.uplink.sink.nextSeq)
    (hqueue : ∀ e ∈ w.sink.queue, e ∈ f.uplink.sink.queue)
    (hwritten : w.written = f.uplink.written)
    (hwire : ∀ c, (w.wire c).length ≤ (f.uplink.wire c).length) :
    Framed N { uplink := w, sent := f.sent, stream := fun c => f.stream c
      ++ ((w.wire c).drop (f.uplink.wire c).length).flatMap Entry.line } where
  numbered := hnext.trans h.numbered
  buffered := fun e he => h.buffered e (hqueue e he)
  known := hwritten ▸ h.known
  streamed := by
    intro c
    dsimp only
    rw [List.drop_eq_nil_of_le (hwire c), List.flatMap_nil, List.append_nil, hwritten]
    exact h.streamed c

/-- A call of `send`: the new entry carries the message. -/
theorem Framed.send (h : Framed N f) (message : Dict) :
    Framed N {
      uplink := { f.uplink with
        sink := (f.uplink.sink.send (encodeLine N) message).1
        evicted := f.uplink.evicted
          ++ (f.uplink.sink.send (encodeLine N) message).2.1.map Entry.seq }
      sent := f.sent ++ [message]
      stream := fun c => f.stream c
        ++ ((f.uplink.wire c).drop (f.uplink.wire c).length).flatMap Entry.line } := by
  have hnumbered := h.numbered
  have hlast : valueOf (f.sent ++ [message]) f.uplink.sink.nextSeq
      = withSeq f.uplink.sink.nextSeq message := by
    rw [valueOf, hnumbered, Nat.add_sub_cancel, List.getElem?_concat_length]
    rfl
  obtain ⟨hqueue, -, -, -⟩ := evict_spec f.uplink.sink.maxBufferBytes f.uplink.sink.unacked
    (f.uplink.sink.unsent ++ [⟨f.uplink.sink.nextSeq,
      dumps N (withSeq f.uplink.sink.nextSeq message) ++ [10]⟩])
    (f.uplink.sink.bufferedBytes + Entry.cost ⟨f.uplink.sink.nextSeq,
      dumps N (withSeq f.uplink.sink.nextSeq message) ++ [10]⟩) f.uplink.sink.dropped
  have hcarries : ∀ e ∈ f.uplink.sink.queue ++ [⟨f.uplink.sink.nextSeq,
      dumps N (withSeq f.uplink.sink.nextSeq message) ++ [10]⟩],
      Carries N (f.sent ++ [message]) e := by
    intro e he
    rcases List.mem_append.mp he with he | he
    · exact (h.buffered e he).append message
    · rw [List.mem_singleton.mp he]
      refine ⟨?_, ?_, ?_⟩
      · dsimp only
        omega
      · rw [List.length_append, List.length_singleton]
        dsimp only
        omega
      · rw [hlast]
  refine ⟨?_, ?_, ?_, ?_⟩
  · rw [List.length_append, List.length_singleton, ← hnumbered]
    rfl
  · intro e he
    refine hcarries e ?_
    rw [queue, List.append_assoc, hqueue]
    exact List.mem_append_right _ he
  · intro c k hk
    obtain ⟨hk, hle⟩ := h.known c k hk
    rw [List.length_append]
    exact ⟨hk, by omega⟩
  · intro c
    dsimp only
    rw [List.drop_length, List.flatMap_nil, List.append_nil, h.streamed]
    refine congrArg (jsonLines N) (List.map_congr_left (fun k hk => ?_))
    obtain ⟨hk, hle⟩ := h.known c k hk
    exact (valueOf_append f.sent message hk hle).symm

/-- A write: the line of the entry joins the bytes of the connection. -/
theorem Framed.write (h : Framed N f) {phase : Phase} {entry : Entry} {us : List Entry}
    (hunsent : f.uplink.sink.unsent = entry :: us) :
    Framed N {
      uplink := { f.uplink.write entry with
        sink := { f.uplink.sink with unsent := us, unacked := f.uplink.sink.unacked ++ [entry] }
        phase := phase }
      sent := f.sent
      stream := fun c => f.stream c
        ++ (((f.uplink.write entry).wire c).drop (f.uplink.wire c).length).flatMap
          Entry.line } := by
  have hqueue : f.uplink.sink.queue = f.uplink.sink.unacked ++ entry :: us := by
    rw [queue, hunsent]
  have hentry : Carries N f.sent entry := by
    refine h.buffered entry ?_
    rw [hqueue]
    exact List.mem_append_right _ List.mem_cons_self
  have hsame : f.uplink.sink.unacked ++ [entry] ++ us = f.uplink.sink.queue := by
    rw [hqueue, List.append_assoc]
    rfl
  refine ⟨h.numbered, ?_, ?_, ?_⟩
  · intro e he
    have he : e ∈ f.uplink.sink.unacked ++ [entry] ++ us := he
    rw [hsame] at he
    exact h.buffered e he
  · intro c k hk
    have hk : k ∈ Function.update f.uplink.written f.uplink.conn
        (f.uplink.written f.uplink.conn ++ [entry.seq]) c := hk
    by_cases hc : c = f.uplink.conn
    · subst hc
      rw [Function.update_self, List.mem_append, List.mem_singleton] at hk
      rcases hk with hk | rfl
      · exact h.known _ k hk
      · exact ⟨hentry.1, hentry.2.1⟩
    · rw [Function.update_of_ne hc] at hk
      exact h.known c k hk
  · intro c
    show f.stream c ++ ((Function.update f.uplink.wire f.uplink.conn
        (f.uplink.wire f.uplink.conn ++ [entry]) c).drop (f.uplink.wire c).length).flatMap
          Entry.line
      = jsonLines N ((Function.update f.uplink.written f.uplink.conn
        (f.uplink.written f.uplink.conn ++ [entry.seq]) c).map (valueOf f.sent))
    by_cases hc : c = f.uplink.conn
    · subst hc
      rw [Function.update_self, Function.update_self, List.drop_left, List.flatMap_singleton,
        List.map_append, h.streamed, hentry.2.2, jsonLines, jsonLines, List.flatMap_append]
      exact congrArg _ (List.append_nil _).symm
    · rw [Function.update_of_ne hc, Function.update_of_ne hc, List.drop_length, List.flatMap_nil,
        List.append_nil]
      exact h.streamed c

/-- **One action** keeps the lines and the bytes. -/
theorem framed_step {a : Uplink.Action Dict} (h : Framed N f) (hs : step N f a = some f') :
    Framed N f' := by
  obtain ⟨w, hw, rfl⟩ := Option.map_eq_some_iff.mp hs
  have hkeep : ∀ e ∈ f.uplink.sink.queue, e ∈ f.uplink.sink.queue := fun _ he => he
  cases Uplink.stepped_of_anyStep hw with
  | send message => exact h.send message
  | dialFails hphase => exact h.quiet rfl hkeep rfl (fun _ => le_rfl)
  | connects hphase =>
      refine h.quiet rfl ?_ rfl (fun _ => le_rfl)
      show ∀ e ∈ f.uplink.sink.requeue.queue, e ∈ f.uplink.sink.queue
      rw [requeue_queue]
      exact hkeep
  | wakes hphase => exact h.quiet rfl hkeep rfl (fun _ => le_rfl)
  | waits hphase hpass => exact h.quiet rfl hkeep rfl (fun _ => le_rfl)
  | writes hphase hunsent hpass => exact h.write hunsent
  | drainFails hphase => exact h.quiet rfl hkeep rfl (fun _ => le_rfl)
  | @readReply send r rest hphase hreplies =>
      obtain ⟨hqueue, -, hnext, -, -⟩ := ackLine_queue f.uplink.sink r
      refine h.quiet hnext (fun e he => ?_) rfl (fun _ => le_rfl)
      rw [hqueue]
      exact List.mem_append_right _ he
  | readFails hphase => exact h.quiet rfl hkeep rfl (fun _ => le_rfl)
  | reap hphase hraised => exact h.quiet rfl hkeep rfl (fun _ => le_rfl)
  | @receive c entry rest hwire =>
      refine h.quiet rfl hkeep rfl (fun c' => ?_)
      show (Function.update f.uplink.wire c rest c').length ≤ (f.uplink.wire c').length
      by_cases hc : c' = c
      · subst hc
        rw [Function.update_self, hwire, List.length_cons]
        omega
      · rw [Function.update_of_ne hc]
  | reply hconn => exact h.quiet rfl hkeep rfl (fun _ => le_rfl)

end

/-! ## Every interleaving -/

/-- What the consumer can read of each connection: of any part received from the start the
complete lines are the first lines written, and of everything they are all of them; each has the
fields of the message sent under its number, and that number. -/
structure StreamReadable (N : Numerals) (f : Framing) : Prop where
  fields : ∀ c, ∀ k ∈ f.uplink.written c, ∃ message, f.sent[k - 1]? = some message
    ∧ ∀ key, (valueOf f.sent k).index key
      = if key ∈ message.map Prod.fst then (Json.obj message).index key
        else if key = "seq" then .ok (.num (.rat k)) else .error .keyError
  part : ∀ c p, p <+: f.stream c → ∃ n, (readLines p).1.map (loadsBytes N)
    = ((f.uplink.written c).take n).map (fun k => .ok (valueOf f.sent k))
  whole : ∀ c, (readLines (f.stream c)).1.map (loadsBytes N)
    = (f.uplink.written c).map (fun k => .ok (valueOf f.sent k))

/-- **The bytes can be read.** In every state of every interleaving, with any cap and any lines
from the consumer: the complete lines of what has arrived on a connection parse to the messages
written there, each the message sent under its number. -/
theorem stream_readable (N : Numerals) (hseq : ∀ n : Nat, N.Reads (.rat n)) (maxBufferBytes : Int)
    (as : List (Uplink.Action Dict))
    (hmessages : ∀ message, .send message ∈ as → AllNumbers N.Reads (.obj message)) :
    Always (step N) (StreamReadable N) (init maxBufferBytes) as := by
  have hsent : ∀ f a f', (∀ m ∈ f.sent, AllNumbers N.Reads (.obj m)) →
      (∀ message, a = .send message → AllNumbers N.Reads (.obj message)) →
      step N f a = some f' → ∀ m ∈ f'.sent, AllNumbers N.Reads (.obj m) := by
    intro f a f' hf ha hs
    obtain ⟨w, -, rfl⟩ := Option.map_eq_some_iff.mp hs
    intro m hm
    cases a with
    | send message =>
        rcases List.mem_append.mp hm with hm | hm
        · exact hf m hm
        · rw [List.mem_singleton.mp hm]
          exact ha message rfl
    | _ => exact hf m hm
  have hactions : ∀ a ∈ as, ∀ message, a = .send message → AllNumbers N.Reads (.obj message) :=
    fun a ha message h => hmessages message (h ▸ ha)
  have hframed : Always (step N)
      (fun f => Framed N f ∧ ∀ m ∈ f.sent, AllNumbers N.Reads (.obj m)) (init maxBufferBytes) as :=
    always_of_allSteps (fun f a f' h ha hs => ⟨framed_step h.1 hs, hsent f a f' h.2 ha hs⟩)
      ⟨framed_init maxBufferBytes, fun _ hm => absurd hm List.not_mem_nil⟩
      (allSteps_of_forall hactions _)
  refine hframed.imp (fun f h => ?_)
  obtain ⟨hf, hnumbers⟩ := h
  have hvalues : ∀ c, ∀ v ∈ (f.uplink.written c).map (valueOf f.sent),
      AllNumbers N.Reads v := by
    intro c
    rw [List.forall_mem_map]
    intro k hk
    refine allNumbers_withSeq (hseq k) ?_
    cases hm : f.sent[k - 1]? with
    | none => exact allNumbers_obj.mpr (fun _ he => absurd he List.not_mem_nil)
    | some m => exact hnumbers m (List.mem_of_getElem? hm)
  refine ⟨fun c k hk => ?_, fun c p hp => ?_, fun c => ?_⟩
  · obtain ⟨hk, hle⟩ := hf.known c k hk
    have hmessage : f.sent[k - 1]? = some (f.sent.get ⟨k - 1, by omega⟩) :=
      List.getElem?_eq_getElem (by omega)
    refine ⟨_, hmessage, fun key => ?_⟩
    rw [valueOf, hmessage, Option.getD_some, index_withSeq]
  · rw [hf.streamed] at hp
    obtain ⟨n, hn⟩ := readLines_jsonLines (hvalues c) hp
    refine ⟨n, ?_⟩
    rw [hn, ← List.map_take, List.map_map]
    rfl
  · rw [hf.streamed, readLines_all (hvalues c), List.map_map]
    rfl

/-! ### A message on two connections -/

theorem evict_of_le {max bytes : Int} (h : bytes ≤ max) (ua us : List Entry) (dropped : Nat) :
    evict max ua us bytes dropped = ⟨ua, us, bytes, dropped, [], none⟩ := by
  cases ua with
  | nil => cases us <;> rw [evict, if_neg (not_lt.mpr h)]
  | cons e ua => rw [evict, if_neg (not_lt.mpr h)]

/-- A message with one field. -/
def priceMessage : Dict := [("price", .num (.rat (3 / 2)))]

/-- The message sent before the first connection. -/
def priceSent : Framing where
  uplink := { Uplink.init 1000 with
    sink := ⟨1000, [⟨1, dumps decimals (withSeq 1 priceMessage) ++ [10]⟩], [],
      Entry.cost ⟨1, dumps decimals (withSeq 1 priceMessage) ++ [10]⟩, 2, true, 0⟩ }
  sent := [priceMessage]
  stream := fun _ => []

theorem step_priceSent : step decimals (init 1000) (.send priceMessage) = some priceSent := by
  have hcost : Entry.cost ⟨1, dumps decimals (withSeq 1 priceMessage) ++ [10]⟩ ≤ 1000 := by
    decide +kernel
  have hsend : (TcpSink.init 1000).send (encodeLine decimals) priceMessage
      = (priceSent.uplink.sink, [], none) := by
    simp only [TcpSink.send, encodeLine, TcpSink.init, List.nil_append, zero_add,
      evict_of_le hcost, if_pos, priceSent]
  simp only [step, Uplink.anyStep, Uplink.step, init, Uplink.init, hsend, List.map_nil,
    List.append_nil, Option.map_some, sentAfter, List.nil_append, List.drop_nil, List.flatMap_nil]
  rfl

/-- It is written on a connection that is lost, and again on the next one. -/
def twiceRun : List (Uplink.Action Dict) :=
  [.connects, .sendLoop, .drainFails, .reap .osError, .wakes, .connects, .sendLoop]

/-- Each connection has the line once. -/
theorem stream_readable_twice :
    ∃ f, exec (step decimals) (init 1000) (.send priceMessage :: twiceRun) = some f
      ∧ StreamReadable decimals f ∧ f.uplink.written 1 = [1] ∧ f.uplink.written 2 = [1] := by
  have hexec : exec (step decimals) (init 1000) (.send priceMessage :: twiceRun)
      = exec (step decimals) priceSent twiceRun := by
    rw [exec_cons, step_priceSent, Option.bind_some]
  have hrun : ((exec (step decimals) priceSent twiceRun).map
      (fun f => (f.uplink.written 1, f.uplink.written 2))) = some ([1], [1]) := by decide +kernel
  rw [← hexec] at hrun
  obtain ⟨f, hf, hwritten⟩ := Option.map_eq_some_iff.mp hrun
  obtain ⟨hone, htwo⟩ := Prod.mk.inj hwritten
  have hseq : ∀ n : Nat, decimals.Reads (.rat n) := fun n => decimals_reads (by
    rw [← Nat.cast_ofNat, ← Nat.cast_mul]
    exact Rat.den_natCast _)
  have hall := stream_readable decimals hseq 1000 (.send priceMessage :: twiceRun) (by
    intro message hmessage
    simp only [twiceRun, List.mem_cons, Uplink.Action.send.injEq, reduceCtorEq,
      List.not_mem_nil, or_false] at hmessage
    subst hmessage
    refine allNumbers_obj.mpr (fun e he => ?_)
    rw [List.mem_singleton.mp he]
    exact decimals_reads (by norm_num))
  exact ⟨f, hf, hall.last hf, hone, htwo⟩

end Framing

end NanoTick
