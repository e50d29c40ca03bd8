import NanoTick.Basic.Dedup
import NanoTick.Ingest.Buffer
import Mathlib.Tactic

set_option autoImplicit false

/-! # Exactly once, with the documented consumer

The sink promises at-least-once delivery; its wire protocol asks the consumer to drop what it has
seen by the sequence number and to acknowledge "everything up to and including" a number. The
simplest such consumer keeps one number, the highest received: it processes what is above it and
acknowledges it. `exactlyOnce` says that this is enough: whatever is lost, resent, delayed on an
old connection or evicted, every message is processed once and in order unless it was evicted.

That an acknowledgement of the highest number promises nothing false comes from the order on a
connection: what is below a number is before it there, or was received, or evicted (`Covered`).
-/

namespace NanoTick

open Python Runs TcpSink

namespace Uplink

variable {μ : Type}

/-! ## The consumer -/

/-- The highest number received. -/
def highest (w : Uplink) : Nat := w.received.foldl max 0

/-- What the consumer has processed: each number above all before it. -/
def processed (w : Uplink) : List Nat :=
  (Dedup.keepAbove (fun k : Nat => (k : Int)) (some 0) w.received).1

/-- The consumer acknowledges no more than the highest number it has received. -/
def AcksReceived (w : Uplink) (a : Action μ) : Prop :=
  ∀ c r, a = .reply c r → ∀ n, ackOf r = some n → ∀ k : Nat, n.ge k = true → k ≤ w.highest

/-- Every number handed out is processed once, in order, or still buffered, or was evicted and
counted. -/
structure ExactlyOnce (w : Uplink) : Prop where
  ordered : w.processed.Pairwise (· < ·)
  handedOut : ∀ k ∈ w.processed, 1 ≤ k ∧ k < w.sink.nextSeq
  delivered : ∀ k, 1 ≤ k → k < w.sink.nextSeq →
    k ∈ w.processed ∨ k ∈ w.sink.queue.map Entry.seq ∨ k ∈ w.evicted
  evictedOnce : w.evicted.Nodup
  counted : w.evicted.length = w.sink.dropped

/-! ## What holds in every state -/

/-- Below a number of a list: before it there, or received, or evicted. -/
def Covered (received evicted l : List Nat) : Prop :=
  ∀ pre k post, l = pre ++ k :: post → ∀ j, 1 ≤ j → j < k → j ∈ pre ∨ j ∈ received ∨ j ∈ evicted

structure Complete (w : Uplink) : Prop where
  inv : w.Inv
  numbered : 1 ≤ w.sink.nextSeq ∧ ∀ e ∈ w.sink.queue, 1 ≤ e.seq
  flow : ∀ c, ∃ got, w.written c = got ++ (w.wire c).map Entry.seq ∧ ∀ k ∈ got, k ∈ w.received
  covered : ∀ c, Covered w.received w.evicted (w.written c)
  known : ∀ c, ∀ k ∈ w.written c, 1 ≤ k ∧ k < w.sink.nextSeq
  receivedKnown : ∀ k ∈ w.received, 1 ≤ k ∧ k < w.sink.nextSeq
  complete : ∀ k ∈ w.received, ∀ j, 1 ≤ j → j < k → j ∈ w.received ∨ j ∈ w.evicted
  current : ∀ send ack, w.phase = .live send ack →
    ∀ e ∈ w.sink.unacked, e.seq ∈ w.written w.conn
  once : ∀ k ∈ w.received, k ∈ w.processed ∨ k ∈ w.evicted

/-! ### Acknowledged numbers -/

/-- Only `Infinity` has no count, and it acknowledges every number. -/
theorem ge_of_count_none {n : PyNum} (h : n.count = none) (k : Int) : n.ge k = true := by
  cases n with
  | posInf => rfl
  | _ => cases h

/-- A number acknowledges all it counts. -/
theorem ge_of_le_count {n : PyNum} {m k : Nat} (h : n.count = some m) (hk : 1 ≤ k) (hkm : k ≤ m) :
    n.ge k = true := by
  cases n with
  | rat q =>
      cases h
      have hfloor : (k : Int) ≤ ⌊q⌋ := by omega
      exact decide_eq_true (Int.le_floor.mp hfloor)
  | posInf => rfl
  | _ =>
      cases h
      omega

/-- The line counts no further than the highest number. -/
def countsReceived (w : Uplink) (r : Reply) : Bool :=
  match ackOf r with
  | none => true
  | some n => n.count.any (fun m => decide (m ≤ w.highest))

theorem acksReceived_reply (w : Uplink) (c : Nat) (r : Reply) :
    w.AcksReceived (.reply c r : Action μ) ↔ w.countsReceived r = true := by
  unfold countsReceived
  constructor
  · intro h
    cases hack : ackOf r with
    | none => rfl
    | some n =>
        cases hcount : n.count with
        | none =>
            have hle := h c r rfl n hack (w.highest + 1) (ge_of_count_none hcount _)
            omega
        | some m =>
            dsimp only
            rw [hcount, Option.any_some, decide_eq_true_iff]
            cases m with
            | zero => exact Nat.zero_le _
            | succ m => exact h c r rfl n hack (m + 1) (ge_of_le_count hcount (by omega) le_rfl)
  · rintro h c' r' ha n hack k hge
    cases ha
    rw [hack] at h
    cases hcount : n.count with
    | none =>
        simp only [hcount] at h
        cases h
    | some m =>
        simp only [hcount] at h
        exact (PyNum.ge_of_count hcount hge).trans (of_decide_eq_true h)

instance (w : Uplink) : ∀ a : Action μ, Decidable (w.AcksReceived a)
  | .reply c r => decidable_of_iff _ (acksReceived_reply w c r).symm
  | .send _ | .dialFails | .connects | .wakes | .sendLoop | .drainFails | .readReply | .readFails
  | .reap _ | .receive _ => isTrue (fun _ _ h => by cases h)

/-! ### The list of numbers received -/

theorem foldl_max_mem (l : List Nat) (m : Nat) : l.foldl max m = m ∨ l.foldl max m ∈ l := by
  induction l generalizing m with
  | nil => exact Or.inl rfl
  | cons a l ih =>
      rw [List.foldl_cons]
      rcases ih (max m a) with h | h
      · rw [h]
        rcases max_cases m a with ⟨hmax, -⟩ | ⟨hmax, -⟩
        · exact Or.inl hmax
        · right
          rw [hmax]
          exact List.mem_cons_self
      · exact Or.inr (List.mem_cons_of_mem a h)

/-- The floor of the consumer is the highest number received. -/
theorem keepAbove_floor (w : Uplink) :
    (Dedup.keepAbove (fun k : Nat => (k : Int)) (some 0) w.received).2
      = some (w.highest : Int) := by
  rw [Dedup.keepAbove_snd]
  have hfold : ∀ (l : List Nat) (m : Nat),
      (l.map (fun k : Nat => (k : Int))).foldl Dedup.raise (some (m : Int))
        = some ((l.foldl max m : Nat) : Int) := by
    intro l
    induction l with
    | nil => exact fun m => rfl
    | cons a l ih =>
        intro m
        rw [List.map_cons, List.foldl_cons, List.foldl_cons, ← ih (max m a)]
        congr 1
        exact congrArg some (Nat.cast_max (α := Int) m a).symm
  exact hfold w.received 0

/-- What is processed was received. -/
theorem mem_received_of_processed {w : Uplink} {k : Nat} (h : k ∈ w.processed) : k ∈ w.received :=
  (Dedup.mem_of_mem_keepAbove h).1

/-- The highest number received, if any is. -/
theorem highest_mem {w : Uplink} (h : 1 ≤ w.highest) : w.highest ∈ w.received := by
  rcases foldl_max_mem w.received 0 with hzero | hmem
  · have hnone : w.highest = 0 := hzero
    omega
  · exact hmem

theorem Covered.mono {R R' E E' l : List Nat} (h : Covered R E l) (hR : ∀ k ∈ R, k ∈ R')
    (hE : ∀ k ∈ E, k ∈ E') : Covered R' E' l :=
  fun pre k post hl j hj hjk => (h pre k post hl j hj hjk).imp id (Or.imp (hR j) (hE j))

/-- A number written last, everything below which is accounted for. -/
theorem Covered.concat {R E l : List Nat} {n : Nat} (h : Covered R E l)
    (hn : ∀ j, 1 ≤ j → j < n → j ∈ l ∨ j ∈ R ∨ j ∈ E) : Covered R E (l ++ [n]) := by
  intro pre k post hl j hj hjk
  rcases List.eq_nil_or_concat post with rfl | ⟨post, b, rfl⟩
  · obtain ⟨rfl, hlast⟩ := List.append_inj' hl rfl
    cases hlast
    exact hn j hj hjk
  · rw [List.concat_eq_append, ← List.cons_append, ← List.append_assoc] at hl
    exact h pre k post (List.append_inj' hl rfl).1 j hj hjk

/-- Nothing up to the highest number received is missing. -/
theorem Complete.upToHighest {w : Uplink} (h : w.Complete) {k : Nat} (hk : 1 ≤ k)
    (hle : k ≤ w.highest) : k ∈ w.received ∨ k ∈ w.evicted := by
  have hmem : w.highest ∈ w.received := highest_mem (hk.trans hle)
  rcases Nat.lt_or_eq_of_le hle with hlt | rfl
  · exact h.complete _ hmem k hk hlt
  · exact Or.inl hmem

/-- An acknowledgement of nothing above the highest number is one the consumer may send. -/
theorem Complete.mayReply {w : Uplink} (h : w.Complete) {r : Reply}
    (hr : ∀ n, ackOf r = some n → ∀ k : Nat, n.ge k = true → k ≤ w.highest) :
    w.mayReply r = true := by
  unfold Uplink.mayReply
  cases hack : ackOf r with
  | none => rfl
  | some n =>
      dsimp only
      cases hcount : n.count with
      | none =>
          have hge : n.ge ((w.highest + 1 : Nat) : Int) = true := ge_of_count_none hcount _
          have hle := hr n hack (w.highest + 1) hge
          omega
      | some m =>
          dsimp only
          rw [List.all_eq_true]
          intro k hk
          obtain ⟨hk1, hkm⟩ := List.mem_range'_1.mp hk
          have hle : k ≤ w.highest :=
            hr n hack k (ge_of_le_count hcount hk1 (by omega))
          exact decide_eq_true (h.upToHighest hk1 hle)

/-! ### One action -/

section

variable {dumps : Nat → μ → Except PyErr (List UInt8)} {w w' : Uplink}

theorem complete_init (maxBufferBytes : Int) : (init maxBufferBytes).Complete where
  inv := inv_init maxBufferBytes
  numbered := ⟨le_refl 1, fun _ he => absurd he List.not_mem_nil⟩
  flow := fun _ => ⟨[], rfl, fun _ hk => absurd hk List.not_mem_nil⟩
  covered := fun _ _ _ _ hl => absurd hl.symm (List.append_ne_nil_of_right_ne_nil _ (by simp))
  known := fun _ _ hk => absurd hk List.not_mem_nil
  receivedKnown := fun _ hk => absurd hk List.not_mem_nil
  complete := fun _ hk => absurd hk List.not_mem_nil
  current := fun _ _ hphase => by cases hphase
  once := fun _ hk => absurd hk List.not_mem_nil

/-- What writes nothing and receives nothing. -/
theorem Complete.quiet (h : w.Complete) (hinv : w'.Inv) (hwire : w'.wire = w.wire)
    (hwritten : w'.written = w.written) (hreceived : w'.received = w.received)
    (hevicted : ∀ k ∈ w.evicted, k ∈ w'.evicted) (hnext : w.sink.nextSeq ≤ w'.sink.nextSeq)
    (hqueue : ∀ e ∈ w'.sink.queue, 1 ≤ e.seq)
    (hcurrent : ∀ send ack, w'.phase = .live send ack →
      ∀ e ∈ w'.sink.unacked, e.seq ∈ w'.written w'.conn) : w'.Complete where
  inv := hinv
  numbered := ⟨h.numbered.1.trans hnext, hqueue⟩
  flow := by
    rw [hwritten, hwire, hreceived]
    exact h.flow
  covered := by
    rw [hwritten, hreceived]
    exact fun c => (h.covered c).mono (fun _ hk => hk) hevicted
  known := by
    rw [hwritten]
    exact fun c k hk => ⟨(h.known c k hk).1, (h.known c k hk).2.trans_le hnext⟩
  receivedKnown := by
    rw [hreceived]
    exact fun k hk => ⟨(h.receivedKnown k hk).1, (h.receivedKnown k hk).2.trans_le hnext⟩
  complete := by
    rw [hreceived]
    exact fun k hk j hj hjk => (h.complete k hk j hj hjk).imp id (hevicted j)
  current := hcurrent
  once := by
    have hprocessed : w'.processed = w.processed := by rw [processed, processed, hreceived]
    rw [hreceived, hprocessed]
    exact fun k hk => (h.once k hk).imp id (hevicted k)

/-- A write: what is below the entry is written before it, or was received, or evicted. -/
theorem Complete.writes (h : w.Complete) {send send' : SendLoop} {ack : AckLoop}
    (hphase : w.phase = .live send ack) {entry : Entry} {us : List Entry}
    (hunsent : w.sink.unsent = entry :: us) (hinv : Inv { w.write entry with
      sink := { w.sink with unsent := us, unacked := w.sink.unacked ++ [entry] }
      phase := .live send' ack }) :
    Complete { w.write entry with
      sink := { w.sink with unsent := us, unacked := w.sink.unacked ++ [entry] }
      phase := .live send' ack } := by
  have hqueue : w.sink.queue = w.sink.unacked ++ entry :: us := by rw [queue, hunsent]
  have hmem : entry ∈ w.sink.queue := by
    rw [hqueue]
    exact List.mem_append_right _ List.mem_cons_self
  have hknown : 1 ≤ entry.seq ∧ entry.seq < w.sink.nextSeq :=
    ⟨h.numbered.2 entry hmem, h.inv.accounted.handedOut entry hmem⟩
  have hsame : w.sink.unacked ++ [entry] ++ us = w.sink.queue := by
    rw [hqueue, List.append_assoc]
    rfl
  refine ⟨hinv, ⟨h.numbered.1, ?_⟩, ?_, ?_, ?_, h.receivedKnown, h.complete, ?_, h.once⟩
  · intro e he
    have he : e ∈ w.sink.unacked ++ [entry] ++ us := he
    rw [hsame] at he
    exact h.numbered.2 e he
  · intro c
    obtain ⟨got, hgot, hreceived⟩ := h.flow c
    refine ⟨got, ?_, hreceived⟩
    show Function.update w.written w.conn (w.written w.conn ++ [entry.seq]) c
      = got ++ (Function.update w.wire w.conn (w.wire w.conn ++ [entry]) c).map Entry.seq
    by_cases hc : c = w.conn
    · subst hc
      rw [Function.update_self, Function.update_self, List.map_append, hgot, List.append_assoc]
      rfl
    · rw [Function.update_of_ne hc, Function.update_of_ne hc]
      exact hgot
  · intro c
    show Covered w.received w.evicted
      (Function.update w.written w.conn (w.written w.conn ++ [entry.seq]) c)
    by_cases hc : c = w.conn
    · subst hc
      rw [Function.update_self]
      refine (h.covered w.conn).concat (fun j hj hjk => ?_)
      rcases h.inv.accounted.accounted j hj (hjk.trans hknown.2) with hR | hq | hE
      · exact Or.inr (Or.inl hR)
      · -- what is still buffered below the entry was written on this connection
        obtain ⟨e, he, rfl⟩ := List.mem_map.mp hq
        have hincreasing := h.inv.accounted.increasing
        rw [hqueue] at he hincreasing
        rcases List.mem_append.mp he with hua | hus
        · exact Or.inl (h.current send ack hphase e hua)
        · rcases List.mem_cons.mp hus with rfl | hus
          · exact absurd hjk (lt_irrefl _)
          · have hafter := (List.pairwise_cons.mp (List.pairwise_append.mp hincreasing).2.1).1
            exact absurd hjk (not_lt.mpr (hafter e hus).le)
      · exact Or.inr (Or.inr hE)
    · rw [Function.update_of_ne hc]
      exact h.covered c
  · intro c k hk
    have hk : k ∈ Function.update w.written w.conn (w.written w.conn ++ [entry.seq]) c := hk
    by_cases hc : c = w.conn
    · subst hc
      rw [Function.update_self, List.mem_append, List.mem_singleton] at hk
      rcases hk with hk | rfl
      · exact h.known _ k hk
      · exact hknown
    · rw [Function.update_of_ne hc] at hk
      exact h.known c k hk
  · intro _ _ _ e he
    show e.seq ∈ Function.update w.written w.conn (w.written w.conn ++ [entry.seq]) w.conn
    rw [Function.update_self, List.mem_append]
    rcases List.mem_append.mp he with he | he
    · exact Or.inl (h.current send ack hphase e he)
    · rw [List.mem_singleton.mp he]
      exact Or.inr (List.mem_singleton_self _)

/-- A message arrives: what is below it arrived before it, or was evicted. -/
theorem Complete.receives (h : w.Complete) {c : Nat} {entry : Entry} {rest : List Entry}
    (hwire : w.wire c = entry :: rest) (hinv : Inv { w with
      wire := Function.update w.wire c rest, received := w.received ++ [entry.seq] }) :
    Complete { w with
      wire := Function.update w.wire c rest, received := w.received ++ [entry.seq] } := by
  obtain ⟨got, hgot, hreceived⟩ := h.flow c
  rw [hwire, List.map_cons] at hgot
  have hold : ∀ k ∈ w.received, k ∈ w.received ++ [entry.seq] :=
    fun k hk => List.mem_append_left _ hk
  have hwritten : entry.seq ∈ w.written c := by
    rw [hgot]
    exact List.mem_append_right _ List.mem_cons_self
  have hbelow : ∀ j, 1 ≤ j → j < entry.seq → j ∈ w.received ∨ j ∈ w.evicted := by
    intro j hj hjk
    rcases h.covered c got entry.seq (rest.map Entry.seq) hgot j hj hjk with hpre | hR | hE
    · exact Or.inl (hreceived j hpre)
    · exact Or.inl hR
    · exact Or.inr hE
  refine ⟨hinv, h.numbered, ?_, ?_, h.known, ?_, ?_, h.current, ?_⟩
  · intro c'
    show ∃ got', w.written c' = got' ++ (Function.update w.wire c rest c').map Entry.seq
      ∧ ∀ k ∈ got', k ∈ w.received ++ [entry.seq]
    by_cases hc : c' = c
    · subst hc
      refine ⟨got ++ [entry.seq], ?_, ?_⟩
      · rw [Function.update_self, hgot, List.append_assoc]
        rfl
      · intro k hk
        rcases List.mem_append.mp hk with hk | hk
        · exact hold k (hreceived k hk)
        · exact List.mem_append_right _ hk
    · obtain ⟨got', hgot', hreceived'⟩ := h.flow c'
      rw [Function.update_of_ne hc]
      exact ⟨got', hgot', fun k hk => hold k (hreceived' k hk)⟩
  · exact fun c' => (h.covered c').mono hold (fun _ hk => hk)
  · intro k hk
    rcases List.mem_append.mp hk with hk | hk
    · exact h.receivedKnown k hk
    · rw [List.mem_singleton.mp hk]
      exact h.known c entry.seq hwritten
  · intro k hk j hj hjk
    rcases List.mem_append.mp hk with hk | hk
    · exact (h.complete k hk j hj hjk).imp (hold j) id
    · rw [List.mem_singleton.mp hk] at hjk
      exact (hbelow j hj hjk).imp (hold j) id
  · intro k hk
    show k ∈ (Dedup.keepAbove (fun k : Nat => (k : Int)) (some 0) (w.received ++ [entry.seq])).1
      ∨ k ∈ w.evicted
    rw [Dedup.keepAbove_concat, keepAbove_floor, List.mem_append]
    rcases List.mem_append.mp hk with hk | hk
    · exact (h.once k hk).imp Or.inl id
    · rw [List.mem_singleton] at hk
      subst hk
      cases habove : Dedup.isAbove (some (w.highest : Int)) entry.seq with
      | true => exact Or.inl (Or.inr (List.mem_singleton_self _))
      | false =>
          -- it is not new: everything up to the highest number was received or evicted
          have hle : entry.seq ≤ w.highest := by
            have hnot : ¬ (w.highest : Int) < entry.seq := of_decide_eq_false habove
            omega
          rcases h.upToHighest (h.known c _ hwritten).1 hle with hR | hE
          · exact (h.once _ hR).imp Or.inl id
          · exact Or.inr hE

/-- **One action** of the sink or of this consumer. -/
theorem complete_step {a : Action μ} (h : w.Complete) (hack : w.AcksReceived a)
    (hs : anyStep dumps w a = some w') : w'.Complete := by
  -- such a consumer sends only what it may
  have hstep : step dumps w a = some w' := by
    cases a with
    | reply c r =>
        obtain ⟨hconn, hs⟩ := Option.ite_none_right_eq_some.mp hs
        rw [step, if_pos ⟨hconn, h.mayReply (hack c r rfl)⟩]
        exact hs
    | _ => exact hs
  have hinv : w'.Inv := inv_step h.inv hstep
  have hkeep : ∀ k ∈ w.evicted, k ∈ w.evicted := fun _ hk => hk
  cases stepped_of_step hstep with
  | send message =>
      rcases send_spec dumps w.sink message with
        ⟨hsink, hpop⟩ | ⟨line, hq, hnext, hdrop, hua, hus⟩
      · refine h.quiet hinv rfl rfl rfl (fun _ hk => List.mem_append_left _ hk) ?_ ?_ ?_
        · exact (congrArg TcpSink.nextSeq hsink).ge
        · rw [hsink]
          exact h.numbered.2
        · rw [hsink]
          exact h.current
      · refine h.quiet hinv rfl rfl rfl (fun _ hk => List.mem_append_left _ hk) ?_ ?_ ?_
        · show w.sink.nextSeq ≤ (w.sink.send dumps message).1.nextSeq
          omega
        · intro e he
          have hin : e ∈ w.sink.queue ++ [⟨w.sink.nextSeq, line⟩] := by
            rw [hq]
            exact List.mem_append_right _ he
          rcases List.mem_append.mp hin with hin | hin
          · exact h.numbered.2 e hin
          · rw [List.mem_singleton.mp hin]
            exact h.numbered.1
        · exact fun send ack hphase e he => h.current send ack hphase e (hua.subset he)
  | dialFails hphase =>
      exact h.quiet hinv rfl rfl rfl hkeep le_rfl h.numbered.2 (fun _ _ hp => by cases hp)
  | connects hphase =>
      refine h.quiet hinv rfl rfl rfl hkeep le_rfl ?_ (fun _ _ _ _ he => ?_)
      · show ∀ e ∈ w.sink.requeue.queue, 1 ≤ e.seq
        rw [requeue_queue]
        exact h.numbered.2
      · exact absurd he List.not_mem_nil
  | wakes hphase =>
      exact h.quiet hinv rfl rfl rfl hkeep le_rfl h.numbered.2 (fun _ _ hp => by cases hp)
  | waits hphase hpass =>
      exact h.quiet hinv rfl rfl rfl hkeep le_rfl h.numbered.2 (fun _ _ _ => h.current _ _ hphase)
  | writes hphase hunsent hpass => exact h.writes hphase hunsent hinv
  | drainFails hphase =>
      exact h.quiet hinv rfl rfl rfl hkeep le_rfl h.numbered.2 (fun _ _ _ => h.current _ _ hphase)
  | @readReply send r rest hphase hreplies =>
      obtain ⟨acked, hua, hus, hnext, -, -⟩ := ackLine_spec w.sink r
      have hunacked : ∀ e ∈ (w.sink.ackLine r).1.unacked, e ∈ w.sink.unacked := by
        intro e he
        rw [hua]
        exact List.mem_append_right _ he
      refine h.quiet hinv rfl rfl rfl hkeep hnext.ge ?_ ?_
      · intro e he
        refine h.numbered.2 e ?_
        rcases List.mem_append.mp he with he | he
        · exact List.mem_append_left _ (hunacked e he)
        · exact List.mem_append_right _ (hus ▸ he)
      · exact fun _ _ _ e he => h.current _ _ hphase e (hunacked e he)
  | readFails hphase =>
      exact h.quiet hinv rfl rfl rfl hkeep le_rfl h.numbered.2 (fun _ _ _ => h.current _ _ hphase)
  | reap hphase hraised =>
      refine h.quiet hinv rfl rfl rfl hkeep le_rfl h.numbered.2 (fun _ _ hp => ?_)
      split at hp <;> cases hp
  | receive hwire => exact h.receives hwire hinv
  | reply hconn => exact h.quiet hinv rfl rfl rfl hkeep le_rfl h.numbered.2 h.current

end

theorem Complete.exactlyOnce {w : Uplink} (h : w.Complete) : w.ExactlyOnce where
  ordered := by
    have hasc : Paging.Ascending (fun k : Nat => (k : Int)) w.processed :=
      Dedup.ascending_keepAbove _ _
    exact hasc.imp (fun hlt => Int.ofNat_lt.mp hlt)
  handedOut := fun k hk => h.receivedKnown k (mem_received_of_processed hk)
  delivered := by
    intro k hk hkn
    rcases h.inv.accounted.accounted k hk hkn with hR | hq | hE
    · exact (h.once k hR).imp id Or.inr
    · exact Or.inr (Or.inl hq)
    · exact Or.inr (Or.inr hE)
  evictedOnce := h.inv.accounted.evictedOrder.imp (fun hlt => ne_of_lt hlt)
  counted := h.inv.accounted.counted

/-- **Exactly once.** With a consumer that processes what is above its highest number and never
acknowledges above it, in every state of every interleaving: the numbers processed ascend, so
each is processed once, and every number handed out is processed, still buffered, or was
evicted and counted. -/
theorem processed_exactlyOnce (dumps : Nat → μ → Except PyErr (List UInt8)) (maxBufferBytes : Int)
    (as : List (Action μ)) (hack : AllSteps (anyStep dumps) AcksReceived (init maxBufferBytes) as) :
    Always (anyStep dumps) ExactlyOnce (init maxBufferBytes) as := by
  have hcomplete : Always (anyStep dumps) Complete (init maxBufferBytes) as :=
    always_of_allSteps (fun _ _ _ h hack hs => complete_step h hack hs)
      (complete_init maxBufferBytes) hack
  exact hcomplete.imp (fun _ h => h.exactlyOnce)

/-- One and two messages sent before the first connection. -/
def oneSent : Uplink := { init 1000 with sink := ⟨1000, [⟨1, [32, 10]⟩], [], 122, 2, true, 0⟩ }

def twoSent : Uplink :=
  { init 1000 with sink := ⟨1000, [⟨1, [32, 10]⟩, ⟨2, [32, 10]⟩], [], 244, 3, true, 0⟩ }

theorem anyStep_init : anyStep Tally.encoded (init 1000) (.send [32]) = some oneSent := by
  simp [anyStep, step, init, TcpSink.init, TcpSink.send, Tally.encoded, evict, Entry.cost,
    entryOverheadBytes, oneSent]

theorem anyStep_oneSent : anyStep Tally.encoded oneSent (.send [32]) = some twoSent := by
  simp [anyStep, step, init, TcpSink.send, Tally.encoded, evict, Entry.cost, entryOverheadBytes,
    oneSent, twoSent]

/-- The second message arrives on the first connection after the resend of the first on the
second one; an acknowledgement covers both. -/
def resentRun : List (Action (List UInt8)) :=
  [.connects, .sendLoop, .sendLoop, .receive 1, .drainFails, .reap .osError, .wakes, .connects,
    .sendLoop, .receive 2, .receive 1, .reply 2 (.ok (.obj [("ack", .num (.rat 2))])), .readReply]

/-- Three messages arrive, and both numbers are processed once. -/
theorem resentRun_exactlyOnce :
    ∃ w, exec (anyStep Tally.encoded) (init 1000) (.send [32] :: .send [32] :: resentRun) = some w
      ∧ w.ExactlyOnce ∧ w.received = [1, 1, 2] ∧ w.processed = [1, 2] := by
  have hexec : exec (anyStep Tally.encoded) (init 1000) (.send [32] :: .send [32] :: resentRun)
      = exec (anyStep Tally.encoded) twoSent resentRun := by
    rw [exec_cons, anyStep_init, Option.bind_some, exec_cons, anyStep_oneSent, Option.bind_some]
  have hacks : AllSteps (anyStep Tally.encoded) AcksReceived (init 1000)
      (.send [32] :: .send [32] :: resentRun) := by
    intro t ht
    cases anyStep_init.symm.trans ht
    refine ⟨fun _ _ h => (by cases h), fun t ht => ?_⟩
    cases anyStep_oneSent.symm.trans ht
    exact ⟨fun _ _ h => (by cases h), by decide +kernel⟩
  have hrun : ((exec (anyStep Tally.encoded) twoSent resentRun).map
      (fun w => (w.received, w.processed))) = some ([1, 1, 2], [1, 2]) := by decide +kernel
  rw [← hexec] at hrun
  obtain ⟨w, hw, hlists⟩ := Option.map_eq_some_iff.mp hrun
  obtain ⟨hreceived, hprocessed⟩ := Prod.mk.inj hlists
  exact ⟨w, hw, (processed_exactlyOnce Tally.encoded 1000 _ hacks).last hw, hreceived, hprocessed⟩

end Uplink

end NanoTick
