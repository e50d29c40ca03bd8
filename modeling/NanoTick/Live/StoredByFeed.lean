import NanoTick.Live.Link
import Mathlib.Tactic

set_option autoImplicit false

/-! # Which ids a bridge and a feed store

The handler's calls, seen through the ids they leave in the store. A bridge adds the published
ids above the highest stored one and below its target (`bridge_ids`); the feed of a group adds
the group's ids above the floor (`feedGroup_ids`). Neither loses an id above what the store was
started with, and a group of one symbol leaves the others alone (`applyGroup_other`).
-/

namespace NanoTick

open Python Dedup

/-! ## What a bridge adds to the ids -/

section

variable (ex : Exchange) (published : Sym → Nat) (w : HdbWriter) (target : Option Int)

/-- A bridge inserts rows of its own symbol, and saves nothing down. -/
theorem bridge_inserts (s : Sym) :
    ∃ cols : List Trade, (∀ r ∈ cols, r.sym = s)
      ∧ (bridge (ex.services published) w s target).writer = w.insert cols := by
  cases hm : w.trueMaxId s with
  | none =>
      refine ⟨[], fun r hr => absurd hr List.not_mem_nil, ?_⟩
      rw [insert_nil]
      exact congrArg BridgeResult.writer (bridge_of_none hm target)
  | some m =>
      rw [bridge_serving (ex.serves published s) hm]
      refine ⟨_, ?_, rfl⟩
      intro r hr
      obtain ⟨t, -, rfl⟩ := List.mem_map.mp hr
      rfl

theorem bridge_ids_of_ne {s s' : Sym} (h : s' ≠ s) (k : Int) :
    k ∈ (bridge (ex.services published) w s' target).writer.ids s ↔ k ∈ w.ids s := by
  obtain ⟨cols, hsym, hw⟩ := bridge_inserts ex published w target s'
  rw [hw, mem_ids_insert]
  constructor
  · rintro (hk | ⟨r, hr, hs, -⟩)
    · exact hk
    · exact absurd ((hsym r hr).symm.trans hs) h
  · exact Or.inl

theorem mem_served {s : Sym} {n : Nat} {t : RestTrade} :
    t ∈ (ex.served s n).trades ↔ ∃ i < n, ex.trade s i = t := by
  rw [show (ex.served s n).trades = (List.range n).map (ex.trade s) from rfl, List.mem_map]
  simp only [List.mem_range]

/-- **A bridge adds exactly the published ids above the highest stored one**, up to its
target. -/
theorem bridge_ids {s : Sym} {m : Int} (hm : w.trueMaxId s = some m) (hpos : 0 ≤ m) (k : Int) :
    k ∈ (bridge (ex.services published) w s target).writer.ids s
      ↔ k ∈ w.ids s ∨ m < k ∧ k < published s ∧ ∀ x, target = some x → k < x := by
  rw [bridge_serving (ex.serves published s) hm, mem_ids_insert]
  refine or_congr Iff.rfl ⟨?_, ?_⟩
  · rintro ⟨r, hr, -, rfl⟩
    obtain ⟨t, ht, rfl⟩ := List.mem_map.mp hr
    obtain ⟨hmem, hlt, hbelow⟩ := Server.mem_gap.mp ht
    obtain ⟨i, hi, rfl⟩ := (mem_served ex).mp hmem
    refine ⟨hlt, ?_, hbelow⟩
    show (ex.trade s i).id < _
    rw [ex.id_trade]
    exact_mod_cast hi
  · rintro ⟨hlt, hpub, hbelow⟩
    -- the trade of id `k` is the one numbered `k`
    have hid : (ex.trade s k.toNat).id = k := by
      rw [ex.id_trade]
      omega
    refine ⟨_, List.mem_map_of_mem (Server.mem_gap.mpr ⟨?_, ?_, ?_⟩), rfl, hid⟩
    · exact (mem_served ex).mpr ⟨k.toNat, by omega, rfl⟩
    · rwa [hid]
    · rwa [hid]

end

/-! ## What a feed adds to the ids -/

/-- The ids of a store after rolls and inserts, above a floor that bounds what it was started
with: nothing is lost there. -/
theorem ids_afterFeed {hdb : Hdb} {r : RdbRoller} {f : Int} {s : Sym} (hdays : DaysKept hdb r)
    (hfloor : ∀ x ∈ hdb.trade.rows, x.sym = s → x.tradeID ≤ f) (day : Date) (cols : List Trade)
    (k : Int) :
    (k ∈ (r.afterFeed day cols).writer.ids s →
        k ∈ r.writer.ids s ∨ ∃ x ∈ cols, x.sym = s ∧ x.tradeID = k)
      ∧ (f < k → k ∈ r.writer.ids s → k ∈ (r.afterFeed day cols).writer.ids s)
      ∧ ((∃ x ∈ cols, x.sym = s ∧ x.tradeID = k) → k ∈ (r.afterFeed day cols).writer.ids s) := by
  obtain ⟨hsub, hlost⟩ := ids_roll hdays day s k
  show (k ∈ ((r.roll day).1.writer.insert cols).ids s → _)
    ∧ (f < k → _ → k ∈ ((r.roll day).1.writer.insert cols).ids s)
    ∧ (_ → k ∈ ((r.roll day).1.writer.insert cols).ids s)
  rw [mem_ids_insert]
  refine ⟨?_, ?_, Or.inr⟩
  · rintro (hk | hk)
    · exact Or.inl (hsub hk)
    · exact Or.inr hk
  · intro hf hk
    rcases hlost hk with hk | ⟨x, hx, hs, rfl⟩
    · exact Or.inl hk
    · exact absurd (hfloor x hx hs) (not_le.mpr hf)

theorem daysKept_afterFeed {hdb : Hdb} {r : RdbRoller} (h : DaysKept hdb r) (day : Date)
    (cols : List Trade) : DaysKept hdb (r.afterFeed day cols) :=
  daysKept_roll h day

theorem daysKept_afterFeedQuote {hdb : Hdb} {r : RdbRoller} (h : DaysKept hdb r) (day : Date)
    (cols : List Quote) : DaysKept hdb (r.afterFeedQuote day cols) :=
  daysKept_roll h day

section

variable {hdb : Hdb} {f : Int} {q : Sym}

/-- **The feed of a group, by ids.** -/
theorem feedGroup_ids {h h' : FeedHandler} {s : Sym} {g : List Tick}
    (hok : h.feedGroup s g = .ok h') (hsym : ∀ t ∈ g, t.symbol = s)
    (hdays : DaysKept hdb h.roller)
    (hfloor : ∀ x ∈ hdb.trade.rows, x.sym = q → x.tradeID ≤ f) (k : Int) :
    (k ∈ h'.roller.writer.ids q → k ∈ h.roller.writer.ids q
        ∨ q = s ∧ (∃ t ∈ g, t.tradeId = k) ∧ isAbove (h.lastId s) k = true)
      ∧ (f < k → k ∈ h.roller.writer.ids q → k ∈ h'.roller.writer.ids q)
      ∧ (q = s ∧ (∃ t ∈ g, t.tradeId = k) ∧ isAbove (h.lastId s) k = true →
          k ∈ h'.roller.writer.ids q) := by
  rw [← FeedHandler.mem_freshRows hsym]
  rcases (FeedHandler.feedGroup_cases hok).1 with ⟨hnil, hroller⟩ | ⟨-, day, -, hroller⟩
  · rw [hroller, hnil]
    refine ⟨Or.inl, fun _ hk => hk, ?_⟩
    rintro ⟨r, hr, -⟩
    exact absurd hr List.not_mem_nil
  · rw [hroller]
    exact ids_afterFeed hdays hfloor day _ k

theorem daysKept_feedGroup {h h' : FeedHandler} {s : Sym} {g : List Tick}
    (hok : h.feedGroup s g = .ok h') (hdays : DaysKept hdb h.roller) :
    DaysKept hdb h'.roller := by
  rcases (FeedHandler.feedGroup_cases hok).1 with ⟨-, hroller⟩ | ⟨-, day, -, hroller⟩
  · rw [hroller]
    exact hdays
  · rw [hroller]
    exact daysKept_afterFeed hdays day _

/-- A bridge saves nothing down. -/
theorem daysKept_bridge (ex : Exchange) (published : Sym → Nat) {r : RdbRoller}
    (hdays : DaysKept hdb r) (s : Sym) (target : Option Int) :
    DaysKept hdb
      { r with writer := (bridge (ex.services published) r.writer s target).writer } := by
  obtain ⟨cols, -, hw⟩ := bridge_inserts ex published r.writer target s
  intro d hd
  show (bridge (ex.services published) r.writer s target).writer.hdb.trade.rowsAt d = _
  rw [hw, insert_hdb]
  exact hdays d hd

theorem daysKept_rebridgeGroup {ex : Exchange} {published : Sym → Nat} {h h' : FeedHandler}
    {s : Sym} {g : List Tick} (hok : h.rebridgeGroup (ex.services published) s g = .ok h')
    (hdays : DaysKept hdb h.roller) : DaysKept hdb h'.roller := by
  rcases FeedHandler.rebridgeGroup_cases hok with ⟨rfl | rfl, -⟩ | ⟨-, _, _, -, -, -, rfl⟩
  · exact hdays
  · exact hdays
  · exact daysKept_bridge ex published hdays s _

end

/-! ## A group of another symbol -/

/-- **Frame.** A group of one symbol leaves the other symbols' floors, and their ids above what
the store was started with. -/
theorem applyGroup_other {ex : Exchange} {published : Sym → Nat} {hdb : Hdb} {f : Int}
    {h h' : FeedHandler} {s q : Sym} {g : List Tick} (hne : q ≠ s)
    (hok : h.applyGroup (ex.services published) s g = .ok h') (hsym : ∀ t ∈ g, t.symbol = s)
    (hdays : DaysKept hdb h.roller)
    (hfloor : ∀ x ∈ hdb.trade.rows, x.sym = q → x.tradeID ≤ f) :
    h'.lastId q = h.lastId q ∧ ∀ k, (k ∈ h'.roller.writer.ids q → k ∈ h.roller.writer.ids q)
      ∧ (f < k → k ∈ h.roller.writer.ids q → k ∈ h'.roller.writer.ids q) := by
  obtain ⟨h₁, hbridge, hfeed⟩ := FeedHandler.applyGroup_eq_ok hok
  have hlast : h'.lastId q = h₁.lastId q := by
    rw [(FeedHandler.feedGroup_cases hfeed).2]
    exact Function.update_of_ne hne _ _
  have hbridged : h₁.lastId q = h.lastId q
      ∧ ∀ k, k ∈ h₁.roller.writer.ids q ↔ k ∈ h.roller.writer.ids q := by
    rcases FeedHandler.rebridgeGroup_cases hbridge with ⟨rfl | rfl, -⟩ | ⟨-, _, b, -, -, -, rfl⟩
    · exact ⟨rfl, fun _ => Iff.rfl⟩
    · exact ⟨rfl, fun _ => Iff.rfl⟩
    · exact ⟨Function.update_of_ne hne _ _,
        bridge_ids_of_ne ex published h.roller.writer (some b) (Ne.symm hne)⟩
  refine ⟨hlast.trans hbridged.1, fun k => ?_⟩
  obtain ⟨hsub, hkeep, -⟩ :=
    feedGroup_ids hfeed hsym (daysKept_rebridgeGroup hbridge hdays) hfloor k
  constructor
  · intro hk
    rcases hsub hk with hk | ⟨heq, -⟩
    · exact (hbridged.2 k).mp hk
    · exact absurd heq hne
  · intro hf hk
    exact hkeep hf ((hbridged.2 k).mpr hk)

end NanoTick
