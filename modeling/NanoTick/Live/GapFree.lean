import NanoTick.Live.Flight
import NanoTick.Live.StoredByFeed
import Mathlib.Tactic

set_option autoImplicit false

/-! # When live trades are gap-free

`FeedHandler` promises gap-free trades: an outage is closed by the re-bridge of the first new
trade. The re-bridge looks at that one trade only. `gapFree_iff` says exactly which runs store
every id: those that apply no group over a hole the re-bridge does not reach. `lossy_gap` is a
run of one outage in which the broker keeps the first message of the backlog and drops the
second.
-/

namespace NanoTick

open Python Runs Dedup

/-! ## A group of the symbol itself -/

/-- What a group leaves: the floor `m` after it, and its ids next to those before. -/
structure GroupDone (published : Sym → Nat) (f last : Int) (h h' : FeedHandler) (s : Sym)
    (g : List Tick) (m : Int) : Prop where
  lastId : h'.lastId s = some m
  le : last ≤ m
  top : ∀ k ∈ h'.roller.writer.ids s, k ≤ m
  group_le : ∀ t ∈ g, t.tradeId ≤ m
  mem : m = last ∨ (∃ t ∈ g, t.tradeId = m) ∧ m ∈ h'.roller.writer.ids s
  old : ∀ k, f < k → k ≤ last →
    (k ∈ h'.roller.writer.ids s ↔ k ∈ h.roller.writer.ids s)
  new : ∀ k, last < k → k ≤ m →
    (k ∈ h'.roller.writer.ids s ↔ (∃ t ∈ g, t.tradeId = k) ∨ Link.Bridged h s g last k)
  published : ∀ k ∈ h'.roller.writer.ids s, 0 ≤ k ∧ k < published s

/-- The first new id of a group: the least id of the group above the highest seen. -/
theorem min_newIds {h : FeedHandler} {s : Sym} {g : List Tick} {last b : Int}
    (hlast : h.lastId s = some last) : (h.newIds s g).min? = some b
      ↔ ((∃ t ∈ g, t.tradeId = b) ∧ last < b) ∧ ∀ t ∈ g, last < t.tradeId → b ≤ t.tradeId := by
  have hmem : ∀ k, k ∈ h.newIds s g ↔ (∃ t ∈ g, t.tradeId = k) ∧ last < k := by
    intro k
    rw [FeedHandler.newIds, List.mem_filter, List.mem_map, hlast, isAbove_some]
  rw [List.min?_eq_some_iff, hmem]
  refine and_congr Iff.rfl ⟨?_, ?_⟩
  · intro hle t ht hlt
    exact hle t.tradeId ((hmem _).mpr ⟨⟨t, ht, rfl⟩, hlt⟩)
  · intro hle k hk
    obtain ⟨⟨t, ht, rfl⟩, hlt⟩ := (hmem k).mp hk
    exact hle t ht hlt

/-- What is known of the symbol before a group: the floor it starts from bounds what was stored
at the start, and the highest seen bounds what is stored now. -/
structure Known (published : Sym → Nat) (hdb : Hdb) (f last : Int) (h : FeedHandler) (s : Sym) :
    Prop where
  days : DaysKept hdb h.roller
  floor : ∀ x ∈ hdb.trade.rows, x.sym = s → x.tradeID ≤ f
  lastId : h.lastId s = some last
  le : f ≤ last
  top : ∀ k ∈ h.roller.writer.ids s, k ≤ last
  mem : last = f ∨ last ∈ h.roller.writer.ids s
  published : ∀ k ∈ h.roller.writer.ids s, 0 ≤ k ∧ k < published s

section

variable {published : Sym → Nat} {hdb : Hdb} {f last : Int} {h h₁ h' : FeedHandler} {s : Sym}
  {g : List Tick}

/-- A group that does not bridge. -/
theorem groupDone_of_quiet (hk : Known published hdb f last h s)
    (hgroup : ∀ t ∈ g, t.symbol = s ∧ 0 ≤ t.tradeId ∧ t.tradeId < published s)
    (hroller : h₁.roller = h.roller) (hlastId : h₁.lastId = h.lastId)
    (hquiet : ¬(s ∈ h.pendingRebridge ∧ ∃ l b, h.lastId s = some l
      ∧ (h.newIds s g).min? = some b ∧ l + 1 < b))
    (hfeed : h₁.feedGroup s g = .ok h') : ∃ m, GroupDone published f last h h' s g m := by
  have hids := fun k => feedGroup_ids (q := s) (f := f) hfeed (fun t ht => (hgroup t ht).1)
    (by rw [hroller]; exact hk.days) hk.floor k
  rw [hroller, hlastId, hk.lastId] at hids
  obtain ⟨m, hm, hle, hall, hmem⟩ := foldl_raise_some last (g.map Tick.tradeId)
  have hgle : ∀ t ∈ g, t.tradeId ≤ m := fun t ht => hall _ (List.mem_map_of_mem ht)
  have hlast' : h'.lastId s = some m := by
    rw [FeedHandler.feedGroup_lastId hfeed, hlastId, hk.lastId, hm]
  refine ⟨m, hlast', hle, ?_, hgle, ?_, ?_, ?_, ?_⟩
  · intro k hk'
    rcases (hids k).1 hk' with hold | ⟨-, ⟨t, ht, rfl⟩, -⟩
    · exact le_trans (hk.top k hold) hle
    · exact hgle t ht
  · rcases hmem with heq | hmem
    · exact Or.inl heq
    · obtain ⟨t, ht, rfl⟩ := List.mem_map.mp hmem
      by_cases heq : t.tradeId = last
      · exact Or.inl heq
      · have habove : isAbove (some last) t.tradeId = true := isAbove_some.mpr (by omega)
        exact Or.inr ⟨⟨t, ht, rfl⟩, (hids _).2.2 ⟨rfl, ⟨t, ht, rfl⟩, habove⟩⟩
  · intro k hfk hkl
    refine ⟨fun hk' => ?_, (hids k).2.1 hfk⟩
    rcases (hids k).1 hk' with hold | ⟨-, -, habove⟩
    · exact hold
    · exact absurd (isAbove_some.mp habove) (not_lt.mpr hkl)
  · intro k hlk hkm
    constructor
    · intro hk'
      rcases (hids k).1 hk' with hold | ⟨-, hin, -⟩
      · exact absurd (hk.top k hold) (not_le.mpr hlk)
      · exact Or.inl hin
    · rintro (hin | ⟨hp, -, hbelow⟩)
      · exact (hids k).2.2 ⟨rfl, hin, isAbove_some.mpr hlk⟩
      · -- a new id above `k` is in the group, so the group would have bridged
        exfalso
        obtain ⟨t, ht, htm⟩ : ∃ t ∈ g, t.tradeId = m := by
          rcases hmem with heq | hmem
          · omega
          · exact List.mem_map.mp hmem
        cases hmin : (h.newIds s g).min? with
        | none =>
            have hnew : t.tradeId ∈ h.newIds s g := by
              rw [FeedHandler.newIds, List.mem_filter, hk.lastId, isAbove_some]
              exact ⟨List.mem_map_of_mem ht, by omega⟩
            rw [List.min?_eq_none_iff.mp hmin] at hnew
            exact List.not_mem_nil hnew
        | some b =>
            obtain ⟨⟨⟨u, hu, rfl⟩, hlu⟩, -⟩ := (min_newIds hk.lastId).mp hmin
            have hku := hbelow u hu hlu
            exact hquiet ⟨hp, last, u.tradeId, hk.lastId, hmin, by omega⟩
  · intro k hk'
    rcases (hids k).1 hk' with hold | ⟨-, ⟨t, ht, rfl⟩, -⟩
    · exact hk.published k hold
    · exact (hgroup t ht).2

/-- A group that would bridge when the store holds nothing of the symbol any more: the bridge
does nothing, and the floor is gone. -/
theorem groupDone_of_lost {ex : Exchange} {b : Int} (hk : Known published hdb f last h s)
    (hgroup : ∀ t ∈ g, t.symbol = s ∧ 0 ≤ t.tradeId ∧ t.tradeId < published s)
    (hmin : (h.newIds s g).min? = some b) (hnone : h.roller.writer.trueMaxId s = none)
    (hfeed : (h.afterRebridge (ex.services published) s b).feedGroup s g = .ok h') :
    ∃ m, GroupDone published f last h h' s g m := by
  have hempty := trueMaxId_eq_none.mp hnone
  -- the highest seen is stored unless it is the startup floor
  have hlf : last = f := by
    rcases hk.mem with heq | hmem
    · exact heq
    · exact absurd hmem (hempty last)
  have hw : (bridge (ex.services published) h.roller.writer s (some b)).writer
      = h.roller.writer := congrArg BridgeResult.writer (bridge_of_none hnone (some b))
  have hgone : (h.afterRebridge (ex.services published) s b).lastId s = none := by
    rw [FeedHandler.afterRebridge_lastId, hw, Exchange.services_maxStoredId, hnone]
  have hids := fun k => feedGroup_ids (q := s) (f := f) hfeed (fun t ht => (hgroup t ht).1)
    (daysKept_bridge ex published hk.days s _) hk.floor k
  rw [hgone, FeedHandler.afterRebridge_writer, hw] at hids
  obtain ⟨⟨⟨u, hu, rfl⟩, hlu⟩, -⟩ := (min_newIds hk.lastId).mp hmin
  obtain ⟨m, hm, hall, hmem⟩ := foldl_raise_none
    (List.ne_nil_of_mem (List.mem_map_of_mem hu))
  have hgle : ∀ t ∈ g, t.tradeId ≤ m := fun t ht => hall _ (List.mem_map_of_mem ht)
  obtain ⟨v, hv, hvm⟩ := List.mem_map.mp hmem
  refine ⟨m, ?_, ?_, ?_, hgle, ?_, ?_, ?_, ?_⟩
  · rw [FeedHandler.feedGroup_lastId hfeed, hgone, hm]
  · have := hgle u hu
    omega
  · intro k hk'
    rcases (hids k).1 hk' with hold | ⟨-, ⟨t, ht, rfl⟩, -⟩
    · exact absurd hold (hempty k)
    · exact hgle t ht
  · exact Or.inr ⟨⟨v, hv, hvm⟩, (hids m).2.2 ⟨rfl, ⟨v, hv, hvm⟩, rfl⟩⟩
  · intro k hfk hkl
    omega
  · intro k hlk hkm
    constructor
    · intro hk'
      rcases (hids k).1 hk' with hold | ⟨-, hin, -⟩
      · exact absurd hold (hempty k)
      · exact Or.inl hin
    · rintro (hin | ⟨-, hsome, -⟩)
      · exact (hids k).2.2 ⟨rfl, hin, rfl⟩
      · exact absurd hnone hsome
  · intro k hk'
    rcases (hids k).1 hk' with hold | ⟨-, ⟨t, ht, rfl⟩, -⟩
    · exact absurd hold (hempty k)
    · exact (hgroup t ht).2

/-- A group that bridges: everything below its first new id is fetched. -/
theorem groupDone_of_bridge {ex : Exchange} {b x : Int} (hk : Known published hdb f last h s)
    (hgroup : ∀ t ∈ g, t.symbol = s ∧ 0 ≤ t.tradeId ∧ t.tradeId < published s)
    (hp : s ∈ h.pendingRebridge) (hmin : (h.newIds s g).min? = some b) (hgap : last + 1 < b)
    (hsome : h.roller.writer.trueMaxId s = some x)
    (hfeed : (h.afterRebridge (ex.services published) s b).feedGroup s g = .ok h') :
    ∃ m, GroupDone published f last h h' s g m := by
  obtain ⟨⟨⟨u, hu, rfl⟩, hlu⟩, hleast⟩ := (min_newIds hk.lastId).mp hmin
  obtain ⟨hxmem, hxmax⟩ := trueMaxId_eq_some.mp hsome
  have hxl : x ≤ last := hk.top x hxmem
  have hx0 : 0 ≤ x := (hk.published x hxmem).1
  have hbpub : u.tradeId < published s := (hgroup u hu).2.2
  -- what the bridge adds: the ids strictly between the highest stored and the first new one
  have hbridge : ∀ k, k ∈ (bridge (ex.services published) h.roller.writer s
      (some u.tradeId)).writer.ids s ↔ k ∈ h.roller.writer.ids s ∨ x < k ∧ k < u.tradeId := by
    intro k
    rw [bridge_ids ex published h.roller.writer (some u.tradeId) hsome hx0 k]
    refine or_congr Iff.rfl ⟨?_, ?_⟩
    · rintro ⟨hxk, -, hb⟩
      exact ⟨hxk, hb _ rfl⟩
    · rintro ⟨hxk, hkb⟩
      refine ⟨hxk, by omega, fun y hy => ?_⟩
      cases hy
      exact hkb
  -- the bridge reaches up to the first new id, and the floor follows it
  have hfloor : (h.afterRebridge (ex.services published) s u.tradeId).lastId s
      = some (u.tradeId - 1) := by
    rw [FeedHandler.afterRebridge_lastId, Exchange.services_maxStoredId, trueMaxId_eq_some]
    refine ⟨(hbridge _).mpr (Or.inr ⟨by omega, by omega⟩), fun k hk' => ?_⟩
    rcases (hbridge k).mp hk' with hold | ⟨-, hlt⟩
    · have := hk.top k hold
      omega
    · omega
  have hids := fun k => feedGroup_ids (q := s) (f := f) hfeed (fun t ht => (hgroup t ht).1)
    (daysKept_bridge ex published hk.days s _) hk.floor k
  rw [hfloor, FeedHandler.afterRebridge_writer] at hids
  obtain ⟨m, hm, hle, hall, hmem⟩ := foldl_raise_some (u.tradeId - 1) (g.map Tick.tradeId)
  have hgle : ∀ t ∈ g, t.tradeId ≤ m := fun t ht => hall _ (List.mem_map_of_mem ht)
  have hum := hgle u hu
  obtain ⟨v, hv, hvm⟩ : ∃ v ∈ g, v.tradeId = m := by
    rcases hmem with heq | hmem
    · omega
    · exact List.mem_map.mp hmem
  refine ⟨m, ?_, by omega, ?_, hgle, ?_, ?_, ?_, ?_⟩
  · rw [FeedHandler.feedGroup_lastId hfeed, hfloor, hm]
  · intro k hk'
    rcases (hids k).1 hk' with hold | ⟨-, ⟨t, ht, rfl⟩, -⟩
    · rcases (hbridge k).mp hold with hold | ⟨-, hlt⟩
      · have := hk.top k hold
        omega
      · omega
    · exact hgle t ht
  · exact Or.inr ⟨⟨v, hv, hvm⟩,
      (hids m).2.2 ⟨rfl, ⟨v, hv, hvm⟩, isAbove_some.mpr (by omega)⟩⟩
  · intro k hfk hkl
    refine ⟨fun hk' => ?_, fun hold => (hids k).2.1 hfk ((hbridge k).mpr (Or.inl hold))⟩
    rcases (hids k).1 hk' with hold | ⟨-, -, habove⟩
    · rcases (hbridge k).mp hold with hold | ⟨hxk, -⟩
      · exact hold
      · -- the highest stored id is below the highest seen only at the startup floor
        rcases hk.mem with heq | hlmem
        · omega
        · have := hxmax last hlmem
          omega
    · have := isAbove_some.mp habove
      omega
  · intro k hlk hkm
    constructor
    · intro hk'
      rcases (hids k).1 hk' with hold | ⟨-, hin, -⟩
      · rcases (hbridge k).mp hold with hold | ⟨-, hlt⟩
        · exact absurd (hk.top k hold) (not_le.mpr hlk)
        · refine Or.inr ⟨hp, by rw [hsome]; exact Option.some_ne_none x, fun t ht hlt' => ?_⟩
          exact lt_of_lt_of_le hlt (hleast t ht hlt')
      · exact Or.inl hin
    · rintro (⟨t, ht, rfl⟩ | ⟨-, -, hbelow⟩)
      · have := hleast t ht hlk
        exact (hids _).2.2 ⟨rfl, ⟨t, ht, rfl⟩, isAbove_some.mpr (by omega)⟩
      · have hku := hbelow u hu hlu
        exact (hids k).2.1 (lt_of_le_of_lt hk.le hlk) ((hbridge k).mpr (Or.inr ⟨by omega, hku⟩))
  · intro k hk'
    rcases (hids k).1 hk' with hold | ⟨-, ⟨t, ht, rfl⟩, -⟩
    · rcases (hbridge k).mp hold with hold | ⟨hxk, hlt⟩
      · exact hk.published k hold
      · exact ⟨by omega, by omega⟩
    · exact (hgroup t ht).2

/-- **A group of the symbol.** -/
theorem groupDone {ex : Exchange} (hk : Known published hdb f last h s)
    (hgroup : ∀ t ∈ g, t.symbol = s ∧ 0 ≤ t.tradeId ∧ t.tradeId < published s)
    (hok : h.applyGroup (ex.services published) s g = .ok h') :
    ∃ m, GroupDone published f last h h' s g m := by
  obtain ⟨h₁, hbridge, hfeed⟩ := FeedHandler.applyGroup_eq_ok hok
  rcases FeedHandler.rebridgeGroup_cases hbridge with
    ⟨hsame, hquiet⟩ | ⟨hp, l, b, hl, hmin, hgap, rfl⟩
  · rcases hsame with rfl | rfl
    · exact groupDone_of_quiet hk hgroup rfl rfl hquiet hfeed
    · refine groupDone_of_quiet hk hgroup ?_ ?_ hquiet hfeed
      · rfl
      · rfl
  · cases hk.lastId.symm.trans hl
    cases hx : h.roller.writer.trueMaxId s with
    | none => exact groupDone_of_lost hk hgroup hmin hx hfeed
    | some x => exact groupDone_of_bridge hk hgroup hp hmin hgap hx hfeed

/-- **A group closes its hole or leaves it**: after it everything up to the floor is stored
exactly when everything was before and the group covers what it skips. -/
theorem GroupDone.full_iff {m : Int} (hd : GroupDone published f last h h' s g m)
    (hlast : h.lastId s = some last) (hf : f ≤ last) :
    (∀ k, f < k → k ≤ m → k ∈ h'.roller.writer.ids s)
      ↔ (∀ k, f < k → k ≤ last → k ∈ h.roller.writer.ids s) ∧ Link.Covers h s g := by
  constructor
  · intro hfull
    refine ⟨fun k hfk hkl => (hd.old k hfk hkl).mp (hfull k hfk (le_trans hkl hd.le)), ?_⟩
    rintro l hl k hlk ⟨t, ht, hkt⟩
    cases hlast.symm.trans hl
    have hkm : k ≤ m := le_trans hkt (hd.group_le t ht)
    exact (hd.new k hlk hkm).mp (hfull k (lt_of_le_of_lt hf hlk) hkm)
  · rintro ⟨hfull, hcovers⟩ k hfk hkm
    -- ids up to the old floor were stored before, those above it are the group's to cover
    by_cases hkl : k ≤ last
    · exact (hd.old k hfk hkl).mpr (hfull k hfk hkl)
    · refine (hd.new k (not_le.mp hkl) hkm).mpr (hcovers last hlast k (not_le.mp hkl) ?_)
      rcases hd.mem with heq | ⟨⟨t, ht, htm⟩, -⟩
      · omega
      · exact ⟨t, ht, by omega⟩

end

namespace Link

/-! ## The symbol along a run -/

/-- What is known of one symbol in every state. During the startup the highest seen is the
highest stored, or nothing was seen and the floor is the highest stored; after it, the highest
seen bounds the stored ids and is one of them unless it is the floor. -/
structure Tracked (o : Origin) (s : Sym) (f : Int) (l : Link) : Prop where
  days : DaysKept o.writer.hdb l.handler.roller
  published : ∀ k ∈ l.ids s, 0 ≤ k ∧ k < l.published s
  boot : l.starting ≠ [] → ∃ m, l.handler.roller.writer.trueMaxId s = some m
    ∧ (l.handler.lastId s = some m ∨ l.handler.lastId s = none ∧ m = f)
  unseen : l.handler.lastId s = none → s ∈ l.starting
  seen : ∀ last, l.handler.lastId s = some last →
    f ≤ last ∧ (∀ k ∈ l.ids s, k ≤ last) ∧ (last = f ∨ last ∈ l.ids s)

theorem tracked_start {o : Origin} {symbols : List Sym} {s : Sym} {f : Int} (hs : s ∈ symbols)
    (hf : o.writer.trueMaxId s = some f) : Tracked o s f (start o symbols) where
  days := fun _ _ => rfl
  published := by
    intro k hk
    obtain ⟨r, hr, rfl, rfl⟩ := mem_ids.mp hk
    exact o.stored_published r hr
  boot := fun _ => ⟨f, hf, Or.inr ⟨rfl, rfl⟩⟩
  unseen := fun _ => hs
  seen := by
    intro last hlast
    cases hlast

section

variable {ex : Exchange} {o : Origin} {s : Sym} {f : Int} {l l' : Link}

/-- The floor bounds what the partitions held at the start. -/
theorem origin_le_floor (hf : o.writer.trueMaxId s = some f) :
    ∀ x ∈ o.writer.hdb.trade.rows, x.sym = s → x.tradeID ≤ f := by
  intro x hx hs
  refine (trueMaxId_eq_some.mp hf).2 _ (mem_ids.mpr ⟨x, ?_, hs, rfl⟩)
  exact Multiset.mem_add.mpr (Or.inr hx)

/-- Gap-free, once something was seen. -/
theorem gapFree_of_lastId {last : Int} (h : l.handler.lastId s = some last) :
    l.GapFree s f ↔ ∀ k, f < k → k ≤ last → k ∈ l.ids s := by
  constructor
  · exact fun hfull => hfull last h
  · intro hfull last' hlast
    cases h.symm.trans hlast
    exact hfull

/-- A step that leaves the symbol's floor, and its ids above the startup floor. -/
structure Aside (o : Origin) (s : Sym) (f : Int) (l l' : Link) : Prop where
  days : DaysKept o.writer.hdb l'.handler.roller
  lastId : l'.handler.lastId s = l.handler.lastId s
  starting : l'.starting = l.starting
  published : l.published s ≤ l'.published s
  boot : l.starting ≠ [] → l'.handler.roller = l.handler.roller
  sub : ∀ k, k ∈ l'.ids s → k ∈ l.ids s
  keep : ∀ k, f < k → k ∈ l.ids s → k ∈ l'.ids s

theorem Tracked.aside (ht : Tracked o s f l) (h : Aside o s f l l') : Tracked o s f l' where
  days := h.days
  published := by
    intro k hk
    obtain ⟨hpos, hlt⟩ := ht.published k (h.sub k hk)
    have hle := h.published
    exact ⟨hpos, by omega⟩
  boot := by
    intro hne
    rw [h.starting] at hne
    rw [h.boot hne, h.lastId]
    exact ht.boot hne
  unseen := by
    rw [h.lastId, h.starting]
    exact ht.unseen
  seen := by
    intro last hlast
    rw [h.lastId] at hlast
    obtain ⟨hle, htop, hmem⟩ := ht.seen last hlast
    refine ⟨hle, fun k hk => htop k (h.sub k hk), ?_⟩
    rcases hle.eq_or_lt with heq | hlt
    · exact Or.inl heq.symm
    · rcases hmem with heq | hmem
      · exact Or.inl heq
      · exact Or.inr (h.keep last hlt hmem)

theorem Aside.gapFree (h : Aside o s f l l') : l'.GapFree s f ↔ l.GapFree s f := by
  unfold GapFree
  rw [h.lastId]
  constructor
  · intro hfull last hlast k hfk hkl
    exact h.sub k (hfull last hlast k hfk hkl)
  · intro hfull last hlast k hfk hkl
    exact h.keep k hfk (hfull last hlast k hfk hkl)

theorem aside_around (ht : Tracked o s f l) (h : Around l l') : Aside o s f l l' where
  days := by
    rw [h.roller]
    exact ht.days
  lastId := by rw [h.lastId]
  starting := h.starting
  published := h.published s
  boot := fun _ => h.roller
  sub := by
    intro k hk
    rwa [ids, h.roller] at hk
  keep := by
    intro k _ hk
    rwa [ids, h.roller]

theorem aside_quoteGroup (hf : o.writer.trueMaxId s = some f) (ht : Tracked o s f l)
    (hl : l.Flight) (h : step ex l .quoteGroup = some l') : Aside o s f l l' := by
  obtain ⟨g, rest, h₁, hquotes, hok, rfl⟩ := quoteGroup_eq h
  obtain ⟨hroller, lastQuoteId, heq⟩ := FeedHandler.applyQuoteGroup_cases hok
  have hlast : h₁.lastId = l.handler.lastId := by rw [heq]
  have hboot : l.starting ≠ [] → h₁.roller = l.handler.roller := by
    intro hne
    have hnil := (hl.quiet hne).2
    rw [hquotes] at hnil
    cases hnil
  rcases hroller with ⟨-, hsame⟩ | ⟨-, day, -, hsame⟩
  · refine ⟨?_, by rw [hlast], rfl, le_refl _, hboot, ?_, ?_⟩
    · show DaysKept o.writer.hdb h₁.roller
      rw [hsame]
      exact ht.days
    · intro k hk
      rwa [ids, hsame] at hk
    · intro k _ hk
      rwa [ids, hsame]
  · have hids := ids_roll ht.days day s
    refine ⟨?_, by rw [hlast], rfl, le_refl _, hboot, ?_, ?_⟩
    · show DaysKept o.writer.hdb h₁.roller
      rw [hsame]
      exact daysKept_afterFeedQuote ht.days day _
    · intro k hk
      rw [ids, hsame] at hk
      exact (hids k).1 hk
    · intro k hfk hk
      show k ∈ h₁.roller.writer.ids s
      rw [hsame]
      rcases (hids k).2 hk with hk | ⟨x, hx, hs, rfl⟩
      · exact hk
      · exact absurd (origin_le_floor hf x hx hs) (not_le.mpr hfk)

/-- A batch is applied only after the startup. -/
theorem started_of_group {g : Sym × List Tick} {rest : List (Sym × List Tick)} (hl : l.Flight)
    (htrades : l.trades = g :: rest) : l.starting = [] := by
  by_contra hne
  have hnil := (hl.quiet hne).1
  rw [htrades] at hnil
  cases hnil

theorem aside_group {g : Sym × List Tick} {rest : List (Sym × List Tick)} {h₁ : FeedHandler}
    (hf : o.writer.trueMaxId s = some f) (ht : Tracked o s f l) (hl : l.Flight)
    (htrades : l.trades = g :: rest) (hne : s ≠ g.1)
    (hok : l.handler.applyGroup (ex.services l.published) g.1 g.2 = .ok h₁) :
    Aside o s f l { l with handler := h₁, trades := rest, lossAt := l.settle g } := by
  have hgroup := hl.groups g (by rw [htrades]; exact List.mem_cons_self)
  obtain ⟨hlast, hids⟩ := applyGroup_other hne hok (fun t htg => (hgroup t htg).1) ht.days
    (origin_le_floor hf)
  obtain ⟨h₂, hbridge, hfeed⟩ := FeedHandler.applyGroup_eq_ok hok
  have hstarted := started_of_group hl htrades
  exact ⟨daysKept_feedGroup hfeed (daysKept_rebridgeGroup hbridge ht.days), hlast, rfl, le_refl _,
    fun hn => absurd hstarted hn, fun k => (hids k).1, fun k => (hids k).2⟩

/-! ### The startup -/

/-- The startup bridge of a symbol saves nothing down and leaves the other symbols. -/
theorem startSymbol_other {q : Sym} {h₁ : FeedHandler} (ht : Tracked o s f l)
    (hok : l.handler.startSymbol (ex.services l.published) q = .ok h₁) :
    DaysKept o.writer.hdb h₁.roller
      ∧ (q ≠ s → h₁.lastId s = l.handler.lastId s
          ∧ ∀ k, k ∈ h₁.roller.writer.ids s ↔ k ∈ l.ids s) := by
  rw [FeedHandler.startSymbol_eq hok]
  refine ⟨daysKept_bridge ex l.published ht.days q none, fun hne => ?_⟩
  exact ⟨Function.update_of_ne (Ne.symm hne) _ _,
    bridge_ids_of_ne ex l.published l.handler.roller.writer none hne⟩

/-- The startup bridge of the symbol: everything published above the highest stored id is
stored, and the floor is the last id published. -/
theorem startSymbol_own {h₁ : FeedHandler} {m : Int} (ht : Tracked o s f l)
    (hm : l.handler.roller.writer.trueMaxId s = some m)
    (hok : l.handler.startSymbol (ex.services l.published) s = .ok h₁) :
    h₁.roller.writer.trueMaxId s = some ((l.published s : Int) - 1)
      ∧ h₁.lastId s = some ((l.published s : Int) - 1) ∧ m < l.published s
      ∧ ∀ k, k ∈ h₁.roller.writer.ids s ↔ k ∈ l.ids s ∨ m < k ∧ k < l.published s := by
  obtain ⟨hmem, hmax⟩ := trueMaxId_eq_some.mp hm
  obtain ⟨hpos, hlt⟩ := ht.published m hmem
  obtain ⟨hw, hlast⟩ := FeedHandler.startSymbol_lastId hok
  have hids : ∀ k, k ∈ h₁.roller.writer.ids s ↔ k ∈ l.ids s ∨ m < k ∧ k < l.published s := by
    intro k
    rw [hw]
    refine (bridge_ids ex l.published l.handler.roller.writer none hm hpos k).trans ?_
    exact or_congr Iff.rfl (and_congr Iff.rfl
      ⟨fun h => h.1, fun h => ⟨h, fun x hx => by cases hx⟩⟩)
  have htop : h₁.roller.writer.trueMaxId s = some ((l.published s : Int) - 1) := by
    rw [trueMaxId_eq_some]
    constructor
    · rw [hids]
      by_cases heq : m = (l.published s : Int) - 1
      · rw [← heq]
        exact Or.inl hmem
      · exact Or.inr ⟨by omega, by omega⟩
    · intro k hk
      rcases (hids k).mp hk with hk | ⟨-, hk⟩
      · have := hmax k hk
        omega
      · omega
  refine ⟨htop, ?_, hlt, hids⟩
  rw [hlast, Exchange.services_maxStoredId, htop]

/-- The startup of the symbol itself: all ids up to the new floor are stored when all up to the
old one were. -/
theorem startSymbol_tracked_own {rest : List Sym} {h₁ h₂ : FeedHandler} (ht : Tracked o s f l)
    (hstarting : l.starting = s :: rest)
    (hok : l.handler.startSymbol (ex.services l.published) s = .ok h₁)
    (hroller : h₂.roller = h₁.roller) (hlastId : h₂.lastId = h₁.lastId) :
    Tracked o s f { l with handler := h₂, starting := rest }
      ∧ (Link.GapFree { l with handler := h₂, starting := rest } s f ↔ l.GapFree s f) := by
  obtain ⟨m, hm, hseen⟩ := ht.boot (by rw [hstarting]; exact List.cons_ne_nil s rest)
  obtain ⟨hmax, hlast, hmlt, hids⟩ := startSymbol_own ht hm hok
  obtain ⟨hmem, htop⟩ := trueMaxId_eq_some.mp hmax
  have hlast₂ : h₂.lastId s = some ((l.published s : Int) - 1) := by rw [hlastId, hlast]
  have hm0 : 0 ≤ m := (ht.published m (trueMaxId_eq_some.mp hm).1).1
  have hfm : f ≤ m := by
    rcases hseen with hseen | ⟨-, rfl⟩
    · exact (ht.seen m hseen).1
    · exact le_refl m
  have hpub : ∀ k, k ∈ h₁.roller.writer.ids s → 0 ≤ k ∧ k < l.published s := by
    intro k hk
    rcases (hids k).mp hk with hk | ⟨hmk, hk⟩
    · exact ht.published k hk
    · exact ⟨by omega, hk⟩
  constructor
  · refine ⟨?_, ?_, fun _ => ⟨(l.published s : Int) - 1, ?_, Or.inl hlast₂⟩, ?_, ?_⟩
    · rw [hroller]
      exact (startSymbol_other ht hok).1
    · rw [ids, hroller]
      exact hpub
    · rw [hroller]
      exact hmax
    · intro hn
      cases hlast₂.symm.trans hn
    · intro last hl
      cases hlast₂.symm.trans hl
      rw [ids, hroller]
      exact ⟨by omega, htop, Or.inr hmem⟩
  · rw [gapFree_of_lastId (l := { l with handler := h₂, starting := rest }) hlast₂, ids, hroller]
    constructor
    · intro hfull last hl k hfk hkl
      rcases hseen with hseen | ⟨hseen, -⟩
      · cases hseen.symm.trans hl
        rcases (hids k).mp (hfull k hfk (by omega)) with hk | ⟨hmk, -⟩
        · exact hk
        · omega
      · rw [hseen] at hl
        cases hl
    · intro hfull k hfk hkl
      rw [hids]
      by_cases hkm : k ≤ m
      · rcases hseen with hseen | ⟨-, rfl⟩
        · exact Or.inl (hfull m hseen k hfk hkm)
        · omega
      · exact Or.inr ⟨by omega, by omega⟩

/-- The startup of another symbol. -/
theorem startSymbol_tracked_other {q : Sym} {rest : List Sym} {h₁ h₂ : FeedHandler}
    (ht : Tracked o s f l) (hq : q ≠ s) (hstarting : l.starting = q :: rest)
    (hok : l.handler.startSymbol (ex.services l.published) q = .ok h₁)
    (hroller : h₂.roller = h₁.roller) (hlastId : h₂.lastId = h₁.lastId) :
    Tracked o s f { l with handler := h₂, starting := rest }
      ∧ (Link.GapFree { l with handler := h₂, starting := rest } s f ↔ l.GapFree s f) := by
  obtain ⟨m, hm, hseen⟩ := ht.boot (by rw [hstarting]; exact List.cons_ne_nil q rest)
  obtain ⟨hdays, hother⟩ := startSymbol_other ht hok
  obtain ⟨hlast, hids⟩ := hother hq
  have hmax : h₁.roller.writer.trueMaxId s = some m := by
    obtain ⟨hmem, htop⟩ := trueMaxId_eq_some.mp hm
    rw [trueMaxId_eq_some]
    exact ⟨(hids m).mpr hmem, fun k hk => htop k ((hids k).mp hk)⟩
  constructor
  · refine ⟨?_, ?_, fun _ => ⟨m, ?_, ?_⟩, ?_, ?_⟩
    · rw [hroller]
      exact hdays
    · rw [ids, hroller]
      exact fun k hk => ht.published k ((hids k).mp hk)
    · rw [hroller]
      exact hmax
    · rw [hlastId, hlast]
      exact hseen
    · rw [hlastId, hlast]
      intro hn
      have hmem := ht.unseen hn
      rw [hstarting] at hmem
      rcases List.mem_cons.mp hmem with heq | hmem
      · exact absurd heq.symm hq
      · exact hmem
    · rw [hlastId, hlast, ids, hroller]
      intro last hl
      obtain ⟨hle, htop, hmem⟩ := ht.seen last hl
      exact ⟨hle, fun k hk => htop k ((hids k).mp hk), hmem.imp id (hids last).mpr⟩
  · unfold GapFree
    rw [hlastId, hlast, ids, hroller]
    exact ⟨fun hfull last hl k hfk hkl => (hids k).mp (hfull last hl k hfk hkl),
      fun hfull last hl k hfk hkl => (hids k).mpr (hfull last hl k hfk hkl)⟩

theorem startSymbol_tracked (ht : Tracked o s f l) (h : step ex l .startSymbol = some l') :
    Tracked o s f l' ∧ (l'.GapFree s f ↔ l.GapFree s f) := by
  obtain ⟨q, rest, h₁, hstarting, hok, rfl⟩ := startSymbol_step h
  obtain ⟨hroller, hlastId, -⟩ := h₁.flagAll_frame (rest = [])
  by_cases hq : q = s
  · subst hq
    exact startSymbol_tracked_own ht hstarting hok hroller hlastId
  · exact startSymbol_tracked_other ht hq hstarting hok hroller hlastId

/-! ### A batch, and the whole run -/

theorem group_tracked (hf : o.writer.trueMaxId s = some f) (ht : Tracked o s f l) (hl : l.Flight)
    (h : step ex l .group = some l') :
    Tracked o s f l' ∧ (l'.GapFree s f ↔ l.GapFree s f ∧ Closes s l .group) := by
  obtain ⟨g, rest, h₁, htrades, hok, rfl⟩ := group_eq h
  have hhead : Closes s l .group ↔ (g.1 = s → Covers l.handler s g.2) := by
    show (∀ g' ∈ l.trades.head?, g'.1 = s → Covers l.handler s g'.2) ↔ _
    rw [htrades]
    simp
  by_cases hq : s = g.1
  · have hstarted := started_of_group hl htrades
    obtain ⟨last, hlast⟩ : ∃ last, l.handler.lastId s = some last := by
      cases hn : l.handler.lastId s with
      | some last => exact ⟨last, rfl⟩
      | none =>
          have hmem := ht.unseen hn
          rw [hstarted] at hmem
          exact absurd hmem List.not_mem_nil
    obtain ⟨hle, htop, hmem⟩ := ht.seen last hlast
    have hgroup : ∀ t ∈ g.2, t.symbol = s ∧ 0 ≤ t.tradeId ∧ t.tradeId < l.published s := by
      intro t htg
      obtain ⟨hsym, hpos, hlt⟩ :=
        hl.groups g (by rw [htrades]; exact List.mem_cons_self) t htg
      rw [hsym, ← hq] at hlt
      exact ⟨hsym.trans hq.symm, hpos, hlt⟩
    have hk : Known l.published o.writer.hdb f last l.handler s :=
      ⟨ht.days, origin_le_floor hf, hlast, hle, htop, hmem, ht.published⟩
    rw [← hq] at hok
    obtain ⟨m, hd⟩ := groupDone hk hgroup hok
    obtain ⟨h₂, hbridge, hfeed⟩ := FeedHandler.applyGroup_eq_ok hok
    constructor
    · refine ⟨daysKept_feedGroup hfeed (daysKept_rebridgeGroup hbridge ht.days), hd.published,
        fun hn => absurd hstarted hn, ?_, ?_⟩
      · intro hn
        cases hd.lastId.symm.trans hn
      · intro last' hl'
        cases hd.lastId.symm.trans hl'
        refine ⟨le_trans hle hd.le, hd.top, ?_⟩
        rcases hd.mem with rfl | ⟨-, hin⟩
        · rcases hle.eq_or_lt with heq | hlt
          · exact Or.inl heq.symm
          · rcases hmem with heq | hin
            · exact Or.inl heq
            · exact Or.inr ((hd.old m hlt (le_refl m)).mpr hin)
        · exact Or.inr hin
    · have hafter : Link.GapFree { l with handler := h₁, trades := rest, lossAt := l.settle g } s f
          ↔ ∀ k, f < k → k ≤ m → k ∈ h₁.roller.writer.ids s := gapFree_of_lastId hd.lastId
      rw [hafter, hd.full_iff hlast hle, gapFree_of_lastId hlast, hhead]
      exact and_congr Iff.rfl ⟨fun hc _ => hc, fun hc => hc hq.symm⟩
  · have haside := aside_group hf ht hl htrades hq hok
    refine ⟨ht.aside haside, ?_⟩
    rw [haside.gapFree, hhead]
    exact ⟨fun hfull => ⟨hfull, fun heq => absurd heq.symm hq⟩, fun hboth => hboth.1⟩

/-- **One step** keeps what is known of the symbol, and keeps it gap-free exactly when it
applies no group over a hole. -/
theorem tracked_step (hf : o.writer.trueMaxId s = some f) {a : LinkAction}
    (hI : l.Flight ∧ Tracked o s f l) (h : step ex l a = some l') :
    (l'.Flight ∧ Tracked o s f l') ∧ (l'.GapFree s f ↔ l.GapFree s f ∧ Closes s l a) := by
  obtain ⟨hl, ht⟩ := hI
  have hflight := flight_step hl h
  -- only a group can meet or fail the condition
  have hopen : a ≠ .group → (l'.GapFree s f ↔ l.GapFree s f) →
      (l'.GapFree s f ↔ l.GapFree s f ∧ Closes s l a) := by
    intro ha hiff
    have hcloses : Closes s l a := by
      cases a with
      | group => exact absurd rfl ha
      | _ => trivial
    rw [hiff]
    exact ⟨fun hfull => ⟨hfull, hcloses⟩, fun hboth => hboth.1⟩
  rcases step_cases h with ⟨ha, haround⟩ | rfl | rfl | rfl
  · have haside := aside_around ht haround
    exact ⟨⟨hflight, ht.aside haside⟩, hopen ha haside.gapFree⟩
  · obtain ⟨ht', hiff⟩ := startSymbol_tracked ht h
    exact ⟨⟨hflight, ht'⟩, hopen (by simp) hiff⟩
  · obtain ⟨ht', hiff⟩ := group_tracked hf ht hl h
    exact ⟨⟨hflight, ht'⟩, hiff⟩
  · have haside := aside_quoteGroup hf ht hl h
    exact ⟨⟨hflight, ht.aside haside⟩, hopen (by simp) haside.gapFree⟩

end

/-- **Gap-free live trades.** After any run of the feed handler, over any store, exchange and
losses, every id of a configured symbol from its startup floor up to the highest seen is stored
exactly when the run applied no group of the symbol over a hole: every id the group skipped was
in the group, or below its first new id while the symbol was flagged and still stored. -/
theorem gapFree_iff (ex : Exchange) (o : Origin) (symbols : List Sym) {s : Sym} {f : Int}
    (hs : s ∈ symbols) (hf : o.writer.trueMaxId s = some f) {as : List LinkAction} {l : Link}
    (h : exec (step ex) (start o symbols) as = some l) :
    l.GapFree s f ↔ AllSteps (step ex) (Closes s) (start o symbols) as := by
  have hiff := exec_iff_allSteps (fun _ _ _ hI hst => (tracked_step hf hI hst).1)
    (fun _ _ _ hI hst => (tracked_step hf hI hst).2)
    ⟨flight_start o symbols, tracked_start hs hf⟩ h
  rw [hiff]
  refine ⟨fun hboth => hboth.2, fun hall => ⟨?_, hall⟩⟩
  intro last hlast
  cases hlast

/-! ### One outage -/

/-- An exchange that trades every second from 1970-01-01T00:00:00 on. -/
def everySecond : Exchange where
  venue := "binance"
  page := tradesLimit
  page_pos := tradesLimit_pos
  trade := fun _ n => ⟨n, 1000 * n, 100, 1, false⟩
  id_trade := fun _ _ => rfl

/-- The trade `n` as published. -/
def tickAt (n : Nat) : Tick := ⟨"binance", "BTCUSDT", n, 100, 1, 1000 * n, 1000 * n, false⟩

/-- A store that holds the first trade, saved under its date. -/
def firstSaved : Origin where
  writer := HdbWriter.fresh { Hdb.empty with
    trade := Parts.save 0
      [((everySecond.trade "BTCUSDT" 0).parse "BTCUSDT" "binance").ofRaw] ∅ }
  published := fun _ => 1
  backlog := []
  stored_published := by decide +kernel
  backlog_published := fun _ h => absurd h List.not_mem_nil

/-- A trade is published, delivered and applied. -/
def live (n : Nat) : List LinkAction :=
  [.publishTrade (tickAt n), .deliver true, .drain, .group]

/-- An outage in which nothing is dropped. -/
def lossless : List LinkAction :=
  [.startSymbol, .connect] ++ live 1
    ++ [.disconnect, .publishTrade (tickAt 2), .connect, .deliver true, .drain, .group]

theorem gapFree_lossless : ∃ l,
    exec (step everySecond) (start firstSaved ["BTCUSDT"]) lossless = some l
    ∧ l.handler.lastId "BTCUSDT" = some 2
    ∧ (l.GapFree "BTCUSDT" 0
      ↔ AllSteps (step everySecond) (Closes "BTCUSDT") (start firstSaved ["BTCUSDT"])
          lossless) := by
  have hrun : (exec (step everySecond) (start firstSaved ["BTCUSDT"]) lossless).any
      (fun l => decide (l.handler.lastId "BTCUSDT" = some 2)) = true := by decide +kernel
  obtain ⟨l, hl, hlast⟩ := (Option.any_eq_true _ _).mp hrun
  exact ⟨l, hl, of_decide_eq_true hlast, gapFree_iff everySecond firstSaved ["BTCUSDT"]
    List.mem_cons_self (by decide +kernel) hl⟩

/-- The broker keeps the first and the last of three messages of an outage. The first new trade
follows the floor, so nothing is bridged and the flag is cleared; trade 3 stays missing, also
after trade 5, published when all was over. -/
def lossy : List LinkAction :=
  [.startSymbol, .connect] ++ live 1
    ++ [.disconnect, .publishTrade (tickAt 2), .publishTrade (tickAt 3),
        .publishTrade (tickAt 4), .brokerDrop 1, .connect, .deliver true, .deliver true,
        .drain, .group]
    ++ live 5

theorem lossy_gap : ¬ ∀ (ex : Exchange) (o : Origin) (symbols : List Sym) (s : Sym) (f : Int),
    s ∈ symbols → o.writer.trueMaxId s = some f → ∀ (as : List LinkAction) (l : Link),
    exec (step ex) (start o symbols) as = some l → l.Settled s → l.GapFree s f := by
  intro h
  have hrun : (exec (step everySecond) (start firstSaved ["BTCUSDT"]) lossy).any
      (fun l => decide (l.lossAt "BTCUSDT" = none ∧ l.handler.lastId "BTCUSDT" = some 5
        ∧ 3 ∉ l.ids "BTCUSDT")) = true := by decide +kernel
  obtain ⟨l, hl, hend⟩ := (Option.any_eq_true _ _).mp hrun
  obtain ⟨hsettled, hlast, hmissing⟩ := of_decide_eq_true hend
  exact hmissing (h everySecond firstSaved ["BTCUSDT"] "BTCUSDT" 0 List.mem_cons_self
    (by decide +kernel) lossy l hl hsettled 5 hlast 3 (by decide) (by decide))

end Link

end NanoTick
