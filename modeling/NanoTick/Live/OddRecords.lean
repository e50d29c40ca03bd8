import NanoTick.Live.Payloads
import Mathlib.Tactic

set_option autoImplicit false

/-! # Odd records in a batch

`_apply_trades` and `_apply_quotes` on payloads the network thread let through. Both group the
batch by symbol, sort and deduplicate each group against the symbol's floor, and parse, convert
and insert what is new; `Side` is what they differ in.

`nothingStops_iff` says exactly which messages and which batches do no harm, and what is then
handed to the roller; `stopped_by_missing_symbol` is a message that ends the process.
-/

namespace NanoTick

open Python Raising Grouping FirstOfKey

/-! ## Dedup -/

section

variable {o : Outside} {key : String}

/-- `sorted(items, key=…)`: stable, and an error when the ids are of two kinds, since whatever
the order of comparisons one of them meets both. -/
def sortedById (items : List (Payload o key)) : Except PyErr (List (Payload o key)) :=
  if (items.map Payload.id).Pairwise (fun a b => SortKey.alike a b = true) then
    .ok (sortOn Payload.id items)
  else .error .typeError

/-- `last is None or id > last`. -/
def aboveLast (last : Option SortKey) (id : SortKey) : Except PyErr Bool :=
  match last with
  | none => .ok true
  | some l => SortKey.gt id l

/-- The loop of `_dedup`. -/
def keepFresh : Option SortKey → List (Payload o key)
    → Except PyErr (List (Payload o key) × Option SortKey)
  | last, [] => .ok ([], last)
  | last, it :: t => do
      if ← aboveLast last it.id then
        let (fresh, last) ← keepFresh (some it.id) t
        return (it :: fresh, last)
      else keepFresh last t

/-- `_dedup`. -/
def dedupById (items : List (Payload o key)) (last : Option SortKey) :
    Except PyErr (List (Payload o key) × Option SortKey) := do
  let items ← sortedById items
  keepFresh last items

/-- Ids of one kind: all numbers or all strings. -/
def OneKind (ids : List SortKey) : Prop := ∀ a ∈ ids, ∀ b ∈ ids, SortKey.alike a b = true

/-- The symbol's floor and the ids of a group. -/
def idsWith (last : Option SortKey) (items : List (Payload o key)) : List SortKey :=
  last.toList ++ items.map Payload.id

/-- The floor alone is of one kind. -/
theorem oneKind_last (last : Option SortKey) :
    OneKind (idsWith last ([] : List (Payload o key))) := by
  rw [idsWith, List.map_nil, List.append_nil]
  intro a ha b hb
  rw [Option.mem_toList] at ha hb
  rw [Option.mem_unique ha hb]
  exact SortKey.alike_self b

theorem aboveLast_eq {last : Option SortKey} {id : SortKey}
    (h : ∀ l ∈ last, SortKey.alike id l = true) : aboveLast last id = .ok (beyond last id) := by
  cases last with
  | none => rfl
  | some l => exact SortKey.gt_of_alike (h l rfl)

/-- Where the ids are of one kind, the loop keeps what is strictly above the last kept. -/
theorem keepFresh_eq {last : Option SortKey} {items : List (Payload o key)}
    (h : OneKind (idsWith last items)) :
    ∃ l, keepFresh last items = .ok (keep Payload.id last items, l) := by
  induction items generalizing last with
  | nil => exact ⟨last, rfl⟩
  | cons it t ih =>
      have hit : it.id ∈ idsWith last (it :: t) :=
        List.mem_append_right _ List.mem_cons_self
      have htail : ∀ i ∈ t.map Payload.id, i ∈ idsWith last (it :: t) := fun i hi =>
        List.mem_append_right _ (List.mem_cons_of_mem _ hi)
      have habove : aboveLast last it.id = .ok (beyond last it.id) :=
        aboveLast_eq (fun l hl => h it.id hit l
          (List.mem_append_left _ (Option.mem_toList.mpr hl)))
      rw [keepFresh, habove, keep]
      cases hb : beyond last it.id with
      | true =>
          have hkind : OneKind (idsWith (some it.id) t) := by
            have hsub : ∀ i ∈ idsWith (some it.id) t, i ∈ idsWith last (it :: t) := by
              intro i hi
              rcases List.mem_cons.mp hi with rfl | hi
              · exact hit
              · exact htail i hi
            exact fun a ha b hb => h a (hsub a ha) b (hsub b hb)
          obtain ⟨l, hl⟩ := ih hkind
          refine ⟨l, bind_eq_ok.mpr ⟨true, rfl, ?_⟩⟩
          rw [if_pos rfl, if_pos rfl, hl]
          rfl
      | false =>
          have hkind : OneKind (idsWith last t) := by
            have hsub : ∀ i ∈ idsWith last t, i ∈ idsWith last (it :: t) := by
              intro i hi
              rcases List.mem_append.mp hi with hi | hi
              · exact List.mem_append_left _ hi
              · exact htail i hi
            exact fun a ha b hb => h a (hsub a ha) b (hsub b hb)
          obtain ⟨l, hl⟩ := ih hkind
          exact ⟨l, bind_eq_ok.mpr ⟨false, rfl, hl⟩⟩

/-- Only the ids matter, not their order. -/
theorem oneKind_sortOn {last : Option SortKey} {items : List (Payload o key)} :
    OneKind (idsWith last (sortOn Payload.id items)) ↔ OneKind (idsWith last items) := by
  have hmem : ∀ i, i ∈ idsWith last (sortOn Payload.id items) ↔ i ∈ idsWith last items := by
    intro i
    rw [idsWith, idsWith, List.mem_append, List.mem_append,
      ((perm_sortOn Payload.id items).map Payload.id).mem_iff]
  constructor
  · exact fun h a ha b hb => h a ((hmem a).mpr ha) b ((hmem b).mpr hb)
  · exact fun h a ha b hb => h a ((hmem a).mp ha) b ((hmem b).mp hb)

/-- Where the ids are of one kind, a group is sorted. -/
theorem sortedById_eq {last : Option SortKey} {items : List (Payload o key)}
    (h : OneKind (idsWith last items)) : sortedById items = .ok (sortOn Payload.id items) := by
  refine if_pos (List.pairwise_of_forall_mem_list (fun a ha b hb => ?_))
  exact h a (List.mem_append_right _ ha) b (List.mem_append_right _ hb)

/-- A group is sorted only when its ids are of one kind. -/
theorem oneKind_of_sortedById {items s : List (Payload o key)} (h : sortedById items = .ok s) :
    s = sortOn Payload.id items ∧ OneKind (s.map Payload.id) := by
  unfold sortedById at h
  split at h
  · rename_i hpair
    obtain rfl := Except.ok.inj h
    refine ⟨rfl, fun a ha b hb => ?_⟩
    have hperm := (perm_sortOn Payload.id items).map Payload.id
    exact List.Pairwise.forall_of_forall (fun x _ => SortKey.alike_self x) hpair
      (hperm.mem_iff.mp ha) (hperm.mem_iff.mp hb)
  · cases h

/-- The loop compares the first of a group with the floor. -/
theorem alike_of_keepFresh {l : SortKey} {it : Payload o key} {t : List (Payload o key)}
    (h : Succeeds (keepFresh (some l) (it :: t))) : SortKey.alike it.id l = true := by
  obtain ⟨b, hb, -⟩ := succeeds_bind.mp h
  cases hal : SortKey.alike it.id l with
  | true => rfl
  | false =>
      rw [aboveLast, SortKey.gt_of_not_alike hal] at hb
      cases hb

/-- A group that is sorted and kept is of one kind with the floor. -/
theorem oneKind_of_succeeds {last : Option SortKey} {items : List (Payload o key)}
    (h : Succeeds (dedupById items last)) : OneKind (idsWith last items) := by
  obtain ⟨s, hs, hkeep⟩ := succeeds_bind.mp h
  obtain ⟨rfl, hsorted⟩ := oneKind_of_sortedById hs
  rw [← oneKind_sortOn]
  generalize sortOn Payload.id items = s at hkeep hsorted
  cases last with
  | none => exact hsorted
  | some l =>
      cases s with
      | nil => exact oneKind_last (some l)
      | cons it t =>
          -- everything is of the kind of the first of the group
          have hall : ∀ a ∈ idsWith (some l) (it :: t), SortKey.alike it.id a = true := by
            intro a ha
            rcases List.mem_cons.mp ha with rfl | ha
            · exact alike_of_keepFresh hkeep
            · exact hsorted it.id List.mem_cons_self a ha
          intro a ha b hb
          rw [← SortKey.alike_trans (hall a ha)]
          exact hall b hb

/-- **What `_dedup` raises on**: ids of two kinds, the floor's among them. -/
theorem succeeds_dedupById {last : Option SortKey} {items : List (Payload o key)} :
    Succeeds (dedupById items last) ↔ OneKind (idsWith last items) := by
  constructor
  · exact oneKind_of_succeeds
  · intro h
    obtain ⟨l, hl⟩ := keepFresh_eq (oneKind_sortOn.mpr h)
    exact succeeds_bind.mpr ⟨_, sortedById_eq h, _, hl⟩

/-- **What `_dedup` returns**: in id order, the first of each id above the floor. -/
theorem dedupById_eq_ok {last : Option SortKey} {items fresh : List (Payload o key)}
    {l : Option SortKey} (h : dedupById items last = .ok (fresh, l)) :
    fresh = newOf Payload.id last items := by
  have hkind : OneKind (idsWith last items) := oneKind_of_succeeds ⟨_, h⟩
  obtain ⟨l', hl'⟩ := keepFresh_eq (oneKind_sortOn.mpr hkind)
  have heq : dedupById items last = .ok (keep Payload.id last (sortOn Payload.id items), l') :=
    bind_eq_ok.mpr ⟨_, sortedById_eq hkind, hl'⟩
  rw [heq] at h
  rw [← keep_sortOn]
  exact (congrArg Prod.fst (Except.ok.inj h)).symm

end

/-! ## Groups -/

section

variable {o : Outside} {key : String}

/-- `it["symbol"]` as the key of a group. -/
def Payload.symbol (p : Payload o key) : Except PyErr HashKey :=
  field p.record "symbol" Json.hashKey

/-- The record belongs to the group of `s`. -/
def Payload.isOf (p : Payload o key) (s : HashKey) : Bool := decide (s ∈ returned p.symbol)

/-- The record is new for its symbol: above the symbol's floor, and the first of the batch with its
symbol and id. -/
def Payload.IsNew (p : Payload o key) (last : HashKey → Option SortKey)
    (items : List (Payload o key)) : Prop :=
  ∃ s, p.symbol = .ok s ∧ beyond (last s) p.id = true
    ∧ (items.filter (fun r => r.isOf s && decide (r.id = p.id))).head? = some p

/-- `_by_symbol`: the groups, symbols in order of first appearance. -/
def groupBySymbol (items : List (Payload o key)) :
    Except PyErr (List (HashKey × List (Payload o key))) := do
  let symbols ← items.mapM Payload.symbol
  return symbols.eraseDups.map (fun s => (s, items.filter (fun it => it.isOf s)))

/-- What `_apply_trades` and `_apply_quotes` differ in: the columns and the table. `complete` is
what the parser asks of a record. -/
structure Side (o : Outside) (key : String) where
  Row : Type
  Cells : Type
  parse : Payload o key → Except PyErr Row
  complete : Payload o key → Prop
  succeeds_parse : ∀ p, Succeeds (parse p) ↔ complete p
  time : Row → Int
  table : List Row → Except PyErr (List Cells)
  insert : HdbWriter → List Cells → HdbWriter

/-- Trades: `parse_live_ticks`, `RdbRoller.feed`. -/
def tradeSide (o : Outside) : Side o "trade_id" where
  Row := TickRow
  Cells := Trade
  parse := parseLiveTick o
  complete := CompleteTick o
  succeeds_parse _ := succeeds_parseLiveTick
  time := TickRow.time
  table := o.table
  insert := HdbWriter.insert

/-- Quotes: `parse_live_quotes`, `RdbRoller.feed_quote`. -/
def quoteSide (o : Outside) : Side o "update_id" where
  Row := QuoteTickRow
  Cells := Quote
  parse := parseLiveQuote o
  complete := CompleteQuote o
  succeeds_parse _ := succeeds_parseLiveQuote
  time := QuoteTickRow.time
  table := o.quoteTable
  insert := HdbWriter.insertQuote

/-- The roller, the floors, and the rows handed to the roller so far. -/
structure Applied {o : Outside} {key : String} (x : Side o key) where
  roller : RdbRoller
  last : HashKey → Option SortKey
  handed : List x.Row

namespace Side

variable (x : Side o key)

/-- `feed` or `feed_quote`: the date of the last row, the roll, the table. -/
def feed (r : RdbRoller) (cols : List x.Row) : Except PyErr RdbRoller := do
  let day ← RdbRoller.chunkDate (cols.map x.time)
  let cells ← x.table cols
  return { (r.roll day).1 with writer := x.insert (r.roll day).1.writer cells }

/-- One round of `_apply_trades` or `_apply_quotes`. -/
def applyGroup (a : Applied x) (s : HashKey) (group : List (Payload o key)) :
    Except PyErr (Applied x) := do
  let (fresh, last) ← dedupById group (a.last s)
  if fresh = [] then return { a with last := Function.update a.last s last }
  else
    let cols ← fresh.mapM x.parse
    let roller ← x.feed a.roller cols
    return ⟨roller, Function.update a.last s last, a.handed ++ cols⟩

/-- `_apply_trades` or `_apply_quotes`. -/
def applyAll (a : Applied x) (items : List (Payload o key)) : Except PyErr (Applied x) := do
  let groups ← groupBySymbol items
  groups.foldlM (fun a g => x.applyGroup a g.1 g.2) a

/-- The rows of some records, as far as they parse. -/
def rowsOf (items : List (Payload o key)) : List x.Row :=
  items.flatMap (fun p => returned (x.parse p))

/-- The roller takes some rows: the time of the last is in a year from 1 to 9999, and pykx makes a
table of them. -/
def Feeds (cols : List x.Row) : Prop :=
  Succeeds (RdbRoller.chunkDate (cols.map x.time)) ∧ Succeeds (x.table cols)

/-- A group that does no harm: its ids and the floor are of one kind, and what is new is complete
and taken by the roller. -/
structure GroupFits (last : Option SortKey) (group : List (Payload o key)) : Prop where
  oneKind : OneKind (idsWith last group)
  complete : ∀ p ∈ newOf Payload.id last group, x.complete p
  feeds : newOf Payload.id last group ≠ [] → x.Feeds (x.rowsOf (newOf Payload.id last group))

/-- A batch that does no harm: every record names a symbol, and every symbol's group fits. -/
structure Fits (last : HashKey → Option SortKey) (items : List (Payload o key)) : Prop where
  symbols : ∀ p ∈ items, Succeeds p.symbol
  groups : ∀ s, x.GroupFits (last s) (items.filter (fun p => p.isOf s))

variable {x}

theorem feed_of_ok {r : RdbRoller} {cols : List x.Row} {day : Date} {cells : List x.Cells}
    (hday : RdbRoller.chunkDate (cols.map x.time) = .ok day) (htable : x.table cols = .ok cells) :
    x.feed r cols = .ok { (r.roll day).1 with writer := x.insert (r.roll day).1.writer cells } :=
  bind_eq_ok.mpr ⟨day, hday, bind_eq_ok.mpr ⟨cells, htable, rfl⟩⟩

theorem feed_of_error {r : RdbRoller} {cols : List x.Row} {e : PyErr}
    (hday : RdbRoller.chunkDate (cols.map x.time) = .error e) : x.feed r cols = .error e :=
  bind_eq_error.mpr (Or.inl hday)

/-- Where the table takes the columns, `feed` does what a typed feed with the same times does. -/
theorem feed_agrees {r : RdbRoller} {cols : List x.Row} {cells : List x.Cells} {times : List Int}
    {y : Except PyErr (RdbRoller × FeedResult)} (htimes : cols.map x.time = times)
    (htable : x.table cols = .ok cells)
    (hok : ∀ day, RdbRoller.chunkDate times = .ok day → ∃ res, y
      = .ok ({ (r.roll day).1 with writer := x.insert (r.roll day).1.writer cells }, res))
    (herror : ∀ e, RdbRoller.chunkDate times = .error e → y = .error e) :
    Agree (fun r' res => r' = res.1) (x.feed r cols) y := by
  subst htimes
  cases hday : RdbRoller.chunkDate (cols.map x.time) with
  | ok day =>
      obtain ⟨res, rfl⟩ := hok day hday
      rw [feed_of_ok hday htable]
      exact .ok rfl
  | error e =>
      rw [feed_of_error hday, herror e hday]
      exact .error e

theorem succeeds_feed {r : RdbRoller} {cols : List x.Row} :
    Succeeds (x.feed r cols) ↔ x.Feeds cols := by
  unfold feed
  rw [succeeds_bind]
  constructor
  · rintro ⟨day, hday, hrest⟩
    obtain ⟨cells, hcells, -⟩ := succeeds_bind.mp hrest
    exact ⟨⟨day, hday⟩, cells, hcells⟩
  · rintro ⟨⟨day, hday⟩, cells, hcells⟩
    exact ⟨day, hday, succeeds_bind.mpr ⟨cells, hcells, succeeds_ok _⟩⟩

/-- **What one round does**: it keeps the new records of the group, in id order, and hands their
rows to the roller; it changes the floor of its symbol only. -/
theorem applyGroup_eq_ok {a a' : Applied x} {s : HashKey} {group : List (Payload o key)}
    (h : x.applyGroup a s group = .ok a') :
    x.GroupFits (a.last s) group
      ∧ a'.handed = a.handed ++ x.rowsOf (newOf Payload.id (a.last s) group)
      ∧ ∀ s', s' ≠ s → a'.last s' = a.last s' := by
  unfold applyGroup at h
  obtain ⟨⟨fresh, last⟩, hdedup, h⟩ := bind_eq_ok.mp h
  have hkind := succeeds_dedupById.mp ⟨_, hdedup⟩
  obtain rfl := dedupById_eq_ok hdedup
  dsimp only at h
  have hframe : ∀ s', s' ≠ s → Function.update a.last s last s' = a.last s' :=
    fun s' hs' => Function.update_of_ne hs' _ _
  split at h
  · rename_i hnil
    obtain rfl := Except.ok.inj h
    refine ⟨⟨hkind, ?_, fun hne => absurd hnil hne⟩, ?_, hframe⟩
    · rw [hnil]
      exact fun p hp => absurd hp List.not_mem_nil
    · rw [hnil]
      exact (List.append_nil _).symm
  · obtain ⟨cols, hcols, h⟩ := bind_eq_ok.mp h
    obtain ⟨hall, rfl⟩ := mapM_eq_ok.mp hcols
    obtain ⟨roller, hfeed, h⟩ := bind_eq_ok.mp h
    obtain rfl := Except.ok.inj h
    refine ⟨⟨hkind, fun p hp => (x.succeeds_parse p).mp (hall p hp), fun _ => ?_⟩, rfl, hframe⟩
    exact succeeds_feed.mp ⟨roller, hfeed⟩

/-- **When one round returns.** -/
theorem succeeds_applyGroup {a : Applied x} {s : HashKey} {group : List (Payload o key)} :
    Succeeds (x.applyGroup a s group) ↔ x.GroupFits (a.last s) group := by
  constructor
  · rintro ⟨a', h⟩
    exact (applyGroup_eq_ok h).1
  · intro h
    obtain ⟨⟨fresh, last⟩, hdedup⟩ := succeeds_dedupById.mpr h.oneKind
    obtain rfl := dedupById_eq_ok hdedup
    refine succeeds_bind.mpr ⟨_, hdedup, ?_⟩
    dsimp only
    split
    · exact succeeds_ok _
    · rename_i hne
      have hparse : (newOf Payload.id (a.last s) group).mapM x.parse
          = .ok (x.rowsOf (newOf Payload.id (a.last s) group)) :=
        mapM_eq_ok.mpr ⟨fun p hp => (x.succeeds_parse p).mpr (h.complete p hp), rfl⟩
      obtain ⟨roller, hroller⟩ := succeeds_feed (r := a.roller) |>.mpr (h.feeds hne)
      refine succeeds_bind.mpr ⟨_, hparse, ?_⟩
      exact succeeds_bind.mpr ⟨roller, hroller, succeeds_ok _⟩

/-- The groups of a batch. -/
def groupsOf (items : List (Payload o key)) : List (HashKey × List (Payload o key)) :=
  (items.flatMap (fun p => returned p.symbol)).eraseDups.map
    (fun s => (s, items.filter (fun p => p.isOf s)))

theorem groupBySymbol_eq_ok {items : List (Payload o key)}
    {groups : List (HashKey × List (Payload o key))} :
    groupBySymbol items = .ok groups
      ↔ (∀ p ∈ items, Succeeds p.symbol) ∧ groups = groupsOf items := by
  unfold groupBySymbol
  rw [bind_eq_ok]
  constructor
  · rintro ⟨symbols, hsymbols, hgroups⟩
    obtain ⟨hall, rfl⟩ := mapM_eq_ok.mp hsymbols
    exact ⟨hall, (Except.ok.inj hgroups).symm⟩
  · rintro ⟨hall, rfl⟩
    exact ⟨_, mapM_eq_ok.mpr ⟨hall, rfl⟩, rfl⟩

theorem mem_groupsOf {items : List (Payload o key)} {g : HashKey × List (Payload o key)} :
    g ∈ groupsOf items
      ↔ (∃ p ∈ items, p.isOf g.1 = true) ∧ g.2 = items.filter (fun p => p.isOf g.1) := by
  have hkey : ∀ s, s ∈ (items.flatMap (fun p => returned p.symbol)).eraseDups
      ↔ ∃ p ∈ items, p.isOf s = true := by
    intro s
    rw [List.mem_eraseDups, List.mem_flatMap]
    exact exists_congr (fun p => and_congr Iff.rfl decide_eq_true_iff.symm)
  rw [groupsOf, List.mem_map]
  constructor
  · rintro ⟨s, hs, rfl⟩
    exact ⟨(hkey s).mp hs, rfl⟩
  · rintro ⟨hs, hg⟩
    exact ⟨g.1, (hkey g.1).mpr hs, Prod.ext rfl hg.symm⟩

/-- No two groups are of one symbol. -/
theorem groupsOf_pairwise (items : List (Payload o key)) :
    (groupsOf items).Pairwise (fun g g' => g.1 ≠ g'.1) :=
  List.pairwise_map.mpr (nodup_eraseDups _)

/-- A group without records fits whatever the floor. -/
theorem groupFits_nil (last : Option SortKey) : x.GroupFits last [] where
  oneKind := oneKind_last last
  complete := fun _ hp => absurd hp List.not_mem_nil
  feeds := fun hne => absurd rfl hne

/-- **When a batch is applied without raising.** -/
theorem succeeds_applyAll {a : Applied x} {items : List (Payload o key)} :
    Succeeds (x.applyAll a items) ↔ x.Fits a.last items := by
  have hfold : Succeeds ((groupsOf items).foldlM (fun a g => x.applyGroup a g.1 g.2) a)
      ↔ ∀ g ∈ groupsOf items, x.GroupFits (a.last g.1) g.2 := by
    refine succeeds_foldlM
      (fun (a : Applied x) (g : HashKey × List (Payload o key)) => x.GroupFits (a.last g.1) g.2)
      (fun _ _ => succeeds_applyGroup) ((groupsOf_pairwise items).imp ?_)
    -- the rounds of other symbols leave the floor of a symbol alone
    intro g g' hne b b' hb
    rw [(applyGroup_eq_ok hb).2.2 g'.1 (Ne.symm hne)]
  unfold applyAll
  rw [succeeds_bind]
  constructor
  · rintro ⟨groups, hgroups, hrest⟩
    obtain ⟨hsymbols, rfl⟩ := groupBySymbol_eq_ok.mp hgroups
    refine ⟨hsymbols, fun s => ?_⟩
    by_cases hs : ∃ p ∈ items, p.isOf s = true
    · exact hfold.mp hrest (s, items.filter (fun p => p.isOf s)) (mem_groupsOf.mpr ⟨hs, rfl⟩)
    · have hnil : items.filter (fun p => p.isOf s) = [] :=
        List.filter_eq_nil_iff.mpr (fun p hp hof => hs ⟨p, hp, hof⟩)
      rw [hnil]
      exact groupFits_nil _
  · intro h
    refine ⟨groupsOf items, groupBySymbol_eq_ok.mpr ⟨h.symbols, rfl⟩, hfold.mpr ?_⟩
    intro g hg
    rw [(mem_groupsOf.mp hg).2]
    exact h.groups g.1

/-- What a batch hands to the roller: group by group the rows of what is new. -/
theorem handed_applyAll {a a' : Applied x} {items : List (Payload o key)}
    (h : x.applyAll a items = .ok a') : a'.handed
      = a.handed ++ (groupsOf items).flatMap
          (fun g => x.rowsOf (newOf Payload.id (a.last g.1) g.2)) := by
  unfold applyAll at h
  obtain ⟨groups, hgroups, hrest⟩ := bind_eq_ok.mp h
  obtain ⟨-, rfl⟩ := groupBySymbol_eq_ok.mp hgroups
  refine foldlM_out Applied.handed
    (fun (a : Applied x) (g : HashKey × List (Payload o key)) =>
      x.rowsOf (newOf Payload.id (a.last g.1) g.2))
    (fun a g a' hround => (applyGroup_eq_ok hround).2.1) ?_ hrest
  refine (groupsOf_pairwise items).imp ?_
  intro g g' hne b b' hb
  rw [(applyGroup_eq_ok hb).2.2 g'.1 (Ne.symm hne)]

/-- What is new for its symbol is what its group keeps. -/
theorem mem_newOf_of_isNew {last : HashKey → Option SortKey} {items : List (Payload o key)}
    {p : Payload o key} (h : p.IsNew last items) :
    ∃ g ∈ groupsOf items, p ∈ newOf Payload.id (last g.1) g.2 := by
  obtain ⟨s, -, hbeyond, hhead⟩ := h
  have hmem := List.mem_filter.mp (List.mem_of_mem_head? hhead)
  have hof : p.isOf s = true := (Bool.and_eq_true_iff.mp hmem.2).1
  refine ⟨(s, items.filter (fun r => r.isOf s)), mem_groupsOf.mpr ⟨⟨p, hmem.1, hof⟩, rfl⟩, ?_⟩
  refine mem_newOf.mpr ⟨?_, hbeyond⟩
  rw [List.filter_filter, ← hhead]
  refine congrArg List.head? (List.filter_congr (fun r _ => ?_))
  rw [Bool.and_comm]
  exact congrArg (r.isOf s && ·) (decide_eq_decide.mpr Iff.rfl)

/-- **A batch takes no neighbour with it**: what is new and complete is handed on. -/
theorem handed_of_isNew {a a' : Applied x} {items : List (Payload o key)}
    (h : x.applyAll a items = .ok a') {p : Payload o key} (hnew : p.IsNew a.last items)
    (hcomplete : x.complete p) : ∃ row ∈ a'.handed, x.parse p = .ok row := by
  obtain ⟨row, hrow⟩ := (x.succeeds_parse p).mpr hcomplete
  obtain ⟨g, hg, hp⟩ := mem_newOf_of_isNew hnew
  refine ⟨row, ?_, hrow⟩
  rw [handed_applyAll h]
  refine List.mem_append_right _ (List.mem_flatMap.mpr ⟨g, hg, List.mem_flatMap.mpr ⟨p, hp, ?_⟩⟩)
  rw [hrow]
  exact List.mem_singleton_self row

end Side

end

/-! ## Messages and batches -/

section

variable {o : Outside}

/-- `[m for k, m in batch if k == "trade"]`. -/
def queuedTrades (batch : List (Queued o)) : List (Payload o "trade_id") :=
  batch.filterMap (fun | .trade p => some p | .quote _ => none)

/-- `[m for k, m in batch if k == "quote"]`. -/
def queuedQuotes (batch : List (Queued o)) : List (Payload o "update_id") :=
  batch.filterMap (fun | .trade _ => none | .quote p => some p)

namespace RawHandler

/-- `_apply_trades`, with the rows it hands to the roller where the source counts them. -/
def applyTrades (h : RawHandler o) (trades : List (Payload o "trade_id")) :
    Except PyErr (RawHandler o × List TickRow) := do
  let a ← (tradeSide o).applyAll ⟨h.roller, h.lastId, []⟩ trades
  return ({ h with roller := a.roller, lastId := a.last }, a.handed)

/-- `_apply_quotes`. -/
def applyQuotes (h : RawHandler o) (quotes : List (Payload o "update_id")) :
    Except PyErr (RawHandler o × List QuoteTickRow) := do
  let a ← (quoteSide o).applyAll ⟨h.roller, h.lastQuoteId, []⟩ quotes
  return ({ h with roller := a.roller, lastQuoteId := a.last }, a.handed)

theorem applyTrades_eq_ok {h h' : RawHandler o} {trades : List (Payload o "trade_id")}
    {rows : List TickRow} (hok : h.applyTrades trades = .ok (h', rows)) :
    h'.lastQuoteId = h.lastQuoteId
      ∧ ∃ a, (tradeSide o).applyAll ⟨h.roller, h.lastId, []⟩ trades = .ok a ∧ rows = a.handed := by
  obtain ⟨a, ha, hret⟩ := bind_eq_ok.mp hok
  cases hret
  exact ⟨rfl, a, ha, rfl⟩

theorem applyQuotes_eq_ok {h h' : RawHandler o} {quotes : List (Payload o "update_id")}
    {rows : List QuoteTickRow} (hok : h.applyQuotes quotes = .ok (h', rows)) :
    ∃ a, (quoteSide o).applyAll ⟨h.roller, h.lastQuoteId, []⟩ quotes = .ok a
      ∧ rows = a.handed := by
  obtain ⟨a, ha, hret⟩ := bind_eq_ok.mp hok
  cases hret
  exact ⟨a, ha, rfl⟩

theorem succeeds_applyTrades {h : RawHandler o} {trades : List (Payload o "trade_id")} :
    Succeeds (h.applyTrades trades) ↔ (tradeSide o).Fits h.lastId trades := by
  refine Iff.trans ?_ (Side.succeeds_applyAll (a := ⟨h.roller, h.lastId, []⟩))
  rw [applyTrades, succeeds_bind]
  exact exists_congr (fun a => and_iff_left (succeeds_ok _))

theorem succeeds_applyQuotes {h : RawHandler o} {quotes : List (Payload o "update_id")} :
    Succeeds (h.applyQuotes quotes) ↔ (quoteSide o).Fits h.lastQuoteId quotes := by
  refine Iff.trans ?_ (Side.succeeds_applyAll (a := ⟨h.roller, h.lastQuoteId, []⟩))
  rw [applyQuotes, succeeds_bind]
  exact exists_congr (fun a => and_iff_left (succeeds_ok _))

/-- No message and no record stops the handler: every message of `ms` is taken, and a batch is
applied whole, its complete new records handed to the roller. -/
structure NothingStops (h : RawHandler o) (ms : List Message) (g : RawHandler o)
    (batch : List (Queued o)) : Prop where
  messages : Succeeds (ms.foldlM onMessage h)
  batch : ∃ g₁ rows g₂ quotes, g.applyTrades (queuedTrades batch) = .ok (g₁, rows)
    ∧ g₁.applyQuotes (queuedQuotes batch) = .ok (g₂, quotes)
    ∧ (∀ p, p.IsNew g.lastId (queuedTrades batch) → CompleteTick o p
      → ∃ row ∈ rows, parseLiveTick o p = .ok row)
    ∧ ∀ p, p.IsNew g.lastQuoteId (queuedQuotes batch) → CompleteQuote o p
      → ∃ row ∈ quotes, parseLiveQuote o p = .ok row

/-- **Which messages and batches do no harm.** The handler takes the messages, and applies a batch
of payloads it let through, exactly when `json.loads` raises nothing it does not catch, no id is
infinite, every record names a symbol, the ids of a symbol and its floor are of one kind, and what
is new is complete, of a date, and fit for a table. -/
theorem nothingStops_iff (h : RawHandler o) (ms : List Message) (g : RawHandler o)
    (batch : List (Queued o)) : NothingStops h ms g batch
      ↔ (∀ m ∈ ms, Readable o m) ∧ (tradeSide o).Fits g.lastId (queuedTrades batch)
        ∧ (quoteSide o).Fits g.lastQuoteId (queuedQuotes batch) := by
  constructor
  · rintro ⟨hms, g₁, rows, g₂, quotes, htrades, hquotes, -⟩
    refine ⟨succeeds_messages.mp hms, succeeds_applyTrades.mp ⟨_, htrades⟩, ?_⟩
    rw [← (applyTrades_eq_ok htrades).1]
    exact succeeds_applyQuotes.mp ⟨_, hquotes⟩
  · rintro ⟨hms, htrades, hquotes⟩
    obtain ⟨⟨g₁, rows⟩, hrows⟩ := succeeds_applyTrades.mpr htrades
    obtain ⟨hframe, a, ha, rfl⟩ := applyTrades_eq_ok hrows
    rw [← hframe] at hquotes
    obtain ⟨⟨g₂, quotes⟩, hqrows⟩ := succeeds_applyQuotes.mpr hquotes
    obtain ⟨b, hb, rfl⟩ := applyQuotes_eq_ok hqrows
    rw [hframe] at hb
    refine ⟨succeeds_messages.mpr hms, g₁, _, g₂, _, hrows, hqrows, ?_, ?_⟩
    · exact fun p hnew hcomplete => Side.handed_of_isNew ha hnew hcomplete
    · exact fun p hnew hcomplete => Side.handed_of_isNew hb hnew hcomplete

/-! ### A message that ends the process -/

/-- The bytes of `{"trade_id": 5}`. -/
def tradeFive : List UInt8 := [123, 34, 116, 114, 97, 100, 101, 95, 105, 100, 34, 58, 32, 53, 125]

/-- `json.loads` on these bytes and on text that is not JSON. -/
def loadsFive (raw : List UInt8) : Except PyErr Json :=
  if raw = tradeFive then .ok (.obj [("trade_id", .num (.rat 5))]) else .error .jsonDecodeError

/-- What the code calls, as far as these bytes make it call anything. -/
def outsideFive : Outside where
  loads := loadsFive
  intOfStr _ := none
  floatOfStr _ := none
  table _ := .error .typeError
  quoteTable _ := .error .typeError

/-- The payload the network thread makes of them. -/
def payloadFive : Payload outsideFive "trade_id" where
  record := .obj [("trade_id", .num (.rat 5))]
  id := .num 5
  accepted := ⟨.num (.rat 5), 5, rfl, rfl, rfl⟩

theorem decode_tradeFive :
    decode outsideFive ⟨"ticks/x", tradeFive⟩ = .ok (.trade payloadFive) := by
  rfl

/-- A handler at its start. -/
def idle (o : Outside) : RawHandler o where
  queue := []
  dropped := 0
  roller := RdbRoller.fresh Hdb.empty
  lastId _ := none
  lastQuoteId _ := none

/-- A record without a symbol ends the process. -/
theorem stopped_by_missing_symbol : ¬ ∀ (o : Outside) (h : RawHandler o) (ms : List Message)
    (g : RawHandler o) (batch : List (Queued o)),
    (∀ r ∈ batch, ∃ m ∈ ms, decode o m = .ok r) → NothingStops h ms g batch := by
  intro hall
  have henqueued : ∀ r ∈ [Queued.trade payloadFive],
      ∃ m ∈ [(⟨"ticks/x", tradeFive⟩ : Message)], decode outsideFive m = .ok r := by
    intro r hr
    rw [List.mem_singleton.mp hr]
    exact ⟨_, List.mem_singleton_self _, decode_tradeFive⟩
  obtain ⟨g₁, rows, g₂, quotes, htrades, -⟩ :=
    (hall outsideFive (idle outsideFive) _ (idle outsideFive) _ henqueued).batch
  obtain ⟨s, hs⟩ := (succeeds_applyTrades.mp ⟨_, htrades⟩).symbols payloadFive
    (List.mem_singleton_self _)
  cases hs

end RawHandler

end

end NanoTick
