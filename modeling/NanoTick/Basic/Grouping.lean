import Mathlib.Data.List.Sort
import Mathlib.Data.List.Dedup
import Mathlib.Data.Prod.Lex
import Mathlib.Tactic

set_option autoImplicit false

/-! # Grouping a list by a key

`groupOn key l` lists the distinct keys of `l` in ascending order, each with the elements
that carry it in their order in `l`. It is what a keyed aggregation (`select … by key`)
works on.

The two facts the aggregations need:

* grouping commutes with restricting to some of the keys (`groupOn_filter`) and with a
  strictly monotone renaming of the keys (`groupOn_map_key`);
* **nested grouping** (`selectBy_selectBy`): when a coarse key is a function of a fine one,
  the fine groups inside a coarse group are the fine groups of that coarse group, and for a
  list in fine-key order they concatenate to it (`flatten_groupOn`).
-/

namespace Grouping

variable {α β κ μ : Type} [LinearOrder κ] [LinearOrder μ]

/-! ## Stable sorting and filters -/

/-- Sorting by a key keeps the order of the elements of equal key. -/
def sortOn (key : α → κ) (l : List α) : List α :=
  l.insertionSort (fun a b => key a ≤ key b)

theorem perm_sortOn (key : α → κ) (l : List α) : (sortOn key l).Perm l :=
  List.perm_insertionSort _ l

theorem mem_sortOn {key : α → κ} {l : List α} {a : α} : a ∈ sortOn key l ↔ a ∈ l :=
  (perm_sortOn key l).mem_iff

theorem sortOn_pairwise (key : α → κ) (l : List α) :
    (sortOn key l).Pairwise (fun a b => key a ≤ key b) := by
  have : Std.Total (fun a b : α => key a ≤ key b) := ⟨fun a b => le_total _ _⟩
  have : IsTrans α (fun a b : α => key a ≤ key b) := ⟨fun _ _ _ h₁ h₂ => le_trans h₁ h₂⟩
  exact List.pairwise_insertionSort _ l

theorem sortOn_of_pairwise {key : α → κ} {l : List α}
    (h : l.Pairwise (fun a b => key a ≤ key b)) : sortOn key l = l :=
  h.insertionSort_eq

/-- Renaming by a function that keeps the order of keys. -/
theorem sortOn_map {β : Type} (key : α → κ) (key' : β → μ) (f : α → β)
    (h : ∀ a b, key' (f a) ≤ key' (f b) ↔ key a ≤ key b) (l : List α) :
    sortOn key' (l.map f) = (sortOn key l).map f :=
  (List.map_insertionSort _ _ f l (fun a _ b _ => (h a b).symm)).symm

private theorem orderedInsert_filter (key : α → κ) (p : α → Bool) (a : α) (l : List α)
    (hl : l.Pairwise (fun a b => key a ≤ key b)) :
    (l.orderedInsert (fun a b => key a ≤ key b) a).filter p
      = if p a then (l.filter p).orderedInsert (fun a b => key a ≤ key b) a
        else l.filter p := by
  induction l with
  | nil => cases hp : p a <;> simp [hp]
  | cons b t ih =>
      obtain ⟨hb, ht⟩ := List.pairwise_cons.mp hl
      rw [List.orderedInsert_cons]
      by_cases hab : key a ≤ key b
      · rw [if_pos hab, List.filter_cons]
        cases hp : p a with
        | false => simp
        | true =>
            -- everything after `b` is at least `key b`, so `a` also stays in front once filtered
            have hfront : ∀ c ∈ (b :: t).filter p, key a ≤ key c := by
              intro c hc
              rcases List.mem_cons.mp (List.mem_filter.mp hc).1 with rfl | hct
              · exact hab
              · exact le_trans hab (hb c hct)
            simp only [if_true]
            cases hf : (b :: t).filter p with
            | nil => rfl
            | cons c u =>
                rw [List.orderedInsert_cons, if_pos (hfront c (by rw [hf]; simp))]
      · rw [if_neg hab, List.filter_cons, ih ht]
        cases hpb : p b with
        | false => simp [hpb]
        | true =>
            cases hpa : p a with
            | false => simp [hpb]
            | true => simp [hpb, hab]

/-- **Stability.** Filtering a sorted list is sorting the filtered one. -/
theorem filter_sortOn (key : α → κ) (p : α → Bool) (l : List α) :
    (sortOn key l).filter p = sortOn key (l.filter p) := by
  induction l with
  | nil => rfl
  | cons a t ih =>
      show (List.orderedInsert _ a (sortOn key t)).filter p = _
      rw [orderedInsert_filter key p a _ (sortOn_pairwise key t), ih, List.filter_cons]
      cases hp : p a <;> simp [sortOn]

/-- Sorting by a key does not move the elements of one key value. -/
theorem filter_eq_sortOn (key : α → κ) (k : κ) (l : List α) :
    (sortOn key l).filter (fun a => decide (key a = k))
      = l.filter (fun a => decide (key a = k)) := by
  rw [filter_sortOn]
  apply sortOn_of_pairwise
  refine List.pairwise_of_forall_mem_list (fun a ha b hb => ?_)
  rw [of_decide_eq_true (List.mem_filter.mp ha).2, of_decide_eq_true (List.mem_filter.mp hb).2]

/-! ## Keys -/

/-- The distinct keys of a list, ascending. -/
def keysOf (key : α → κ) (l : List α) : List κ :=
  (l.map key).dedup.insertionSort (· ≤ ·)

theorem mem_keysOf {key : α → κ} {l : List α} {k : κ} :
    k ∈ keysOf key l ↔ ∃ a ∈ l, key a = k := by
  rw [keysOf, List.mem_insertionSort, List.mem_dedup, List.mem_map]

theorem keysOf_pairwise (key : α → κ) (l : List α) : (keysOf key l).Pairwise (· < ·) := by
  have hle : (keysOf key l).Pairwise (· ≤ ·) := List.pairwise_insertionSort _ _
  have hne : (keysOf key l).Nodup :=
    (List.perm_insertionSort _ _).nodup_iff.mpr (List.nodup_dedup _)
  exact hle.imp₂ (fun _ _ h hn => lt_of_le_of_ne h hn) hne

/-- A strictly ascending list is the key list as soon as it has the right members. -/
theorem keysOf_eq {key : α → κ} {l : List α} {ks : List κ} (hks : ks.Pairwise (· < ·))
    (h : ∀ k, k ∈ ks ↔ ∃ a ∈ l, key a = k) : keysOf key l = ks :=
  (keysOf_pairwise key l).eq_of_mem_iff hks (fun k => by rw [mem_keysOf, h])

theorem keysOf_filter (key : α → κ) (q : κ → Bool) (l : List α) :
    keysOf key (l.filter (fun a => q (key a))) = (keysOf key l).filter q := by
  refine keysOf_eq ((keysOf_pairwise key l).filter q) (fun k => ?_)
  rw [List.mem_filter, mem_keysOf]
  constructor
  · rintro ⟨⟨a, ha, rfl⟩, hq⟩
    exact ⟨a, List.mem_filter.mpr ⟨ha, hq⟩, rfl⟩
  · rintro ⟨a, ha, rfl⟩
    obtain ⟨ha, hq⟩ := List.mem_filter.mp ha
    exact ⟨⟨a, ha, rfl⟩, hq⟩

theorem keysOf_map_key (key : α → κ) (e : κ → μ) (he : StrictMono e) (l : List α) :
    keysOf (fun a => e (key a)) l = (keysOf key l).map e := by
  refine keysOf_eq ((keysOf_pairwise key l).map e (fun _ _ h => he h)) (fun k => ?_)
  simp only [List.mem_map, mem_keysOf]
  constructor
  · rintro ⟨_, ⟨a, ha, rfl⟩, rfl⟩
    exact ⟨a, ha, rfl⟩
  · rintro ⟨a, ha, rfl⟩
    exact ⟨_, ⟨a, ha, rfl⟩, rfl⟩

/-- The keys do not depend on the order. -/
theorem keysOf_perm (key : α → κ) {l l' : List α} (h : l.Perm l') : keysOf key l = keysOf key l' :=
  keysOf_eq (keysOf_pairwise key l') (fun k => by
    rw [mem_keysOf]
    exact exists_congr (fun a => and_congr_left' h.mem_iff.symm))

theorem keysOf_congr {key key' : α → κ} {l : List α} (h : ∀ a ∈ l, key a = key' a) :
    keysOf key l = keysOf key' l := by
  rw [keysOf, keysOf, List.map_congr_left h]

/-! ## Groups -/

/-- The elements of key `k`. -/
def groupAt (key : α → κ) (l : List α) (k : κ) : List α :=
  l.filter (fun a => decide (key a = k))

theorem mem_groupAt {key : α → κ} {l : List α} {k : κ} {a : α} :
    a ∈ groupAt key l k ↔ a ∈ l ∧ key a = k := by
  simp [groupAt]

/-- The distinct keys, ascending, each with its elements in list order. -/
def groupOn (key : α → κ) (l : List α) : List (κ × List α) :=
  (keysOf key l).map (fun k => (k, groupAt key l k))

/-- A keyed aggregation: one row per key, in key order. -/
def selectBy (key : α → κ) (agg : List α → β) (l : List α) : List (κ × β) :=
  (groupOn key l).map (fun g => (g.1, agg g.2))

theorem selectBy_eq_map_keysOf (key : α → κ) (agg : List α → β) (l : List α) :
    selectBy key agg l = (keysOf key l).map (fun k => (k, agg (groupAt key l k))) := by
  rw [selectBy, groupOn, List.map_map]
  rfl

theorem map_fst_selectBy (key : α → κ) (agg : List α → β) (l : List α) :
    (selectBy key agg l).map Prod.fst = keysOf key l := by
  rw [selectBy_eq_map_keysOf, List.map_map]
  exact List.map_id _

theorem mem_groupOn {key : α → κ} {l : List α} {g : κ × List α} :
    g ∈ groupOn key l ↔ g.1 ∈ keysOf key l ∧ g.2 = groupAt key l g.1 := by
  rw [groupOn, List.mem_map]
  constructor
  · rintro ⟨k, hk, rfl⟩
    exact ⟨hk, rfl⟩
  · rintro ⟨hk, hg⟩
    exact ⟨g.1, hk, by rw [← hg]⟩

/-- Groups are never empty. -/
theorem groupOn_ne_nil {key : α → κ} {l : List α} {g : κ × List α} (hg : g ∈ groupOn key l) :
    g.2 ≠ [] := by
  obtain ⟨hk, hg⟩ := mem_groupOn.mp hg
  obtain ⟨a, ha, hka⟩ := mem_keysOf.mp hk
  rw [hg]
  exact List.ne_nil_of_mem (mem_groupAt.mpr ⟨ha, hka⟩)

theorem groupOn_congr {key key' : α → κ} {l : List α} (h : ∀ a ∈ l, key a = key' a) :
    groupOn key l = groupOn key' l := by
  rw [groupOn, groupOn, keysOf_congr h]
  refine List.map_congr_left (fun k _ => ?_)
  rw [groupAt, groupAt]
  exact congrArg (Prod.mk k) (List.filter_congr (fun a ha => by rw [h a ha]))

theorem selectBy_congr {key key' : α → κ} {agg : List α → β} {l : List α}
    (h : ∀ a ∈ l, key a = key' a) : selectBy key agg l = selectBy key' agg l := by
  rw [selectBy, selectBy, groupOn_congr h]

/-- Restricting to some of the keys. -/
theorem groupOn_filter (key : α → κ) (q : κ → Bool) (l : List α) :
    groupOn key (l.filter (fun a => q (key a))) = (groupOn key l).filter (fun g => q g.1) := by
  rw [groupOn, groupOn, keysOf_filter, List.filter_map]
  refine List.map_congr_left (fun k hk => ?_)
  have hq : q k = true := (List.mem_filter.mp hk).2
  rw [groupAt, groupAt, List.filter_filter]
  refine congrArg (Prod.mk k) (List.filter_congr (fun a _ => ?_))
  by_cases hak : key a = k
  · subst hak; simp [hq]
  · simp [hak]

/-- Renaming the keys along a strictly monotone map. -/
theorem groupOn_map_key (key : α → κ) (e : κ → μ) (he : StrictMono e) (l : List α) :
    groupOn (fun a => e (key a)) l = (groupOn key l).map (fun g => (e g.1, g.2)) := by
  rw [groupOn, groupOn, keysOf_map_key key e he, List.map_map, List.map_map]
  refine List.map_congr_left (fun k _ => ?_)
  simp only [Function.comp, groupAt, he.injective.eq_iff]

theorem keysOf_map (key : β → κ) (f : α → β) (l : List α) :
    keysOf key (l.map f) = keysOf (fun a => key (f a)) l := by
  rw [keysOf, keysOf, List.map_map]
  rfl

/-- Grouping the images of the elements. -/
theorem groupOn_map (key : β → κ) (f : α → β) (l : List α) :
    groupOn key (l.map f) = (groupOn (fun a => key (f a)) l).map (fun g => (g.1, g.2.map f)) := by
  rw [groupOn, groupOn, keysOf_map, List.map_map]
  refine List.map_congr_left (fun k _ => ?_)
  rw [groupAt, List.filter_map]
  rfl

theorem selectBy_map {γ : Type} (key : β → κ) (agg : List β → γ) (f : α → β) (l : List α) :
    selectBy key agg (l.map f) = selectBy (fun a => key (f a)) (fun g => agg (g.map f)) l := by
  rw [selectBy, selectBy, groupOn_map, List.map_map]
  rfl

/-- Two aggregations of a list are equal exactly when they have the same keys and agree on
every group. -/
theorem selectBy_eq_iff {key key' : α → κ} {agg agg' : List α → β} {l : List α} :
    selectBy key agg l = selectBy key' agg' l
      ↔ keysOf key l = keysOf key' l
        ∧ ∀ k ∈ keysOf key l, agg (groupAt key l k) = agg' (groupAt key' l k) := by
  have hlist : keysOf key l = keysOf key' l → (selectBy key agg l = selectBy key' agg' l
      ↔ ∀ k ∈ keysOf key l, agg (groupAt key l k) = agg' (groupAt key' l k)) := by
    intro hkeys
    rw [selectBy_eq_map_keysOf, selectBy_eq_map_keysOf, ← hkeys, List.map_inj_left]
    simp only [Prod.mk.injEq, true_and]
  constructor
  · intro h
    have hkeys : keysOf key l = keysOf key' l := by
      rw [← map_fst_selectBy key agg, h, map_fst_selectBy]
    exact ⟨hkeys, (hlist hkeys).mp h⟩
  · rintro ⟨hkeys, h⟩
    exact (hlist hkeys).mpr h

theorem groupAt_eq_nil {key : α → κ} {l : List α} {k : κ} :
    groupAt key l k = [] ↔ k ∉ keysOf key l := by
  rw [groupAt, List.filter_eq_nil_iff, mem_keysOf]
  simp only [decide_eq_true_eq, not_exists, not_and]

theorem keysOf_eq_nil {key : α → κ} {l : List α} : keysOf key l = [] ↔ l = [] := by
  constructor
  · intro h
    refine List.eq_nil_iff_forall_not_mem.mpr (fun a ha => ?_)
    have hmem : key a ∈ keysOf key l := mem_keysOf.mpr ⟨a, ha, rfl⟩
    rw [h] at hmem
    exact absurd hmem (List.not_mem_nil)
  · intro h
    rw [h]
    rfl

theorem selectBy_eq_nil {key : α → κ} {agg : List α → β} {l : List α} :
    selectBy key agg l = [] ↔ l = [] := by
  rw [selectBy_eq_map_keysOf, List.map_eq_nil_iff, keysOf_eq_nil]

/-- A key that is nowhere above another and splits the list into groups of the same sizes is
the same key. -/
theorem eq_of_le_of_length_eq {key key' : α → Int} {l : List α} (hle : ∀ a ∈ l, key a ≤ key' a)
    (hlen : ∀ k, (groupAt key l k).length = (groupAt key' l k).length) :
    ∀ a ∈ l, key a = key' a := by
  have hcount : ∀ (f : α → Int) (k : Int), (l.map f).count k = (groupAt f l k).length := by
    intro f k
    rw [List.count_eq_countP, List.countP_map, List.countP_eq_length_filter, groupAt]
    rfl
  have hperm : (l.map key).Perm (l.map key') := by
    refine List.perm_iff_count.mpr (fun k => ?_)
    rw [hcount, hcount, hlen]
  by_contra hne
  push Not at hne
  obtain ⟨a, ha, hne⟩ := hne
  -- one element moved down and none up: the sum of the keys would be smaller
  have hlt : (l.map key).sum < (l.map key').sum :=
    List.sum_lt_sum key key' hle ⟨a, ha, lt_of_le_of_ne (hle a ha) hne⟩
  rw [hperm.sum_eq] at hlt
  exact lt_irrefl _ hlt

/-- Two lists in key order that agree on every key are equal. -/
theorem eq_of_groupAt_eq (key : α → κ) {l l' : List α}
    (hl : l.Pairwise (fun a b => key a ≤ key b)) (hl' : l'.Pairwise (fun a b => key a ≤ key b))
    (h : ∀ k, groupAt key l k = groupAt key l' k) : l = l' := by
  have hmem : ∀ a, a ∈ l ↔ a ∈ l' := by
    intro a
    have ha : a ∈ groupAt key l (key a) ↔ a ∈ groupAt key l' (key a) := by rw [h]
    simpa [mem_groupAt] using ha
  induction l generalizing l' with
  | nil =>
      cases l' with
      | nil => rfl
      | cons b u => exact absurd ((hmem b).mpr (by simp)) (by simp)
  | cons a t ih =>
      cases l' with
      | nil => exact absurd ((hmem a).mp (by simp)) (by simp)
      | cons b u =>
          obtain ⟨hat, ht⟩ := List.pairwise_cons.mp hl
          obtain ⟨hbu, hu⟩ := List.pairwise_cons.mp hl'
          have hab : key a ≤ key b := by
            rcases List.mem_cons.mp ((hmem b).mpr (by simp)) with hb | hb
            · rw [hb]
            · exact hat b hb
          have hba : key b ≤ key a := by
            rcases List.mem_cons.mp ((hmem a).mp (by simp)) with ha | ha
            · rw [ha]
            · exact hbu a ha
          have hkey : key b = key a := le_antisymm hba hab
          -- both heads carry the least key, so both head the group of that key
          have hhead := h (key a)
          simp only [groupAt, List.filter_cons, hkey, decide_true, if_true,
            List.cons.injEq] at hhead
          obtain ⟨rfl, -⟩ := hhead
          have htail : ∀ k, groupAt key t k = groupAt key u k := by
            intro k
            have hk := h k
            simp only [groupAt, List.filter_cons] at hk ⊢
            split at hk
            · exact (List.cons.inj hk).2
            · exact hk
          rw [ih ht hu htail (fun c => ?_)]
          have hc : c ∈ groupAt key t (key c) ↔ c ∈ groupAt key u (key c) := by rw [htail]
          simpa [mem_groupAt] using hc

private theorem groupAt_flatten_groups (key : α → κ) (l : List α) (k : κ) :
    ∀ ks : List κ, ks.Nodup → groupAt key ((ks.map (groupAt key l)).flatten) k
      = if k ∈ ks then groupAt key l k else []
  | [], _ => rfl
  | k' :: ks, hnd => by
      obtain ⟨hk', hks⟩ := List.nodup_cons.mp hnd
      have ih := groupAt_flatten_groups key l k ks hks
      have hhead : groupAt key (groupAt key l k') k = if k' = k then groupAt key l k else [] := by
        rw [groupAt, groupAt, List.filter_filter]
        by_cases hkk : k' = k
        · subst hkk; simp [groupAt]
        · rw [if_neg hkk, List.filter_eq_nil_iff]
          intro a _ ha
          simp only [Bool.and_eq_true, decide_eq_true_eq] at ha
          exact hkk (ha.2 ▸ ha.1)
      have happ : groupAt key (((k' :: ks).map (groupAt key l)).flatten) k
          = groupAt key (groupAt key l k') k
            ++ groupAt key ((ks.map (groupAt key l)).flatten) k := by
        rw [List.map_cons, List.flatten_cons, groupAt, List.filter_append]
        rfl
      rw [happ, hhead, ih]
      by_cases hkk : k' = k
      · subst hkk; simp [hk']
      · simp [hkk, Ne.symm hkk]

/-- A list in key order is the concatenation of its groups. -/
theorem flatten_groupOn {key : α → κ} {l : List α}
    (hl : l.Pairwise (fun a b => key a ≤ key b)) :
    ((groupOn key l).map Prod.snd).flatten = l := by
  have hmap : (groupOn key l).map Prod.snd = (keysOf key l).map (groupAt key l) := by
    rw [groupOn, List.map_map]
    rfl
  rw [hmap]
  refine eq_of_groupAt_eq key ?_ hl (fun k => ?_)
  · rw [List.pairwise_flatten]
    constructor
    · intro g hg
      obtain ⟨k, -, rfl⟩ := List.mem_map.mp hg
      exact hl.filter _
    · rw [List.pairwise_map]
      refine (keysOf_pairwise key l).imp (fun {k k'} hlt a ha b hb => ?_)
      rw [(mem_groupAt.mp ha).2, (mem_groupAt.mp hb).2]
      exact le_of_lt hlt
  · rw [groupAt_flatten_groups key l k _ (keysOf_pairwise key l).nodup]
    split
    · rfl
    · rename_i hk
      refine (List.filter_eq_nil_iff.mpr (fun a ha hka => hk ?_)).symm
      exact mem_keysOf.mpr ⟨a, ha, of_decide_eq_true hka⟩

/-! ## Keys in two parts -/

/-- Of an aggregation by a pair of keys, the rows of one first key are the aggregation, by the
second key, of the elements of that first key. -/
theorem filter_selectBy_lex (key₁ : α → κ) (key₂ : α → μ) (agg : List α → β) (l : List α)
    (s : κ) :
    (selectBy (fun a => toLex (key₁ a, key₂ a)) agg l).filter
        (fun b => decide ((ofLex b.1).1 = s))
      = (selectBy key₂ agg (l.filter (fun a => decide (key₁ a = s)))).map
          (fun b => (toLex (s, b.1), b.2)) := by
  have hgroups : (groupOn (fun a => toLex (key₁ a, key₂ a)) l).filter
        (fun g => decide ((ofLex g.1).1 = s))
      = (groupOn key₂ (l.filter (fun a => decide (key₁ a = s)))).map
          (fun g => (toLex (s, g.1), g.2)) := by
    have hmono : StrictMono (fun x : μ => toLex (s, x)) := fun x y h =>
      Prod.Lex.toLex_lt_toLex.mpr (Or.inr ⟨rfl, h⟩)
    rw [← groupOn_filter (fun a => toLex (key₁ a, key₂ a)) (fun k => decide ((ofLex k).1 = s)),
      ← groupOn_map_key key₂ _ hmono]
    refine groupOn_congr (fun a ha => ?_)
    have hs : key₁ a = s := of_decide_eq_true (List.mem_filter.mp ha).2
    rw [hs]
  rw [selectBy, List.filter_map, selectBy, List.map_map]
  show ((groupOn (fun a => toLex (key₁ a, key₂ a)) l).filter
    (fun g => decide ((ofLex g.1).1 = s))).map _ = _
  rw [hgroups, List.map_map]
  rfl

/-! ## Nested grouping -/

/-- **Nested grouping.** When the coarse key is `g` of the fine key, grouping the rows of a
fine aggregation by `g` finds the coarse keys, and each coarse group of rows is the fine
aggregation of the coarse group of elements. -/
theorem selectBy_selectBy {γ : Type} (fine : α → κ) (coarse : α → μ) (g : κ → μ)
    (aggF : List α → β) (aggC : List (κ × β) → γ) (l : List α)
    (hg : ∀ a ∈ l, coarse a = g (fine a)) :
    selectBy (fun r : κ × β => g r.1) aggC (selectBy fine aggF l)
      = selectBy coarse (fun m => aggC (selectBy fine aggF m)) l := by
  have hkeys : keysOf (fun r : κ × β => g r.1) (selectBy fine aggF l) = keysOf coarse l := by
    refine keysOf_eq (keysOf_pairwise coarse l) (fun k => ?_)
    rw [mem_keysOf, selectBy_eq_map_keysOf]
    constructor
    · rintro ⟨a, ha, rfl⟩
      exact ⟨_, List.mem_map.mpr ⟨fine a, mem_keysOf.mpr ⟨a, ha, rfl⟩, rfl⟩, (hg a ha).symm⟩
    · rintro ⟨r, hr, rfl⟩
      obtain ⟨k, hk, rfl⟩ := List.mem_map.mp hr
      obtain ⟨a, ha, rfl⟩ := mem_keysOf.mp hk
      exact ⟨a, ha, hg a ha⟩
  rw [selectBy_eq_map_keysOf, selectBy_eq_map_keysOf coarse, hkeys]
  refine List.map_congr_left (fun k _ => ?_)
  have hgroup : groupAt coarse l k = l.filter (fun a => decide (g (fine a) = k)) :=
    List.filter_congr (fun a ha => by rw [hg a ha])
  rw [hgroup, selectBy, selectBy,
    groupOn_filter fine (fun i => decide (g i = k)) l, groupAt, List.filter_map]
  rfl

/-- Each element is kept once. -/
theorem nodup_eraseDups {δ : Type} [BEq δ] [LawfulBEq δ] : ∀ l : List δ, l.eraseDups.Nodup
  | [] => List.nodup_nil
  | a :: l => by
      rw [List.eraseDups_cons]
      refine List.nodup_cons.mpr ⟨fun hmem => ?_, nodup_eraseDups _⟩
      have hne := (List.mem_filter.mp (List.mem_eraseDups.mp hmem)).2
      simp at hne
  termination_by l => l.length
  decreasing_by exact Nat.lt_succ_of_le (List.length_filter_le _ _)

/-- Renaming by an injective function keeps first appearances. -/
theorem eraseDups_map {δ δ' : Type} [BEq δ] [LawfulBEq δ] [BEq δ'] [LawfulBEq δ'] {f : δ → δ'}
    (hf : Function.Injective f) : ∀ l : List δ, (l.map f).eraseDups = l.eraseDups.map f
  | [] => rfl
  | a :: l => by
      have hfilter : (l.map f).filter (fun b => !(b == f a))
          = (l.filter (fun b => !(b == a))).map f := by
        rw [List.filter_map]
        refine congrArg (List.map f) (List.filter_congr (fun b _ => ?_))
        rw [Function.comp_apply, hf.beq_eq]
      rw [List.map_cons, List.eraseDups_cons, List.eraseDups_cons, hfilter, eraseDups_map hf,
        List.map_cons]
  termination_by l => l.length
  decreasing_by exact Nat.lt_succ_of_le (List.length_filter_le _ _)

end Grouping
