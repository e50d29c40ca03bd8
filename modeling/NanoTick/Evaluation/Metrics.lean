import NanoTick.Store.Schema
import NanoTick.Basic.Averages
import Mathlib.Tactic

set_option autoImplicit false

/-! # Balanced accuracy

`classification_metrics` (`resources/evaluation.py`) averages the recalls of the classes that occur
among the true labels. On the pairs of a true label and its prediction, the recall of a class is
the mean of the hits over the pairs of that class (`balancedAccuracy_eq`). What it does not depend
on, the order of the pairs and how often a class occurs, and what it is for a constant prediction
follow from that (`balancedAccuracy_fair`).

A mean of nothing is `nan`, here null.
-/

namespace NanoTick

open Aggregates Grouping

variable {α : Type} [LinearOrder α]

/-! ## `classification_metrics` -/

/-- `numpy.unique`: the distinct values, ascending. -/
def unique (y : List α) : List α := keysOf id y

/-- `y[mask]`. -/
def masked (mask : List Bool) (y : List α) : List α := ((mask.zip y).filter Prod.fst).map Prod.snd

structure ClassificationMetrics where
  n : Nat
  accuracy : Option ℚ
  balancedAccuracy : Option ℚ
  deriving DecidableEq, Repr

/-- `classification_metrics`, for lists of one length. -/
def classificationMetrics (yTrue yPred : List α) : ClassificationMetrics :=
  let n := yTrue.length
  let recalls := (unique yTrue).map (fun c =>
    let mask := yTrue.map (fun t => decide (t = c))
    mean bit ((masked mask yPred).map (fun p => decide (p = c))))
  { n := n
    accuracy :=
      if n = 0 then none
      else mean bit ((yTrue.zip yPred).map (fun p => decide (p.1 = p.2)))
    balancedAccuracy := if recalls = [] then none else (recalls.mapM id).bind (mean id) }

/-! ## On pairs -/

/-- The prediction of a pair is its true label. -/
def hit (p : α × α) : ℚ := bit (decide (p.2 = p.1))

/-- The pairs of a class. -/
def ofClass (ps : List (α × α)) (c : α) : List (α × α) := groupAt Prod.fst ps c

/-- The recall of a class: the share of its pairs whose prediction is right. -/
def recallOf (ps : List (α × α)) (c : α) : ℚ := sumOf hit (ofClass ps c) / (ofClass ps c).length

/-- The classes of the true labels. -/
def classes (ps : List (α × α)) : List α := keysOf Prod.fst ps

theorem hit_eq_one {p : α × α} : hit p = 1 ↔ p.2 = p.1 := by
  unfold hit bit
  by_cases h : p.2 = p.1
  · simp [h]
  · simp [h]

theorem hit_between (p : α × α) : 0 ≤ hit p ∧ hit p ≤ 1 := by
  unfold hit bit
  split
  · exact ⟨zero_le_one, le_refl _⟩
  · exact ⟨le_refl _, zero_le_one⟩

theorem ofClass_ne_nil {ps : List (α × α)} {c : α} (hc : c ∈ classes ps) : ofClass ps c ≠ [] :=
  fun h => groupAt_eq_nil.mp h hc

theorem classes_ne_nil {ps : List (α × α)} (h : ps ≠ []) : classes ps ≠ [] :=
  mt keysOf_eq_nil.mp h

/-- The predictions under the mask of a class are those of its pairs. -/
theorem masked_eq (yTrue yPred : List α) (c : α) :
    masked (yTrue.map (fun t => decide (t = c))) yPred
      = (ofClass (yTrue.zip yPred) c).map Prod.snd := by
  unfold masked ofClass groupAt
  rw [List.zip_map_left, List.filter_map, List.map_map]
  rfl

/-- **The recall** that the loop appends for a class. -/
theorem mean_masked {yTrue yPred : List α} {c : α} (hc : c ∈ classes (yTrue.zip yPred)) :
    mean bit ((masked (yTrue.map (fun t => decide (t = c))) yPred).map (fun p => decide (p = c)))
      = some (recallOf (yTrue.zip yPred) c) := by
  have hhit : ∀ p ∈ ofClass (yTrue.zip yPred) c, bit (decide (p.2 = c)) = hit p := by
    intro p hp
    have hclass : p.1 = c := (mem_groupAt.mp hp).2
    rw [hit, hclass]
  rw [masked_eq, List.map_map, mean_map]
  exact (mean_congr hhit).trans (mean_eq_some hit (ofClass_ne_nil hc))

theorem classes_zip {yTrue yPred : List α} (hlen : yPred.length = yTrue.length) :
    classes (yTrue.zip yPred) = unique yTrue := by
  have hfst : (yTrue.zip yPred).map Prod.fst = yTrue := List.map_fst_zip hlen.ge
  unfold classes unique
  calc keysOf Prod.fst (yTrue.zip yPred) = keysOf id ((yTrue.zip yPred).map Prod.fst) :=
        (keysOf_map id Prod.fst _).symm
    _ = keysOf id yTrue := by rw [hfst]

theorem mapM_id_some {γ : Type} {l : List γ} {f : γ → Option ℚ} {g : γ → ℚ}
    (h : ∀ a ∈ l, f a = some (g a)) :
    (l.map f).mapM id = some (l.map g) := by
  induction l with
  | nil => rfl
  | cons a l ih =>
      obtain ⟨ha, hl⟩ := List.forall_mem_cons.mp h
      rw [List.map_cons, List.mapM_cons, ih hl, ha]
      rfl

/-- **Balanced accuracy** is the mean of the recalls of the classes. -/
theorem balancedAccuracy_eq {yTrue yPred : List α} (hlen : yPred.length = yTrue.length)
    (hne : yTrue ≠ []) : (classificationMetrics yTrue yPred).balancedAccuracy
      = mean (recallOf (yTrue.zip yPred)) (classes (yTrue.zip yPred)) := by
  have hclasses := classes_zip hlen
  have hunique : unique yTrue ≠ [] := mt keysOf_eq_nil.mp hne
  have hrecall : ∀ c ∈ unique yTrue,
      mean bit ((masked (yTrue.map (fun t => decide (t = c))) yPred).map (fun p => decide (p = c)))
        = some (recallOf (yTrue.zip yPred) c) := fun c hc => mean_masked (hclasses ▸ hc)
  unfold classificationMetrics
  dsimp only
  rw [if_neg (mt List.map_eq_nil_iff.mp hunique), mapM_id_some hrecall, Option.bind_some,
    mean_map, hclasses]
  rfl

/-! ## What it depends on -/

theorem recall_between {ps : List (α × α)} {c : α} (hc : c ∈ classes ps) :
    0 ≤ recallOf ps c ∧ recallOf ps c ≤ 1 := by
  obtain ⟨v, hv, hv0, hv1⟩ := mean_between (ofClass_ne_nil hc) (fun p _ => hit_between p)
  rw [mean_eq_some hit (ofClass_ne_nil hc)] at hv
  cases hv
  exact ⟨hv0, hv1⟩

theorem recall_eq_one_iff {ps : List (α × α)} {c : α} (hc : c ∈ classes ps) :
    recallOf ps c = 1 ↔ ∀ p ∈ ofClass ps c, p.2 = p.1 := by
  have hmean := mean_eq_one_iff (ofClass_ne_nil hc) (fun p _ => (hit_between p).2)
  rw [mean_eq_some hit (ofClass_ne_nil hc), Option.some_inj] at hmean
  exact hmean.trans (forall₂_congr (fun p _ => hit_eq_one))

/-- The order of the pairs does not matter. -/
theorem mean_recall_perm {ps qs : List (α × α)} (h : ps.Perm qs) :
    mean (recallOf ps) (classes ps) = mean (recallOf qs) (classes qs) := by
  have hrecall : ∀ c, recallOf ps c = recallOf qs c := by
    intro c
    have hgroup : (ofClass ps c).Perm (ofClass qs c) := h.filter _
    rw [recallOf, recallOf, sumOf_perm hit hgroup, hgroup.length_eq]
  rw [classes, classes, keysOf_perm Prod.fst h]
  exact mean_congr (fun c _ => hrecall c)

/-- Every pair of one true label, `m` times. -/
def repeatLabel (c : α) (m : Nat) (ps : List (α × α)) : List (α × α) :=
  ps.flatMap (fun p => if p.1 = c then List.replicate m p else [p])

theorem classes_repeatLabel (c : α) {m : Nat} (hm : 1 ≤ m) (ps : List (α × α)) :
    classes (repeatLabel c m ps) = classes ps := by
  refine keysOf_eq (keysOf_pairwise Prod.fst ps) (fun k => ?_)
  show k ∈ keysOf Prod.fst ps ↔ _
  rw [mem_keysOf]
  refine exists_congr (fun p => and_congr_left' ?_)
  rw [repeatLabel, List.mem_flatMap]
  constructor
  · intro hp
    refine ⟨p, hp, ?_⟩
    split
    · exact List.mem_replicate.mpr ⟨by omega, rfl⟩
    · exact List.mem_singleton.mpr rfl
  · rintro ⟨q, hq, hp⟩
    split at hp
    · rw [(List.mem_replicate.mp hp).2]
      exact hq
    · rw [List.mem_singleton.mp hp]
      exact hq

theorem ofClass_repeatLabel (c : α) (m : Nat) (ps : List (α × α)) (k : α) :
    ofClass (repeatLabel c m ps) k
      = if k = c then (ofClass ps k).flatMap (List.replicate m) else ofClass ps k := by
  unfold ofClass repeatLabel groupAt
  induction ps with
  | nil => simp
  | cons p ps ih =>
      rw [List.flatMap_cons, List.filter_append, ih, List.filter_cons]
      by_cases hk : k = c
      · subst hk
        by_cases hp : p.1 = k
        · simp [hp]
        · simp [hp]
      · by_cases hp : p.1 = c
        · have hpk : p.1 ≠ k := fun h => hk (h.symm.trans hp)
          simp [hp, hk, Ne.symm hk]
        · by_cases hpk : p.1 = k
          · simp [hk, hpk]
          · simp [hp, hk, hpk]

/-- How often a class occurs does not matter. -/
theorem mean_recall_repeatLabel (c : α) {m : Nat} (hm : 1 ≤ m) (ps : List (α × α)) :
    mean (recallOf (repeatLabel c m ps)) (classes (repeatLabel c m ps))
      = mean (recallOf ps) (classes ps) := by
  rw [classes_repeatLabel c hm]
  refine mean_congr (fun k hk => ?_)
  rw [recallOf, ofClass_repeatLabel]
  split
  · have hrep := mean_replicate hit hm (ofClass ps k)
    have hne := ofClass_ne_nil hk
    have hne' : (ofClass ps k).flatMap (List.replicate m) ≠ [] := by
      obtain ⟨p, hp⟩ := List.exists_mem_of_ne_nil _ hne
      exact List.ne_nil_of_mem (List.mem_flatMap.mpr
        ⟨p, hp, List.mem_replicate.mpr ⟨by omega, rfl⟩⟩)
    rw [mean_eq_some hit hne, mean_eq_some hit hne', Option.some_inj] at hrep
    exact hrep
  · rfl

/-- A constant prediction is right on one class only. -/
theorem recall_const {ps : List (α × α)} {p : α} (hp : ∀ q ∈ ps, q.2 = p) {c : α}
    (hc : c ∈ classes ps) : recallOf ps c = if c = p then 1 else 0 := by
  have hclass : ∀ q ∈ ofClass ps c, q.2 = p ∧ q.1 = c :=
    fun q hq => ⟨hp q (mem_groupAt.mp hq).1, (mem_groupAt.mp hq).2⟩
  split
  · rename_i hcp
    refine (recall_eq_one_iff hc).mpr (fun q hq => ?_)
    rw [(hclass q hq).1, (hclass q hq).2, hcp]
  · rename_i hcp
    have hzero : sumOf hit (ofClass ps c) = 0 := by
      refine sumOf_eq_zero (fun q hq => ?_)
      have hmiss : ¬ p = c := fun h => hcp h.symm
      rw [hit, (hclass q hq).1, (hclass q hq).2, decide_eq_false hmiss]
      rfl
    rw [recallOf, hzero, zero_div]

omit [LinearOrder α] in
/-- Every prediction is right when the lists are the same. -/
theorem forall_zip_iff {yTrue yPred : List α} (hlen : yPred.length = yTrue.length) :
    (∀ p ∈ yTrue.zip yPred, p.2 = p.1) ↔ yPred = yTrue := by
  have hfst : (yTrue.zip yPred).map Prod.fst = yTrue := List.map_fst_zip hlen.ge
  have hsnd : (yTrue.zip yPred).map Prod.snd = yPred := List.map_snd_zip hlen.le
  rw [← List.map_inj_left, hfst, hsnd]

/-- Every pair is one of its class. -/
theorem forall_ofClass_iff {ps : List (α × α)} {P : α × α → Prop} :
    (∀ c ∈ classes ps, ∀ p ∈ ofClass ps c, P p) ↔ ∀ p ∈ ps, P p := by
  constructor
  · intro h p hp
    exact h p.1 (mem_keysOf.mpr ⟨p, hp, rfl⟩) p (mem_groupAt.mpr ⟨hp, rfl⟩)
  · exact fun h c _ p hp => h p (mem_groupAt.mp hp).1

theorem mem_unique {y : List α} {c : α} : c ∈ unique y ↔ c ∈ y := by
  rw [unique, mem_keysOf]
  constructor
  · rintro ⟨a, ha, rfl⟩
    exact ha
  · exact fun h => ⟨c, h, rfl⟩

theorem length_unique (y : List α) : (unique y).length = y.toFinset.card := by
  rw [unique, keysOf, List.map_id, (List.perm_insertionSort _ _).length_eq, List.card_toFinset]

/-- **Balanced accuracy gives no credit to lazy prediction.** For true labels, at least one, and as
many predictions, it is between 0 and 1, and 1 only when every prediction is right; it does not
change when the pairs are permuted, or those of one true label repeated; and a constant prediction
gets one over the number of classes, or nothing if it is not a class. -/
theorem balancedAccuracy_fair (yTrue yPred : List α) (hlen : yPred.length = yTrue.length)
    (hne : yTrue ≠ []) : ∃ b : ℚ,
    (classificationMetrics yTrue yPred).balancedAccuracy = some b
      ∧ (0 ≤ b ∧ b ≤ 1)
      ∧ (b = 1 ↔ yPred = yTrue)
      ∧ (∀ yTrue' yPred' : List α, yPred'.length = yTrue'.length →
          (yTrue'.zip yPred').Perm (yTrue.zip yPred) →
          (classificationMetrics yTrue' yPred').balancedAccuracy = some b)
      ∧ (∀ (c : α) (m : Nat), 1 ≤ m →
          (classificationMetrics ((repeatLabel c m (yTrue.zip yPred)).map Prod.fst)
            ((repeatLabel c m (yTrue.zip yPred)).map Prod.snd)).balancedAccuracy = some b)
      ∧ ∀ p : α, yPred = List.replicate yTrue.length p →
          b = if p ∈ yTrue then 1 / (yTrue.toFinset.card : ℚ) else 0 := by
  have hps : yTrue.zip yPred ≠ [] := by
    rw [← List.length_pos_iff, List.length_zip, hlen, Nat.min_self]
    exact List.length_pos_iff.mpr hne
  have hclasses := classes_ne_nil hps
  obtain ⟨b, hb, hbounds⟩ := mean_between hclasses (fun c hc => recall_between hc)
  refine ⟨b, (balancedAccuracy_eq hlen hne).trans hb, hbounds, ?_,
    fun yTrue' yPred' hlen' hperm => ?_, fun c m hm => ?_, fun p hp => ?_⟩
  · have hone := mean_eq_one_iff hclasses (fun c hc => (recall_between hc).2)
    rw [hb, Option.some_inj] at hone
    calc b = 1 ↔ ∀ c ∈ classes (yTrue.zip yPred), recallOf (yTrue.zip yPred) c = 1 := hone
      _ ↔ ∀ c ∈ classes (yTrue.zip yPred), ∀ p ∈ ofClass (yTrue.zip yPred) c, p.2 = p.1 :=
          forall₂_congr (fun c hc => recall_eq_one_iff hc)
      _ ↔ ∀ p ∈ yTrue.zip yPred, p.2 = p.1 := forall_ofClass_iff
      _ ↔ yPred = yTrue := forall_zip_iff hlen
  · have hne' : yTrue' ≠ [] := by
      rintro rfl
      exact hps (List.nil_perm.mp hperm)
    rw [balancedAccuracy_eq hlen' hne', mean_recall_perm hperm, hb]
  · have hzip : ((repeatLabel c m (yTrue.zip yPred)).map Prod.fst).zip
        ((repeatLabel c m (yTrue.zip yPred)).map Prod.snd)
        = repeatLabel c m (yTrue.zip yPred) := by
      rw [List.zip_map']
      exact List.map_id _
    have hne' : (repeatLabel c m (yTrue.zip yPred)).map Prod.fst ≠ [] := by
      intro hnil
      have hempty := classes_repeatLabel c hm (yTrue.zip yPred)
      rw [List.map_eq_nil_iff.mp hnil] at hempty
      exact hclasses hempty.symm
    rw [balancedAccuracy_eq (by rw [List.length_map, List.length_map]) hne', hzip,
      mean_recall_repeatLabel c hm, hb]
  · have hconst : ∀ q ∈ yTrue.zip yPred, q.2 = p := by
      intro q hq
      have hmem : q.2 ∈ yPred := (List.of_mem_zip hq).2
      rw [hp] at hmem
      exact (List.mem_replicate.mp hmem).2
    rw [mean_congr (fun c hc => recall_const hconst hc),
      mean_indicator hclasses (keysOf_pairwise _ _).nodup, Option.some_inj] at hb
    rw [← hb, classes_zip hlen, length_unique]
    simp only [mem_unique]

/-- Three labels of one class and one of another, the first class predicted throughout. -/
theorem balancedAccuracy_fair_majority : ∃ b : ℚ,
    (classificationMetrics [1, 1, 1, 0] [1, 1, 1, (1 : Int)]).balancedAccuracy = some b
      ∧ b = 1 / 2 := by
  obtain ⟨b, hb, -, -, -, -, hconst⟩ := balancedAccuracy_fair [1, 1, 1, 0] [1, 1, 1, (1 : Int)]
    rfl (List.cons_ne_nil _ _)
  refine ⟨b, hb, (hconst 1 rfl).trans ?_⟩
  decide +kernel

end NanoTick
