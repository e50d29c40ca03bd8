import NanoTick.Evaluation.WalkForward
import Mathlib.Tactic

set_option autoImplicit false

/-! # The folds tile the end of the timeline

`walk_forward_splits` cuts the timeline into equal blocks, the last one longer by the
remainder. The purged training set of a fold grows with the fold's number, so the folds too
short to train on are the first ones (`keptFrom`), and the test blocks of the others follow on
one another up to the last row (`splits_tile`).
-/

namespace NanoTick

open Python

/-! ## Ranges -/

theorem arange_of_le {a b : Int} (h : b ≤ a) : arange a b = [] := by
  have hlen : (b - a).toNat = 0 := by omega
  rw [arange, hlen]
  rfl

theorem length_arange (a b : Int) : (arange a b).length = (b - a).toNat := by
  simp [arange]

theorem arange_append {a b c : Int} (hab : a ≤ b) (hbc : b ≤ c) :
    arange a b ++ arange b c = arange a c := by
  have hlen : (c - a).toNat = (b - a).toNat + (c - b).toNat := by omega
  unfold arange
  rw [hlen, List.range_add, List.map_append, List.map_map]
  congr 1
  apply List.map_congr_left
  intro k _
  have hb : ((b - a).toNat : Int) = b - a := Int.toNat_of_nonneg (by omega)
  simp only [Function.comp_apply, Nat.cast_add, hb]
  ring

theorem arange_singleton (a : Int) : arange a (a + 1) = [a] := by
  have hlen : (a + 1 - a).toNat = 1 := by omega
  unfold arange
  rw [hlen]
  simp

theorem arange_cons {a b : Int} (h : a < b) : arange a b = a :: arange (a + 1) b := by
  rw [← arange_append (b := a + 1) (by omega) h, arange_singleton]
  rfl

theorem head?_arange {a b : Int} (h : a < b) : (arange a b).head? = some a := by
  rw [arange_cons h]
  rfl

theorem getLast?_arange {a b : Int} (h : a < b) : (arange a b).getLast? = some (b - 1) := by
  have hsplit : arange a (b - 1) ++ arange (b - 1) b = arange a b :=
    arange_append (by omega) (by omega)
  have hlast : arange (b - 1) b = [b - 1] := by
    have hone := arange_singleton (b - 1)
    rwa [Int.sub_add_cancel] at hone
  rw [← hsplit, hlast, List.getLast?_concat]

/-! ## Folds -/

section

variable (nSamples nSplits horizon embargo minTrain : Int)

/-- The length of a block. -/
def foldSize : Int := nSamples / (nSplits + 1)

/-- The rows fold `k` trains on, and the rows it tests on. -/
def trainRows (k : Int) : List Int :=
  arange 0 (k * foldSize nSamples nSplits - horizon - embargo)

def testRows (k : Int) : List Int :=
  arange (k * foldSize nSamples nSplits)
    (if k = nSplits then nSamples else (k + 1) * foldSize nSamples nSplits)

/-- The first fold that has enough rows to train on, or one past the last fold. -/
def keptFrom : Int :=
  min (nSplits + 1) ((minTrain + horizon + embargo + foldSize nSamples nSplits - 1)
    / foldSize nSamples nSplits)

/-- What the folds are: those that are skipped come first, the tests of the others are an
interval up to the last row, cut into consecutive blocks, and each trains on a prefix of the
timeline that ends `horizon + embargo + 1` rows before its test. -/
structure TilesEnd (splits : List (List Int × List Int)) : Prop where
  folds : ∃ first, 1 ≤ first ∧ first ≤ nSplits + 1
    ∧ (∀ k, 1 ≤ k → k ≤ nSplits →
        (k < first ↔ ((trainRows nSamples nSplits horizon embargo k).length : Int) < minTrain))
    ∧ splits = (arange first (nSplits + 1)).map
        (fun k => (trainRows nSamples nSplits horizon embargo k, testRows nSamples nSplits k))
  tests : splits ≠ [] → ∃ start, start < nSamples
    ∧ (splits.map Prod.snd).flatten = arange start nSamples
  testNonempty : ∀ f ∈ splits, f.2 ≠ []
  trainPrefix : ∀ f ∈ splits, f.1 ≠ [] ∧ ∃ stop, stop ≤ nSamples ∧ f.1 = arange 0 stop
  trainGrows : splits.Pairwise (fun f g => f.1 <+: g.1 ∧ f.1.length < g.1.length)
  gap : ∀ f ∈ splits, ∃ a b, f.1.getLast? = some a ∧ f.2.head? = some b
    ∧ b - a = horizon + embargo + 1

end

section

variable {nSamples nSplits horizon embargo minTrain : Int}

theorem foldSize_pos (hm : 1 ≤ nSplits) (h : nSplits + 1 ≤ nSamples) :
    0 < foldSize nSamples nSplits := by
  have hone : 1 ≤ foldSize nSamples nSplits :=
    (Int.le_ediv_iff_mul_le (by omega)).mpr (by omega)
  omega

/-- All the blocks fit into the timeline. -/
theorem blocks_le (hm : 1 ≤ nSplits) : (nSplits + 1) * foldSize nSamples nSplits ≤ nSamples :=
  Int.mul_ediv_self_le (by omega)

/-- Folds start later and later. -/
theorem start_le {j k : Int} (hf : 0 < foldSize nSamples nSplits) (h : j ≤ k) :
    j * foldSize nSamples nSplits ≤ k * foldSize nSamples nSplits :=
  mul_le_mul_of_nonneg_right h hf.le

theorem start_lt {j k : Int} (hf : 0 < foldSize nSamples nSplits) (h : j < k) :
    j * foldSize nSamples nSplits < k * foldSize nSamples nSplits :=
  mul_lt_mul_of_pos_right h hf

/-! ### Which folds are kept -/

theorem keptFrom_le : keptFrom nSamples nSplits horizon embargo minTrain ≤ nSplits + 1 :=
  min_le_left _ _

theorem one_le_keptFrom (hf : 0 < foldSize nSamples nSplits) (hm : 1 ≤ nSplits)
    (hh : 0 ≤ horizon) (he : 0 ≤ embargo) (ht : 1 ≤ minTrain) :
    1 ≤ keptFrom nSamples nSplits horizon embargo minTrain := by
  refine le_min (by omega) ?_
  rw [Int.le_ediv_iff_mul_le hf]
  omega

/-- The folds before the first kept one are those with too little to train on. -/
theorem lt_keptFrom (hf : 0 < foldSize nSamples nSplits) {k : Int} (hk : k ≤ nSplits) :
    k < keptFrom nSamples nSplits horizon embargo minTrain
      ↔ k * foldSize nSamples nSplits - horizon - embargo < minTrain := by
  unfold keptFrom
  rw [lt_min_iff, ← Int.add_one_le_iff (b := _ / _), Int.le_ediv_iff_mul_le hf, add_mul, one_mul]
  omega

/-- What is computed for a fold. -/
theorem length_trainRows (k : Int) :
    ((trainRows nSamples nSplits horizon embargo k).length : Int)
      = max 0 (k * foldSize nSamples nSplits - horizon - embargo) := by
  rw [trainRows, length_arange]
  omega

theorem walkForwardSplits_eq (hm : 1 ≤ nSplits) (hh : 0 ≤ horizon) (he : 0 ≤ embargo)
    (ht : 1 ≤ minTrain) (h : nSplits + 1 ≤ nSamples) :
    walkForwardSplits nSamples nSplits horizon embargo minTrain
      = .ok ((arange (keptFrom nSamples nSplits horizon embargo minTrain) (nSplits + 1)).map
          (fun k =>
            (trainRows nSamples nSplits horizon embargo k, testRows nSamples nSplits k))) := by
  have hf := foldSize_pos hm h
  have hfold : nSamples / (nSplits + 1) = foldSize nSamples nSplits := rfl
  unfold walkForwardSplits
  rw [if_neg (by omega), if_neg (by omega)]
  dsimp only
  rw [hfold, if_neg hf.ne']
  refine congrArg Except.ok ?_
  rw [← arange_append (one_le_keptFrom hf hm hh he ht) keptFrom_le, List.filterMap_append]
  have hskipped : (arange 1 (keptFrom nSamples nSplits horizon embargo minTrain)).filterMap
      (fun k => if k * foldSize nSamples nSplits - horizon - embargo < minTrain then none
        else some (trainRows nSamples nSplits horizon embargo k, testRows nSamples nSplits k))
      = [] := by
    rw [List.filterMap_eq_nil_iff]
    intro k hk
    obtain ⟨-, hlt⟩ := mem_arange.mp hk
    have hle : k ≤ nSplits := by
      have hkept : keptFrom nSamples nSplits horizon embargo minTrain ≤ nSplits + 1 :=
        keptFrom_le
      omega
    rw [if_pos ((lt_keptFrom hf hle).mp hlt)]
  have hkept : (arange (keptFrom nSamples nSplits horizon embargo minTrain)
      (nSplits + 1)).filterMap
      (fun k => if k * foldSize nSamples nSplits - horizon - embargo < minTrain then none
        else some (trainRows nSamples nSplits horizon embargo k, testRows nSamples nSplits k))
      = (arange (keptFrom nSamples nSplits horizon embargo minTrain) (nSplits + 1)).map
        (fun k => (trainRows nSamples nSplits horizon embargo k,
          testRows nSamples nSplits k)) := by
    rw [← List.filterMap_eq_map]
    apply List.filterMap_congr
    intro k hk
    obtain ⟨hge, hlt⟩ := mem_arange.mp hk
    rw [if_neg]
    · rfl
    · intro hshort
      exact absurd ((lt_keptFrom hf (by omega)).mpr hshort) (not_lt.mpr hge)
  calc _ = [] ++ _ := congrArg₂ _ hskipped hkept
    _ = _ := List.nil_append _

/-! ### The test blocks -/

theorem testRows_ne_nil (hm : 1 ≤ nSplits) (hf : 0 < foldSize nSamples nSplits) (k : Int) :
    testRows nSamples nSplits k ≠ [] := by
  have hstart : k * foldSize nSamples nSplits
      < if k = nSplits then nSamples else (k + 1) * foldSize nSamples nSplits := by
    split
    · calc k * foldSize nSamples nSplits
          < (nSplits + 1) * foldSize nSamples nSplits := start_lt hf (by omega)
        _ ≤ nSamples := blocks_le hm
    · exact start_lt hf (by omega)
  rw [testRows, arange_cons hstart]
  exact List.cons_ne_nil _ _

/-- **The test blocks from fold `k` on are the rest of the timeline.** The induction is on the
number of folds left; the last one takes the remainder. -/
theorem flatten_testRows (hm : 1 ≤ nSplits) (hf : 0 < foldSize nSamples nSplits) (left : Nat)
    {k : Int} (hk : k + left = nSplits) :
    ((arange k (nSplits + 1)).map (testRows nSamples nSplits)).flatten
      = arange (k * foldSize nSamples nSplits) nSamples := by
  induction left generalizing k with
  | zero =>
      have hlast : k = nSplits := by simpa using hk
      rw [hlast, arange_singleton, List.map_singleton, List.flatten_singleton, testRows,
        if_pos rfl]
  | succ left ih =>
      push_cast at hk
      have hne : k ≠ nSplits := by omega
      rw [arange_cons (by omega), List.map_cons, List.flatten_cons, ih (by omega), testRows,
        if_neg hne]
      apply arange_append (start_le hf (by omega))
      calc (k + 1) * foldSize nSamples nSplits
          ≤ (nSplits + 1) * foldSize nSamples nSplits := start_le hf (by omega)
        _ ≤ nSamples := blocks_le hm

/-! ### The folds together -/

/-- What a kept fold has: enough rows to train on, the last of them `horizon + embargo + 1`
rows before the first test row. -/
theorem fold_gap (hm : 1 ≤ nSplits) (hf : 0 < foldSize nSamples nSplits) (hh : 0 ≤ horizon)
    (he : 0 ≤ embargo) (ht : 1 ≤ minTrain) {k : Int} (hk : k ≤ nSplits)
    (henough : minTrain ≤ k * foldSize nSamples nSplits - horizon - embargo) :
    (trainRows nSamples nSplits horizon embargo k ≠ []
        ∧ ∃ stop, stop ≤ nSamples ∧ trainRows nSamples nSplits horizon embargo k = arange 0 stop)
      ∧ ∃ a b, (trainRows nSamples nSplits horizon embargo k).getLast? = some a
        ∧ (testRows nSamples nSplits k).head? = some b ∧ b - a = horizon + embargo + 1 := by
  have hpos : 0 < k * foldSize nSamples nSplits - horizon - embargo := by omega
  have hin : k * foldSize nSamples nSplits ≤ nSamples :=
    calc k * foldSize nSamples nSplits
        ≤ (nSplits + 1) * foldSize nSamples nSplits := start_le hf (by omega)
      _ ≤ nSamples := blocks_le hm
  refine ⟨⟨?_, _, ?_, rfl⟩, _, k * foldSize nSamples nSplits, getLast?_arange hpos, ?_, by omega⟩
  · rw [trainRows, arange_cons hpos]
    exact List.cons_ne_nil _ _
  · omega
  · have hne := testRows_ne_nil hm hf k
    unfold testRows at hne ⊢
    apply head?_arange
    by_contra hle
    exact hne (arange_of_le (not_lt.mp hle))

/-- A later fold trains on more rows. -/
theorem trainRows_grow (hf : 0 < foldSize nSamples nSplits) {j k : Int} (h : j < k)
    (hpos : 0 ≤ j * foldSize nSamples nSplits - horizon - embargo) :
    trainRows nSamples nSplits horizon embargo j <+: trainRows nSamples nSplits horizon embargo k
      ∧ (trainRows nSamples nSplits horizon embargo j).length
        < (trainRows nSamples nSplits horizon embargo k).length := by
  have hlt := start_lt hf h
  constructor
  · exact ⟨_, arange_append hpos (by omega)⟩
  · rw [← Int.ofNat_lt, length_trainRows, length_trainRows]
    omega

theorem pairwise_arange (a b : Int) : (arange a b).Pairwise (fun j k => j < k) := by
  unfold arange
  rw [List.pairwise_map]
  exact List.pairwise_lt_range.imp (fun h => by omega)

theorem tilesEnd_kept (hm : 1 ≤ nSplits) (hf : 0 < foldSize nSamples nSplits) (hh : 0 ≤ horizon)
    (he : 0 ≤ embargo) (ht : 1 ≤ minTrain) :
    TilesEnd nSamples nSplits horizon embargo minTrain
      ((arange (keptFrom nSamples nSplits horizon embargo minTrain) (nSplits + 1)).map
        (fun k => (trainRows nSamples nSplits horizon embargo k,
          testRows nSamples nSplits k))) := by
  set first := keptFrom nSamples nSplits horizon embargo minTrain with hfirst
  have hle : first ≤ nSplits + 1 := keptFrom_le
  -- the numbers of the kept folds, and what they have to train on
  have hmem : ∀ k ∈ arange first (nSplits + 1), k ≤ nSplits
      ∧ minTrain ≤ k * foldSize nSamples nSplits - horizon - embargo := by
    intro k hk
    obtain ⟨hge, hlt⟩ := mem_arange.mp hk
    refine ⟨by omega, not_lt.mp (fun hshort => ?_)⟩
    exact absurd ((lt_keptFrom hf (by omega)).mpr hshort) (not_lt.mpr hge)
  constructor
  · refine ⟨first, one_le_keptFrom hf hm hh he ht, hle, fun k _ hk => ?_, rfl⟩
    rw [hfirst, lt_keptFrom hf hk, length_trainRows]
    omega
  · intro hne
    have hlt : first ≤ nSplits := by
      by_contra hnone
      rw [arange_of_le (by omega)] at hne
      exact hne rfl
    refine ⟨first * foldSize nSamples nSplits, ?_, ?_⟩
    · calc first * foldSize nSamples nSplits
          < (nSplits + 1) * foldSize nSamples nSplits := start_lt hf (by omega)
        _ ≤ nSamples := blocks_le hm
    · rw [List.map_map]
      exact flatten_testRows hm hf (nSplits - first).toNat (by omega)
  · intro f hfold
    obtain ⟨k, -, rfl⟩ := List.mem_map.mp hfold
    exact testRows_ne_nil hm hf k
  · intro f hfold
    obtain ⟨k, hk, rfl⟩ := List.mem_map.mp hfold
    exact (fold_gap hm hf hh he ht (hmem k hk).1 (hmem k hk).2).1
  · rw [List.pairwise_map]
    refine (pairwise_arange _ _).imp_of_mem (fun {j k} hj _ hjk => ?_)
    have henough := (hmem j hj).2
    exact trainRows_grow hf hjk (by omega)
  · intro f hfold
    obtain ⟨k, hk, rfl⟩ := List.mem_map.mp hfold
    exact (fold_gap hm hf hh he ht (hmem k hk).1 (hmem k hk).2).2

end

/-- **The folds tile the end of the timeline, with an exact gap.** Too short a timeline raises;
on any other the skipped folds are the first ones, and what is left is as `TilesEnd` says. -/
theorem splits_tile (nSamples nSplits horizon embargo minTrain : Int) (hn : 0 ≤ nSamples)
    (hm : 1 ≤ nSplits) (hh : 0 ≤ horizon) (he : 0 ≤ embargo) (ht : 1 ≤ minTrain) :
    (nSamples < nSplits + 1 →
        walkForwardSplits nSamples nSplits horizon embargo minTrain = .error .valueError)
      ∧ (nSplits + 1 ≤ nSamples → ∃ splits,
        walkForwardSplits nSamples nSplits horizon embargo minTrain = .ok splits
          ∧ TilesEnd nSamples nSplits horizon embargo minTrain splits) := by
  constructor
  · intro hshort
    unfold walkForwardSplits
    rw [if_neg (by omega), if_neg (by omega)]
    dsimp only
    rw [if_pos (Int.ediv_eq_zero_of_lt hn hshort)]
  · intro hlong
    exact ⟨_, walkForwardSplits_eq hm hh he ht hlong,
      tilesEnd_kept hm (foldSize_pos hm hlong) hh he ht⟩

/-- Eleven rows, three folds of two rows each and a test of five at the end; the purge leaves
the first fold nothing to train on. -/
theorem splits_tile_eleven : ∃ splits, walkForwardSplits 11 3 1 1 1 = .ok splits
    ∧ TilesEnd 11 3 1 1 1 splits :=
  (splits_tile 11 3 1 1 1 (by decide) (by decide) (by decide) (by decide) (by decide)).2
    (by decide)

end NanoTick
