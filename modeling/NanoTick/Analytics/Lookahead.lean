import NanoTick.Analytics.Features
import Mathlib.Tactic

set_option autoImplicit false

/-! # Feature tables have no lookahead

Every column of `featuresOf` is a function of the bar number: `retAt`, `imbalanceAt` and
`midAt` give the entry of a bar, and a trailing column of bar `i` reads the entries of the
window ending at `i`. `featuresOf_row` says this of a whole row; the rest compares two rows.

A row is kept from bar `w` on, so its window is full, and starts after the first bar, whose
return is the only null the shift brings in.
-/

namespace NanoTick

open Aggregates Python

/-! ## Columns by bar number -/

/-- The `k` numbers up to `i`. -/
def lastIndices (k i : Nat) : List Nat := List.range' (i + 1 - k) k

theorem mem_lastIndices {k i j : Nat} (hk : k ≤ i + 1) :
    j ∈ lastIndices k i ↔ i + 1 ≤ j + k ∧ j ≤ i := by
  rw [lastIndices, List.mem_range'_1]
  omega

/-- A column with its entries by number. -/
def columnOf {α : Type} (n : Nat) (f : Nat → α) : List α := (List.range n).map f

@[simp] theorem length_columnOf {α : Type} (n : Nat) (f : Nat → α) :
    (columnOf n f).length = n := by
  simp [columnOf]

theorem getD_columnOf {α : Type} {n : Nat} (f : Nat → α) (d : α) {i : Nat} (hi : i < n) :
    (columnOf n f).getD i d = f i := by
  simp [columnOf, hi]

/-- A column computed from the rows of a table. -/
theorem map_eq_columnOf {β γ : Type} (f : β → Option γ) (l : List β) :
    l.map f = columnOf l.length (fun j => l[j]?.bind f) := by
  refine List.ext_getElem (by simp) (fun j hj _ => ?_)
  have hj : j < l.length := by simpa using hj
  simp [columnOf, hj]

/-- A full window of a column. -/
theorem window_columnOf {α : Type} {n k i : Nat} (f : Nat → α) (hk : k ≤ i + 1) (hi : i < n) :
    window k (columnOf n f) i = (lastIndices k i).map f := by
  refine List.ext_getElem ?_ (fun j hj _ => ?_)
  · simp [window, lastIndices]
    omega
  · simp [window, lastIndices, columnOf]

theorem zipWith_columnOf {α β γ : Type} (g : α → β → γ) (n : Nat) (f₁ : Nat → α) (f₂ : Nat → β) :
    List.zipWith g (columnOf n f₁) (columnOf n f₂) = columnOf n (fun j => g (f₁ j) (f₂ j)) := by
  simp [columnOf, List.zipWith_map, List.zipWith_self]

theorem mavg_columnOf (k n : Nat) (f : Nat → Option ℚ) :
    mavg k (columnOf n f) = columnOf n (fun i => meanOf (window k (columnOf n f) i)) := by
  rw [mavg, length_columnOf]
  rfl

/-- The standard deviation of the entries that are not null. -/
def deviationOf (sqrt : ℚ → Option ℚ) (l : List (Option ℚ)) : Option ℚ :=
  (meanOf (l.map (fun y => y.map (fun y => y * y)))).bind
    (fun s => (meanOf l).bind (fun m => sqrt (s - m * m)))

/-- A trailing mean, where the window is full. -/
theorem getD_mavg {n k i : Nat} (f : Nat → Option ℚ) (hk : k ≤ i + 1) (hi : i < n) :
    (mavg k (columnOf n f)).getD i none = meanOf ((lastIndices k i).map f) := by
  rw [mavg_columnOf, getD_columnOf _ _ hi, window_columnOf f hk hi]

/-- A trailing deviation, where the window is full. -/
theorem getD_mdev {sqrt : ℚ → Option ℚ} {n k i : Nat} (f : Nat → Option ℚ) (hk : k ≤ i + 1)
    (hi : i < n) :
    (mdev sqrt k (columnOf n f)).getD i none = deviationOf sqrt ((lastIndices k i).map f) := by
  have hsq : (columnOf n f).map (fun y => y.map (fun y => y * y))
      = columnOf n (fun j => (f j).map (fun y => y * y)) := by
    simp [columnOf]
  rw [mdev, hsq, mavg_columnOf, mavg_columnOf, zipWith_columnOf, getD_columnOf _ _ hi,
    window_columnOf _ hk hi, window_columnOf _ hk hi, deviationOf, List.map_map]
  rfl

/-! ## The columns of `featuresOf` -/

section

variable (log sqrt : ℚ → Option ℚ) (tb : List (Int × Ohlcv)) (qb : List (Int × QuoteFeatures))

/-- The close of bar `j`. -/
def closeAt (j : Nat) : Option ℚ := tb[j]?.bind (fun b => some b.2.close)

/-- The trailing log return of bar `j`: null for the first bar. -/
def retAt : Nat → Option ℚ
  | 0 => none
  | j + 1 => (ratio (closeAt tb (j + 1)) (closeAt tb j)).bind log

/-- The imbalance of bar `j`. -/
def imbalanceAt (j : Nat) : Option ℚ := tb[j]?.bind (fun b => b.2.imbalance)

/-- The mid of bar `j`: that of the quote bar of its bucket. -/
def midAt (j : Nat) : Option ℚ := tb[j]?.bind (fun b => (qb.lookup b.1).map (·.mid))

/-- The label of a forward return. -/
def labelOf (cost : ℚ) (fwdRet : Option ℚ) : Int :=
  (if above fwdRet cost then 1 else 0) - (if below fwdRet (-cost) then 1 else 0)

/-- What row `r` of a feature table says about its bar, the windows and the horizon. -/
structure RowSpec (h w : Nat) (cost : ℚ) (r : FeatureRow) : Prop where
  warm : w ≤ r.i
  labelled : r.i + h < tb.length
  bar : tb[r.i]? = some (r.bar, r.toOhlcv)
  quote : r.quote = qb.lookup r.bar
  ret : r.ret = retAt log tb r.i
  rvol : r.rvol = deviationOf sqrt ((lastIndices w r.i).map (retAt log tb))
  imbAvg : r.imbAvg = meanOf ((lastIndices w r.i).map (imbalanceAt tb))
  fwdRet : r.fwdRet = (ratio (midAt tb qb (r.i + h)) (midAt tb qb r.i)).bind log
  label : r.label = labelOf cost r.fwdRet

end

section

variable {log sqrt : ℚ → Option ℚ} {tb tb' : List (Int × Ohlcv)}
  {qb qb' : List (Int × QuoteFeatures)} {h w : Nat} {cost : ℚ} {rows rows' : List FeatureRow}
  {r r' : FeatureRow}

/-- `prev` shifts by one. -/
theorem prev_columnOf (n : Nat) (f : Nat → Option ℚ) :
    prev (columnOf n f) = columnOf n (fun j => if j = 0 then none else f (j - 1)) := by
  refine List.ext_getElem (by simp [prev]) (fun j hj _ => ?_)
  cases j with
  | zero => simp [prev, columnOf]
  | succ j => simp [prev, columnOf]

/-- The forward shift, for a table longer than the horizon. -/
theorem ahead_columnOf {n : Nat} (f : Nat → Option ℚ) (hn : h ≤ n) :
    (columnOf n f).drop h ++ List.replicate h none
      = columnOf n (fun j => if j + h < n then f (j + h) else none) := by
  refine List.ext_getElem (by simp; omega) (fun j hj _ => ?_)
  by_cases hin : j + h < n
  · rw [List.getElem_append_left (by simp; omega)]
    simp [columnOf, Nat.add_comm j h]
    omega
  · rw [List.getElem_append_right (by simp; omega)]
    simp [columnOf, hin]

/-- The rows of a table longer than the horizon. -/
theorem featuresOf_eq (hlen : h ≤ tb.length) :
    featuresOf log sqrt tb qb h w cost = .ok (sublist w ((tb.length : Int) - w - h)
      ((lj tb qb).mapIdx (fun i b =>
        { b.2.1 with
          i := i
          bar := b.1
          quote := b.2.2
          ret := (columnOf tb.length (retAt log tb)).getD i none
          rvol := (mdev sqrt w (columnOf tb.length (retAt log tb))).getD i none
          imbAvg := (mavg w (columnOf tb.length (imbalanceAt tb))).getD i none
          fwdRet := (List.zipWith (fun f c => (ratio f c).bind log)
            ((columnOf tb.length (midAt tb qb)).drop h ++ List.replicate h none)
            (columnOf tb.length (midAt tb qb))).getD i none
          label := labelOf cost ((List.zipWith (fun f c => (ratio f c).bind log)
            ((columnOf tb.length (midAt tb qb)).drop h ++ List.replicate h none)
            (columnOf tb.length (midAt tb qb))).getD i none) }))) := by
  have hmid : (lj tb qb).map (fun r => r.2.2.map (·.mid)) = columnOf tb.length (midAt tb qb) := by
    rw [lj, List.map_map]
    exact map_eq_columnOf (fun b : Int × Ohlcv => (qb.lookup b.1).map (·.mid)) tb
  have hclose : (lj tb qb).map (fun r => some r.2.1.close)
      = columnOf tb.length (closeAt tb) := by
    rw [lj, List.map_map]
    exact map_eq_columnOf (fun b : Int × Ohlcv => some b.2.close) tb
  have himb : (lj tb qb).map (fun r => r.2.1.imbalance)
      = columnOf tb.length (imbalanceAt tb) := by
    rw [lj, List.map_map]
    exact map_eq_columnOf (fun b : Int × Ohlcv => b.2.imbalance) tb
  have hret : List.zipWith (fun c p => (ratio c p).bind log) (columnOf tb.length (closeAt tb))
      (prev (columnOf tb.length (closeAt tb))) = columnOf tb.length (retAt log tb) := by
    rw [prev_columnOf, zipWith_columnOf]
    refine congrArg (columnOf tb.length) (funext (fun j => ?_))
    cases j with
    | zero =>
        rw [if_pos rfl, retAt]
        cases closeAt tb 0 <;> rfl
    | succ j => rfl
  have hlj : (lj tb qb).length = tb.length := by simp [lj]
  have hahead : ((columnOf tb.length (midAt tb qb)).drop h ++ List.replicate h none).length
      = (columnOf tb.length (midAt tb qb)).length := by
    simp
    omega
  unfold featuresOf
  dsimp only
  rw [hmid, hclose, himb, hret, hlj, if_neg (fun hne => hne hahead)]
  rfl

/-- The rows kept. -/
theorem mem_sublist_mapIdx {α β : Type} {start : Nat} {len : Int} {f : Nat → α → β} {l : List α}
    {x : β} (hx : x ∈ sublist start len (l.mapIdx f)) :
    ∃ i, start ≤ i ∧ (i : Int) < start + len ∧ ∃ hi : i < l.length, x = f i l[i] := by
  obtain ⟨k, hk, rfl⟩ := List.getElem_of_mem hx
  have hk' := hk
  simp only [sublist, List.length_take, List.length_drop, List.length_mapIdx] at hk'
  refine ⟨start + k, Nat.le_add_right _ _, by omega, by omega, ?_⟩
  simp [sublist]

/-- **One row.** Every column of a kept row, by the number of its bar. -/
theorem featuresOf_row (hrows : featuresOf log sqrt tb qb h w cost = .ok rows) (hr : r ∈ rows) :
    RowSpec log sqrt tb qb h w cost r := by
  have hlen : h ≤ tb.length := by
    by_contra hshort
    unfold featuresOf at hrows
    dsimp only at hrows
    rw [if_pos (by simp [lj]; omega)] at hrows
    cases hrows
  rw [featuresOf_eq hlen] at hrows
  cases hrows
  obtain ⟨i, hwi, hih, hi, rfl⟩ := mem_sublist_mapIdx hr
  have hi : i < tb.length := by simpa [lj] using hi
  have hlabelled : i + h < tb.length := by omega
  have hfwd : (List.zipWith (fun f c => (ratio f c).bind log)
      ((columnOf tb.length (midAt tb qb)).drop h ++ List.replicate h none)
      (columnOf tb.length (midAt tb qb))).getD i none
      = (ratio (midAt tb qb (i + h)) (midAt tb qb i)).bind log := by
    rw [ahead_columnOf _ hlen, zipWith_columnOf, getD_columnOf _ _ hi, if_pos hlabelled]
  have hlj : i < (lj tb qb).length := by simpa [lj] using hi
  have hget : (lj tb qb)[i] = (tb[i].1, tb[i].2, qb.lookup tb[i].1) := by
    simp [lj]
  exact
    { warm := hwi
      labelled := hlabelled
      bar := by rw [List.getElem?_eq_getElem hi, hget]
      quote := by rw [hget]
      ret := getD_columnOf _ _ hi
      rvol := getD_mdev _ (by omega) hi
      imbAvg := getD_mavg _ (by omega) hi
      fwdRet := hfwd
      label := rfl }

/-- Every bar after the warm-up and before the unlabelled tail has its row. -/
theorem featuresOf_keeps (log sqrt : ℚ → Option ℚ) (tb : List (Int × Ohlcv))
    (qb : List (Int × QuoteFeatures)) {h w : Nat} (cost : ℚ) {i : Nat} (hw : w ≤ i)
    (hh : i + h < tb.length) :
    ∃ rows, featuresOf log sqrt tb qb h w cost = .ok rows ∧ ∃ r ∈ rows, r.i = i := by
  refine ⟨_, featuresOf_eq (by omega), ?_⟩
  have hk : i - w < ((tb.length : Int) - w - h).toNat := by omega
  have hi : w + (i - w) = i := by omega
  refine ⟨_, List.getElem_mem (n := i - w) ?_, ?_⟩
  · simp [sublist, lj]
    omega
  · simp [sublist, hi]

/-! ## The discipline -/

/-- A row with its forward-looking columns removed. -/
def FeatureRow.past (r : FeatureRow) : FeatureRow := { r with fwdRet := none, label := 0 }

/-- Positive closes. -/
def PositiveCloses (tb : List (Int × Ohlcv)) : Prop := ∀ b ∈ tb, 0 < b.2.close

/-- The two averaged columns of a row read a full window of bars, and every return of it is
there. -/
structure FullWindows (log sqrt : ℚ → Option ℚ) (tb : List (Int × Ohlcv)) (w : Nat)
    (r : FeatureRow) : Prop where
  full : (lastIndices w r.i).length = w ∧ ∀ j ∈ lastIndices w r.i, j < tb.length
  noWarmup : ∀ j ∈ lastIndices w r.i, retAt log tb j ≠ none
  rvol : r.rvol = deviationOf sqrt ((lastIndices w r.i).map (retAt log tb))
  imbAvg : r.imbAvg = meanOf ((lastIndices w r.i).map (imbalanceAt tb))

/-- Tables that agree up to a bar agree on every bar up to it. -/
theorem getElem?_of_take_eq {i j : Nat} (htb : tb.take (i + 1) = tb'.take (i + 1)) (hj : j ≤ i) :
    tb[j]? = tb'[j]? := by
  have h := congrArg (fun l => l[j]?) htb
  simpa [List.getElem?_take, Nat.lt_succ_of_le hj] using h

theorem retAt_congr {i j : Nat} (htb : tb.take (i + 1) = tb'.take (i + 1)) (hj : j ≤ i) :
    retAt log tb j = retAt log tb' j := by
  cases j with
  | zero => rfl
  | succ j =>
      rw [retAt, retAt, closeAt, closeAt, closeAt, closeAt, getElem?_of_take_eq htb hj,
        getElem?_of_take_eq htb (Nat.le_of_succ_le hj)]

/-- **No lookahead.** Tables that agree on the bars up to a row's bar, and on the quote bars up
to its time, give the row the same columns. -/
theorem RowSpec.past_eq (hr : RowSpec log sqrt tb qb h w cost r)
    (hr' : RowSpec log sqrt tb' qb' h w cost r') (hi : r.i = r'.i)
    (htb : tb.take (r.i + 1) = tb'.take (r.i + 1))
    (hqb : ∀ t ≤ r.bar, qb.lookup t = qb'.lookup t) : r.past = r'.past := by
  have hbar : some (r.bar, r.toOhlcv) = some (r'.bar, r'.toOhlcv) := by
    rw [← hr.bar, ← hr'.bar, ← hi]
    exact getElem?_of_take_eq htb (le_refl r.i)
  obtain ⟨hbar, hohlcv⟩ := Prod.mk.inj (Option.some.inj hbar)
  have hupto : ∀ j ∈ lastIndices w r.i, j ≤ r.i := fun j hj =>
    ((mem_lastIndices (Nat.le_succ_of_le hr.warm)).mp hj).2
  have hquote : r.quote = r'.quote := by
    rw [hr.quote, hr'.quote, ← hbar]
    exact hqb r.bar (le_refl _)
  have hret : r.ret = r'.ret := by
    rw [hr.ret, hr'.ret, ← hi]
    exact retAt_congr htb (le_refl r.i)
  have hrvol : r.rvol = r'.rvol := by
    rw [hr.rvol, hr'.rvol, ← hi]
    exact congrArg _ (List.map_congr_left (fun j hj => retAt_congr htb (hupto j hj)))
  have himb : r.imbAvg = r'.imbAvg := by
    rw [hr.imbAvg, hr'.imbAvg, ← hi]
    refine congrArg _ (List.map_congr_left (fun j hj => ?_))
    rw [imbalanceAt, imbalanceAt, getElem?_of_take_eq htb (hupto j hj)]
  unfold FeatureRow.past
  rw [hohlcv, hbar, hi, hquote, hret, hrvol, himb]

/-- A return between two positive closes is there. -/
theorem retAt_ne_none (hlog : ∀ x, 0 < x → log x ≠ none) (hpos : PositiveCloses tb) {j : Nat}
    (hj : 1 ≤ j) (hjn : j < tb.length) : retAt log tb j ≠ none := by
  obtain ⟨j, rfl⟩ := Nat.exists_eq_add_of_le' hj
  have hnext : 0 < tb[j + 1].2.close := hpos _ (List.getElem_mem hjn)
  have hcur : 0 < tb[j].2.close := hpos _ (List.getElem_mem (Nat.lt_of_succ_lt hjn))
  have hratio : ratio (closeAt tb (j + 1)) (closeAt tb j)
      = some (tb[j + 1].2.close / tb[j].2.close) := by
    rw [closeAt, closeAt, List.getElem?_eq_getElem hjn,
      List.getElem?_eq_getElem (Nat.lt_of_succ_lt hjn)]
    simp [ratio, div, hcur.ne']
  rw [retAt, hratio]
  exact hlog _ (div_pos hnext hcur)

/-- **Full windows.** -/
theorem RowSpec.fullWindows (hlog : ∀ x, 0 < x → log x ≠ none) (hpos : PositiveCloses tb)
    (hr : RowSpec log sqrt tb qb h w cost r) : FullWindows log sqrt tb w r where
  full := by
    refine ⟨by simp [lastIndices], fun j hj => ?_⟩
    have hupto := ((mem_lastIndices (Nat.le_succ_of_le hr.warm)).mp hj).2
    have hlabelled := hr.labelled
    omega
  noWarmup := by
    intro j hj
    obtain ⟨hfrom, hupto⟩ := (mem_lastIndices (Nat.le_succ_of_le hr.warm)).mp hj
    have hwarm := hr.warm
    have hlabelled := hr.labelled
    -- the window of a kept row starts after the first bar
    exact retAt_ne_none hlog hpos (by omega) (by omega)
  rvol := hr.rvol
  imbAvg := hr.imbAvg

/-- **The forward columns** read the mids of the bar and of the one `h` further. -/
theorem RowSpec.forward_eq (hr : RowSpec log sqrt tb qb h w cost r)
    (hr' : RowSpec log sqrt tb' qb' h w cost r')
    (hmid : midAt tb qb r.i = midAt tb' qb' r'.i)
    (hahead : midAt tb qb (r.i + h) = midAt tb' qb' (r'.i + h)) :
    r.fwdRet = r'.fwdRet ∧ r.label = r'.label := by
  have hfwd : r.fwdRet = r'.fwdRet := by rw [hr.fwdRet, hr'.fwdRet, hmid, hahead]
  exact ⟨hfwd, by rw [hr.label, hr'.label, hfwd]⟩

end

/-- **Feature discipline.** For every horizon, window and cost and any two pairs of tables with
positive closes: a row kept in both outputs has the same columns, the forward ones apart, when
the tables agree up to its bar; its averages are over a full window; and its forward columns are
the same when the mids of its bar and of the bar at the horizon are. -/
theorem featuresOf_discipline (log sqrt : ℚ → Option ℚ) (hlog : ∀ x, 0 < x → log x ≠ none)
    (h w : Nat) (cost : ℚ) (tb tb' : List (Int × Ohlcv)) (qb qb' : List (Int × QuoteFeatures))
    (hpos : PositiveCloses tb) (rows rows' : List FeatureRow)
    (hrows : featuresOf log sqrt tb qb h w cost = .ok rows)
    (hrows' : featuresOf log sqrt tb' qb' h w cost = .ok rows') :
    ∀ r ∈ rows,
      FullWindows log sqrt tb w r
      ∧ ∀ r' ∈ rows',
        (r.i = r'.i → tb.take (r.i + 1) = tb'.take (r.i + 1) →
          (∀ t ≤ r.bar, qb.lookup t = qb'.lookup t) → r.past = r'.past)
        ∧ (midAt tb qb r.i = midAt tb' qb' r'.i →
          midAt tb qb (r.i + h) = midAt tb' qb' (r'.i + h) →
          r.fwdRet = r'.fwdRet ∧ r.label = r'.label) := by
  intro r hr
  have hspec := featuresOf_row hrows hr
  refine ⟨hspec.fullWindows hlog hpos, fun r' hr' => ?_⟩
  have hspec' := featuresOf_row hrows' hr'
  exact ⟨hspec.past_eq hspec', hspec.forward_eq hspec'⟩

/-- Three bars of price 1 and a last one. -/
def flatBars (last : ℚ) : List (Int × Ohlcv) :=
  [(0, ⟨1, 1, 1, 1, some 1, 1, 1, 1, 0, some 1⟩), (1, ⟨1, 1, 1, 1, some 1, 1, 1, 1, 0, some 1⟩),
    (2, ⟨1, 1, 1, 1, some 1, 1, 1, 1, 0, some 1⟩),
    (3, ⟨last, last, last, last, some last, 1, 1, 1, 0, some 1⟩)]

/-- A quote bar for each of four bars, with the given ask from bar `k` on. -/
def movedQuotes (k : Nat) (ask : ℚ) : List (Int × QuoteFeatures) :=
  (List.range 4).map (fun t : Nat =>
    ((t : Int), quoteFeatures (if t < k then ⟨1, 1, 1, 3⟩ else ⟨1, ask, 2, 1⟩)))

theorem lookup_movedQuotes {k : Nat} (ask ask' : ℚ) {t : Int} (ht : t < k) :
    (movedQuotes k ask).lookup t = (movedQuotes k ask').lookup t := by
  unfold movedQuotes
  induction List.range 4 with
  | nil => rfl
  | cons n ns ih =>
      rw [List.map_cons, List.map_cons, List.lookup_cons, List.lookup_cons, ih]
      split
      · rename_i hn
        have hlt : n < k := by
          have heq : t = n := eq_of_beq hn
          omega
        simp only [if_pos hlt]
      · rfl

/-- A logarithm exact at 1 and a square root exact at 0. -/
def logAtOne (x : ℚ) : Option ℚ := if 0 < x then some (x - 1) else none
def sqrtAtZero (x : ℚ) : Option ℚ := if x = 0 then some 0 else none

/-- The price and the book of the last bars do not show in the row of the second. -/
theorem flatBars_past : ∃ rows rows',
    featuresOf logAtOne sqrtAtZero (flatBars 1) (movedQuotes 2 3) 1 1 0 = .ok rows
      ∧ featuresOf logAtOne sqrtAtZero (flatBars 2) (movedQuotes 2 5) 1 1 0 = .ok rows'
      ∧ ∃ r ∈ rows, ∃ r' ∈ rows', r.i = 1 ∧ r.fwdRet ≠ r'.fwdRet
        ∧ FullWindows logAtOne sqrtAtZero (flatBars 1) 1 r ∧ r.past = r'.past := by
  have hlog : ∀ x, 0 < x → logAtOne x ≠ none := fun x hx => by simp [logAtOne, hx]
  have hpos : PositiveCloses (flatBars 1) := by simp [PositiveCloses, flatBars]
  obtain ⟨rows, hrows, r, hr, hi⟩ := featuresOf_keeps logAtOne sqrtAtZero
    (flatBars 1) (movedQuotes 2 3) (h := 1) (w := 1) 0 (le_refl 1) (by decide)
  obtain ⟨rows', hrows', r', hr', hi'⟩ := featuresOf_keeps logAtOne sqrtAtZero
    (flatBars 2) (movedQuotes 2 5) (h := 1) (w := 1) 0 (le_refl 1) (by decide)
  obtain ⟨hfull, hpairs⟩ := featuresOf_discipline logAtOne sqrtAtZero hlog 1 1 0 (flatBars 1)
    (flatBars 2) (movedQuotes 2 3) (movedQuotes 2 5) hpos rows rows' hrows hrows' r hr
  refine ⟨rows, rows', hrows, hrows', r, hr, r', hr', hi, ?_, hfull, (hpairs r' hr').1 ?_ ?_ ?_⟩
  · rw [(featuresOf_row hrows hr).fwdRet, (featuresOf_row hrows' hr').fwdRet, hi, hi']
    decide +kernel
  · rw [hi, hi']
  · rw [hi]
    rfl
  · intro t ht
    have hrow := (featuresOf_row hrows hr).bar
    rw [hi] at hrow
    have hbar : r.bar = 1 := (congrArg Prod.fst (Option.some.inj hrow)).symm
    exact lookup_movedQuotes 3 5 (by omega)

end NanoTick
