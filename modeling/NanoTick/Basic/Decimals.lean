import NanoTick.Basic.JsonText
import Mathlib.Tactic

set_option autoImplicit false

/-! # Numbers of four decimals

Numbers written without an exponent, with at most four decimals and no trailing zeros: a way to
write and read the numbers of JSON text (`decimals_reads`).
-/

namespace JsonText

open Python

def lastDigit (n : Nat) : Char := Nat.digitChar (n % 10)

/-- The decimals of a number of ten-thousandths, without trailing zeros. -/
def fractionText (k : Nat) : List Char :=
  if k % 1000 = 0 then [lastDigit (k / 1000)]
  else if k % 100 = 0 then [lastDigit (k / 1000), lastDigit (k / 100)]
  else if k % 10 = 0 then [lastDigit (k / 1000), lastDigit (k / 100), lastDigit (k / 10)]
  else [lastDigit (k / 1000), lastDigit (k / 100), lastDigit (k / 10), lastDigit k]

/-- A number of ten-thousandths. -/
def decimalText (n : Nat) : List Char :=
  Nat.toDigits 10 (n / 10000)
    ++ if n % 10000 = 0 then [] else '.' :: fractionText (n % 10000)

def scanDecimal (t : List Char) : Option (Nat × List Char) :=
  let i := t.takeWhile Char.isDigit
  if i = [] then none
  else
    match t.dropWhile Char.isDigit with
    | [] => some (Nat.ofDigitChars 10 i 0 * 10000, [])
    | c :: u =>
        if c = '.' then
          let f := u.takeWhile Char.isDigit
          if f = [] ∨ 4 < f.length then none
          else some (Nat.ofDigitChars 10 i 0 * 10000
            + Nat.ofDigitChars 10 f 0 * 10 ^ (4 - f.length), u.dropWhile Char.isDigit)
        else some (Nat.ofDigitChars 10 i 0 * 10000, c :: u)

/-- Numbers of at most four decimals, as Python writes them where it needs no exponent. -/
def decimals : Numerals where
  text
    | .rat q => (if q < 0 then ['-'] else []) ++ decimalText (q * 10000).num.natAbs
    | .posInf => "Infinity".toList
    | .negInf => "-Infinity".toList
    | .nan => "NaN".toList
  scan t :=
    if t.head? = some '-' then
      (scanDecimal t.tail).map (fun p => (.rat (-(p.1 / 10000 : ℚ)), p.2))
    else (scanDecimal t).map (fun p => (.rat (p.1 / 10000 : ℚ), p.2))

theorem isDigit_lastDigit (n : Nat) : (lastDigit n).isDigit = true := by
  have hall : ∀ m < 10, (Nat.digitChar m).isDigit = true := by decide
  exact hall _ (Nat.mod_lt _ (by decide))

theorem ofDigitChars_lastDigit (n : Nat) (t : List Char) (init : Nat) :
    Nat.ofDigitChars 10 (lastDigit n :: t) init = Nat.ofDigitChars 10 t (10 * init + n % 10) :=
  Nat.ofDigitChars_cons_digitChar_of_lt_ten (Nat.mod_lt _ (by decide))

theorem fractionText_spec {k : Nat} (hk : k < 10000) : fractionText k ≠ []
    ∧ (fractionText k).length ≤ 4 ∧ (∀ c ∈ fractionText k, c.isDigit = true)
    ∧ Nat.ofDigitChars 10 (fractionText k) 0 * 10 ^ (4 - (fractionText k).length) = k := by
  unfold fractionText
  split_ifs with h₁ h₂ h₃
  · simp only [List.forall_mem_cons, isDigit_lastDigit, ofDigitChars_lastDigit,
      Nat.ofDigitChars_nil, List.length_cons, List.length_nil]
    refine ⟨List.cons_ne_nil _ _, by omega, by simp, by omega⟩
  · simp only [List.forall_mem_cons, isDigit_lastDigit, ofDigitChars_lastDigit,
      Nat.ofDigitChars_nil, List.length_cons, List.length_nil]
    refine ⟨List.cons_ne_nil _ _, by omega, by simp, by omega⟩
  · simp only [List.forall_mem_cons, isDigit_lastDigit, ofDigitChars_lastDigit,
      Nat.ofDigitChars_nil, List.length_cons, List.length_nil]
    refine ⟨List.cons_ne_nil _ _, by omega, by simp, by omega⟩
  · simp only [List.forall_mem_cons, isDigit_lastDigit, ofDigitChars_lastDigit,
      Nat.ofDigitChars_nil, List.length_cons, List.length_nil]
    refine ⟨List.cons_ne_nil _ _, by omega, by simp, by omega⟩

theorem isDigit_toDigits (n : Nat) : ∀ c ∈ Nat.toDigits 10 n, c.isDigit = true := fun _ hc =>
  Nat.isDigit_of_mem_toDigits (by decide) (by decide) hc

/-- What can follow a number is no digit, and no point. -/
theorem Ends.head {t : List Char} (ht : Ends t) {c : Char} {u : List Char} (hc : t = c :: u) :
    c.isDigit = false ∧ c ≠ '.' := by
  have h := ht c (by rw [hc]; rfl)
  unfold isSpace at h
  rw [decide_eq_true_eq] at h
  rcases h with rfl | rfl | rfl | rfl | rfl | rfl | rfl <;> decide

theorem span_digits {i t : List Char} (hi : ∀ c ∈ i, c.isDigit = true)
    (ht : ∀ c ∈ t.head?, c.isDigit = false) :
    (i ++ t).takeWhile Char.isDigit = i ∧ (i ++ t).dropWhile Char.isDigit = t := by
  rw [List.takeWhile_append_of_pos hi, List.dropWhile_append_of_pos hi]
  cases t with
  | nil => simp
  | cons c t =>
      have hc : ¬ c.isDigit = true := by rw [ht c rfl]; decide
      rw [List.takeWhile_cons_of_neg hc, List.dropWhile_cons_of_neg hc, List.append_nil]
      exact ⟨rfl, rfl⟩

/-- **Decimals** are read back. -/
theorem scanDecimal_decimalText (n : Nat) {t : List Char} (ht : Ends t) :
    scanDecimal (decimalText n ++ t) = some (n, t) := by
  have hint := isDigit_toDigits (n / 10000)
  have hends : ∀ c ∈ t.head?, c.isDigit = false := by
    intro c hc
    cases t with
    | nil => cases hc
    | cons d t => exact (Option.some_inj.mp hc) ▸ (ht.head rfl).1
  unfold scanDecimal decimalText
  dsimp only
  rw [List.append_assoc]
  by_cases hwhole : n % 10000 = 0
  · rw [if_pos hwhole, List.nil_append]
    obtain ⟨htake, hdrop⟩ := span_digits hint hends
    rw [htake, hdrop, if_neg Nat.toDigits_ne_nil, Nat.ofDigitChars_ten_toDigits]
    cases t with
    | nil =>
        simp only [Option.some_inj, Prod.mk.injEq, and_true]
        omega
    | cons c t =>
        simp only [if_neg (ht.head rfl).2, Option.some_inj, Prod.mk.injEq, and_true]
        omega
  · rw [if_neg hwhole]
    obtain ⟨hne, hlen, hdigits, hvalue⟩ :=
      fractionText_spec (Nat.mod_lt n (by decide : 0 < 10000))
    have hpoint : ∀ c ∈ ('.' :: (fractionText (n % 10000) ++ t)).head?, c.isDigit = false := by
      intro c hc
      rw [← Option.some_inj.mp hc]
      decide
    obtain ⟨htake, hdrop⟩ := span_digits hint hpoint
    obtain ⟨htake', hdrop'⟩ := span_digits hdigits hends
    rw [List.cons_append, htake, hdrop, if_neg Nat.toDigits_ne_nil]
    dsimp only
    rw [if_pos rfl, htake', hdrop', if_neg (not_or.mpr ⟨hne, not_lt.mpr hlen⟩),
      Nat.ofDigitChars_ten_toDigits, hvalue]
    simp only [Option.some_inj, Prod.mk.injEq, and_true]
    omega

/-- Decimals start with a digit, and have only digits and a point. -/
theorem decimalText_chars (n : Nat) : (∃ c t, decimalText n = c :: t ∧ c.isDigit = true)
    ∧ ∀ c ∈ decimalText n, c.isDigit = true ∨ c = '.' := by
  have hint := isDigit_toDigits (n / 10000)
  obtain ⟨c, t, hc⟩ := List.exists_cons_of_ne_nil (Nat.toDigits_ne_nil (n := n / 10000) (b := 10))
  unfold decimalText
  constructor
  · rw [hc, List.cons_append]
    exact ⟨c, _, rfl, hint c (by rw [hc]; exact List.mem_cons_self)⟩
  · rw [List.forall_mem_append]
    refine ⟨fun c hc => Or.inl (hint c hc), ?_⟩
    split
    · exact fun c hc => absurd hc List.not_mem_nil
    · rw [List.forall_mem_cons]
      obtain ⟨-, -, hdigits, -⟩ := fractionText_spec (Nat.mod_lt n (by decide : 0 < 10000))
      exact ⟨Or.inr rfl, fun c hc => Or.inl (hdigits c hc)⟩

theorem toNat_of_isDigit {c : Char} (hc : c.isDigit = true) : 48 ≤ c.toNat ∧ c.toNat ≤ 57 := by
  simp only [Char.isDigit, Bool.and_eq_true, decide_eq_true_eq, ge_iff_le] at hc
  exact hc

theorem startsNumber_of_isDigit {c : Char} (hc : c.isDigit = true) : startsNumber c = true := by
  have hrange := toNat_of_isDigit hc
  have hall : ∀ n, n < 58 → 48 ≤ n → startsNumber (Char.ofNat n) = true := by decide
  have h := hall c.toNat (by omega) hrange.1
  rwa [Char.ofNat_toNat] at h

/-- **Numbers of at most four decimals** are read back. -/
theorem decimals_reads {q : ℚ} (hq : (q * 10000).den = 1) : decimals.Reads (.rat q) := by
  obtain ⟨⟨c, u, hc, hdigit⟩, hchars⟩ := decimalText_chars (q * 10000).num.natAbs
  have hnum : ((q * 10000).num : ℚ) = q * 10000 := Rat.coe_int_num_of_den_eq_one hq
  have htext : decimals.text (.rat q)
      = (if q < 0 then ['-'] else []) ++ decimalText (q * 10000).num.natAbs := rfl
  refine ⟨?_, ?_, fun t ht => ?_⟩
  · rw [htext]
    split
    · exact ⟨'-', _, rfl, by decide⟩
    · exact ⟨c, u, hc, startsNumber_of_isDigit hdigit⟩
  · have hprintable : ∀ c : Char, c.isDigit = true ∨ c = '.' →
        0x20 ≤ c.toNat ∧ c.toNat ≤ 0x7e ∧ c ≠ '<' := by
      rintro c (hc | rfl)
      · have hrange := toNat_of_isDigit hc
        refine ⟨by omega, by omega, ?_⟩
        rintro rfl
        cases hc
      · decide
    rw [htext, List.forall_mem_append]
    refine ⟨?_, fun c hc => hprintable c (hchars c hc)⟩
    split
    · simp
    · exact fun c hc => absurd hc List.not_mem_nil
  · have hscan := scanDecimal_decimalText (q * 10000).num.natAbs ht
    rw [htext]
    show (if _ = some '-' then _ else _) = _
    by_cases hneg : q < 0
    · have habs : (((q * 10000).num.natAbs : Nat) : ℚ) = -(q * 10000) := by
        have hlt : (q * 10000).num < 0 := Rat.num_neg.mpr (by linarith)
        rw [← Int.cast_natCast, Int.ofNat_natAbs_of_nonpos hlt.le, Int.cast_neg, hnum]
      have hminus : ∀ l : List Char, ('-' :: l).head? = some '-' := fun _ => rfl
      rw [if_pos hneg, List.singleton_append, List.cons_append, if_pos (hminus _), List.tail_cons,
        hscan]
      simp only [Option.map_some, habs]
      congr 3
      ring
    · have habs : (((q * 10000).num.natAbs : Nat) : ℚ) = q * 10000 := by
        have hle : 0 ≤ (q * 10000).num := Rat.num_nonneg.mpr (by linarith)
        rw [← Int.cast_natCast, Int.natAbs_of_nonneg hle, hnum]
      have hhead : (decimalText (q * 10000).num.natAbs ++ t).head? ≠ some '-' := by
        rw [hc, List.cons_append, List.head?_cons, ne_eq, Option.some_inj]
        rintro rfl
        cases hdigit
      rw [if_neg hneg, List.nil_append, if_neg hhead, hscan]
      simp only [Option.map_some, habs]
      congr 3
      ring

end JsonText
