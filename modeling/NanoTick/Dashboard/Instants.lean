import NanoTick.Backfill.Retention
import NanoTick.Backfill.Sources
import NanoTick.Basic.Raising
import NanoTick.Store.Roller
import Mathlib.Data.List.DropRight
import Mathlib.Tactic

set_option autoImplicit false

/-! # Dates and instants as text

The dashboard (`resources/dashboard.py`) takes dates and instants as text and prints them as
text; partition directories are named by date. What is printed is read back: `ymd` reads the
name of a partition, `coerceDate` a printed date, and `parseInstant` a printed minute
(`printed_read_back`).

Digits are ASCII ones here: others that Python takes are left out.
-/

namespace NanoTick

open HdbDir Python Raising

/-! ## The calendar -/

def leap (y : Nat) : Bool := decide ((y % 4 = 0 ∧ y % 100 ≠ 0) ∨ y % 400 = 0)

/-- The days of the years before a year. -/
def daysBeforeYear (y : Nat) : Nat := (y - 1) * 365 + (y - 1) / 4 - (y - 1) / 100 + (y - 1) / 400

/-- The days of the months before a month. -/
def daysBeforeMonth (y m : Nat) : Nat := ((List.range' 1 (m - 1)).map (daysInMonth y)).sum

/-- The year of a day, counted from the first of year 1, and the days since it began
(`_ord2ymd`). -/
def yearOf (n : Nat) : Nat × Nat :=
  let n400 := n / 146097
  let n := n % 146097
  let n100 := n / 36524
  let n := n % 36524
  let n4 := n / 1461
  let n := n % 1461
  let n1 := n / 365
  let n := n % 365
  let year := n400 * 400 + 1 + n100 * 100 + n4 * 4 + n1
  if n1 = 4 ∨ n100 = 4 then (year - 1, 365) else (year, n)

/-- The month of a day of a year, and the days since it began: a guess, which may be one month
late. -/
def monthOf (y n : Nat) : Nat × Nat :=
  let month := (n + 50) / 32
  if n < daysBeforeMonth y month then (month - 1, n - daysBeforeMonth y (month - 1))
  else (month, n - daysBeforeMonth y month)

/-- Year, month and day of a date. -/
def ofDate (d : Date) : Nat × Nat × Nat :=
  let (y, n) := yearOf (d + 719162).toNat
  let (m, k) := monthOf y n
  (y, m, k + 1)

/-- The days before a year, by its place in four hundred, one hundred and four years. -/
theorem daysBeforeYear_succ {a b c e : Nat} (hb : b ≤ 3) (hc : c ≤ 24) (he : e ≤ 3) :
    daysBeforeYear (400 * a + 100 * b + 4 * c + e + 1)
      = 146097 * a + 36524 * b + 1461 * c + 365 * e := by
  have h4 : (400 * a + 100 * b + 4 * c + e) / 4 = 100 * a + 25 * b + c := by omega
  have h100 : (400 * a + 100 * b + 4 * c + e) / 100 = 4 * a + b := by omega
  have h400 : (400 * a + 100 * b + 4 * c + e) / 400 = a := by omega
  unfold daysBeforeYear
  rw [Nat.add_sub_cancel, h4, h100, h400]
  omega

/-- Every fourth year is a leap year, the last of a hundred only when it is the last of four
hundred. -/
theorem leap_fourth {a b c : Nat} (hb : b ≤ 3) (hc : c ≤ 24) (hlast : c ≤ 23 ∨ b = 3) :
    leap (400 * a + 100 * b + 4 * c + 3 + 1) = true := by
  unfold leap
  rw [decide_eq_true_eq]
  rcases hlast with hc' | rfl
  · exact Or.inl ⟨by omega, by omega⟩
  · by_cases hc' : c = 24
    · exact Or.inr (by omega)
    · exact Or.inl ⟨by omega, by omega⟩

theorem yearOf_spec (n : Nat) : 1 ≤ (yearOf n).1 ∧ daysBeforeYear (yearOf n).1 + (yearOf n).2 = n
    ∧ (yearOf n).2 < 365 + (leap (yearOf n).1).toNat := by
  obtain ⟨a, r, hr, ha, hr', hn⟩ : ∃ a r, r < 146097 ∧ n / 146097 = a ∧ n % 146097 = r
      ∧ 146097 * a + r = n :=
    ⟨_, _, Nat.mod_lt _ (by decide), rfl, rfl, Nat.div_add_mod n 146097⟩
  obtain ⟨b, s, hs, hb, hs', hrs⟩ : ∃ b s, s < 36524 ∧ r / 36524 = b ∧ r % 36524 = s
      ∧ 36524 * b + s = r :=
    ⟨_, _, Nat.mod_lt _ (by decide), rfl, rfl, Nat.div_add_mod r 36524⟩
  obtain ⟨c, u, hu, hc, hu', hsu⟩ : ∃ c u, u < 1461 ∧ s / 1461 = c ∧ s % 1461 = u
      ∧ 1461 * c + u = s :=
    ⟨_, _, Nat.mod_lt _ (by decide), rfl, rfl, Nat.div_add_mod s 1461⟩
  obtain ⟨e, k, hk, he, hk', huk⟩ : ∃ e k, k < 365 ∧ u / 365 = e ∧ u % 365 = k
      ∧ 365 * e + k = u :=
    ⟨_, _, Nat.mod_lt _ (by decide), rfl, rfl, Nat.div_add_mod u 365⟩
  unfold yearOf
  dsimp only
  rw [ha, hr', hb, hs', hc, hu', he, hk']
  by_cases hb4 : b = 4
  · -- the last day of four hundred years
    obtain ⟨rfl, rfl, rfl⟩ : c = 0 ∧ e = 0 ∧ k = 0 := by omega
    rw [if_pos (Or.inr hb4)]
    have hyear : a * 400 + 1 + b * 100 + 0 * 4 + 0 - 1 = 400 * a + 100 * 3 + 4 * 24 + 3 + 1 := by
      omega
    rw [hyear, daysBeforeYear_succ (le_refl 3) (le_refl 24) (le_refl 3),
      leap_fourth (le_refl 3) (le_refl 24) (Or.inr rfl)]
    exact ⟨by omega, by omega, (by decide : 365 < 365 + true.toNat)⟩
  · by_cases he4 : e = 4
    · -- the last day of four years
      rw [if_pos (Or.inl he4)]
      have hyear : a * 400 + 1 + b * 100 + c * 4 + e - 1 = 400 * a + 100 * b + 4 * c + 3 + 1 := by
        omega
      rw [hyear, daysBeforeYear_succ (by omega) (by omega) (le_refl 3),
        leap_fourth (by omega) (by omega) (Or.inl (by omega))]
      exact ⟨by omega, by omega, (by decide : 365 < 365 + true.toNat)⟩
    · rw [if_neg (by tauto)]
      have hyear : a * 400 + 1 + b * 100 + c * 4 + e = 400 * a + 100 * b + 4 * c + e + 1 := by
        omega
      rw [hyear, daysBeforeYear_succ (by omega) (by omega) (by omega)]
      exact ⟨by omega, by omega, hk.trans_le (Nat.le_add_right _ _)⟩

/-- Only leap years differ from the others. -/
theorem daysInMonth_eq (y m : Nat) : daysInMonth y m = daysInMonth (if leap y then 4 else 1) m := by
  unfold daysInMonth leap
  by_cases hy : (y % 4 = 0 ∧ y % 100 ≠ 0) ∨ y % 400 = 0
  · simp [hy]
  · simp [hy]

theorem daysBeforeMonth_eq (y m : Nat) :
    daysBeforeMonth y m = daysBeforeMonth (if leap y then 4 else 1) m := by
  unfold daysBeforeMonth
  exact congrArg List.sum (List.map_congr_left (fun k _ => daysInMonth_eq y k))

/-- A year of each kind, day by day. -/
theorem monthOf_kinds : ∀ b : Bool, ∀ n < 365 + b.toNat,
    (1 ≤ (monthOf (if b then 4 else 1) n).1 ∧ (monthOf (if b then 4 else 1) n).1 ≤ 12)
      ∧ (monthOf (if b then 4 else 1) n).2
        < daysInMonth (if b then 4 else 1) (monthOf (if b then 4 else 1) n).1
      ∧ daysBeforeMonth (if b then 4 else 1) (monthOf (if b then 4 else 1) n).1
        + (monthOf (if b then 4 else 1) n).2 = n := by
  decide +kernel

theorem monthOf_spec {y n : Nat} (hn : n < 365 + (leap y).toNat) :
    (1 ≤ (monthOf y n).1 ∧ (monthOf y n).1 ≤ 12)
      ∧ (monthOf y n).2 < daysInMonth y (monthOf y n).1
      ∧ daysBeforeMonth y (monthOf y n).1 + (monthOf y n).2 = n := by
  have hkind : monthOf y n = monthOf (if leap y then 4 else 1) n := by
    simp only [monthOf, daysBeforeMonth_eq y]
  have hspec := monthOf_kinds (leap y) n hn
  rw [hkind, daysInMonth_eq, daysBeforeMonth_eq]
  exact hspec

/-- A date of the calendar. -/
structure Civil (p : Nat × Nat × Nat) : Prop where
  year : 1 ≤ p.1
  month : 1 ≤ p.2.1 ∧ p.2.1 ≤ 12
  day : 1 ≤ p.2.2 ∧ p.2.2 ≤ daysInMonth p.1 p.2.1

/-- **The calendar**: a date is the day its year, month and day are. -/
theorem dateOf_ofDate {d : Date} (hd : -719162 ≤ d) :
    Civil (ofDate d) ∧ dateOf (ofDate d).1 (ofDate d).2.1 (ofDate d).2.2 = d := by
  obtain ⟨hy, hdays, hlt⟩ := yearOf_spec (d + 719162).toNat
  obtain ⟨hm, hk, hbefore⟩ := monthOf_spec hlt
  constructor
  · exact ⟨hy, hm, Nat.le_add_left 1 _, hk⟩
  · have hd : (-719162 : Int) ≤ d := hd
    show ((daysBeforeYear (yearOf (d + 719162).toNat).1
      + daysBeforeMonth (yearOf (d + 719162).toNat).1
        (monthOf (yearOf (d + 719162).toNat).1 (yearOf (d + 719162).toNat).2).1
      + ((monthOf (yearOf (d + 719162).toNat).1 (yearOf (d + 719162).toNat).2).2 + 1) : Nat) : Int)
      - 719163 = d
    omega

theorem daysInMonth_le (y m : Nat) : daysInMonth y m ≤ 31 := by
  unfold daysInMonth
  split_ifs <;> decide

/-- The years are those `datetime` has. -/
theorem year_le {d : Date} (hd : d ≤ 2932896) : (ofDate d).1 ≤ 9999 := by
  obtain ⟨hy, hdays, -⟩ := yearOf_spec (d + 719162).toNat
  have hd : (2932896 : Int) ≥ d := hd
  show (yearOf (d + 719162).toNat).1 ≤ 9999
  by_contra hlt
  -- the days of 9999 years are more
  have hmono : 365 * 9999 + 2424 ≤ daysBeforeYear (yearOf (d + 719162).toNat).1 := by
    unfold daysBeforeYear
    omega
  omega

/-! ## What is printed -/

/-- `%02d`. -/
def two (n : Nat) : List Char := [Nat.digitChar (n / 10 % 10), Nat.digitChar (n % 10)]

/-- `%04d`. -/
def four (n : Nat) : List Char := two (n / 100) ++ two (n % 100)

def dateText (sep : Char) (d : Date) : List Char :=
  four (ofDate d).1 ++ sep :: (two (ofDate d).2.1 ++ sep :: two (ofDate d).2.2)

/-- The directory a partition is in. -/
def partitionName (d : Date) : String := String.ofList (dateText '.' d)

/-- `str` of a date. -/
def isoDate (d : Date) : String := String.ofList (dateText '-' d)

/-- `_iso_min`. Years before 1000 are written with four digits here, as newer versions of
`strftime` do. -/
def isoMin (ms : Int) : Except PyErr String := do
  let d ← utcDate ms
  let m := (ms % msPerDay / 60000).toNat
  .ok (String.ofList (dateText '-' d ++ ' ' :: (two (m / 60) ++ ':' :: two (m % 60))))

/-! ## What is read -/

/-- `%Y`, `%m` and `%d` with a separator between them, as `ymd` reads them. -/
def readDate (sep : Char) (t : List Char) : Option Date :=
  match t.splitOn sep with
  | [y, m, d] => do
      let day := match d with
        | [' ', c] => [c]
        | _ => d
      let y ← if y.length = 4 then number 1 9999 y else none
      let m ← if m.length ≤ 2 then number 1 12 m else none
      let d ← if day.length ≤ 2 then number 1 (daysInMonth y m) day else none
      return dateOf y m d
  | _ => none

theorem ymd_eq (name : String) : ymd name = readDate '.' name.toList := rfl

/-- A field of one or two digits. -/
def twoDigits (high : Nat) (t : List Char) : Option Nat :=
  if t.length ≤ 2 then number 0 high t else none

/-- `%H:%M:%S`, in milliseconds. -/
def readSeconds (t : List Char) : Option Int :=
  match t.splitOn ':' with
  | [h, m, s] => do
      let h ← twoDigits 23 h
      let m ← twoDigits 59 m
      let s ← twoDigits 59 s
      some (((h * 60 + m) * 60 + s) * 1000 : Nat)
  | _ => none

/-- `%H:%M`, in milliseconds. -/
def readMinutes (t : List Char) : Option Int :=
  match t.splitOn ':' with
  | [h, m] => do
      let h ← twoDigits 23 h
      let m ← twoDigits 59 m
      some ((h * 60 + m) * 60000 : Nat)
  | _ => none

/-- A format with a time of day: the time is what follows the last blank. -/
def readInstant (sep : Char) (time : List Char → Option Int) (t : List Char) : Option Int := do
  let ms ← time (t.rtakeWhile (fun c => !isSpace c))
  let d ← readDate sep ((t.rdropWhile (fun c => !isSpace c)).rdropWhile isSpace)
  some (d * msPerDay + ms)

/-- The formats `parse_instant` tries, in their order. -/
def instantFormats : List (List Char → Option Int) :=
  [readInstant '-' readSeconds, readInstant '-' readMinutes,
    fun t => (readDate '-' t).map (fun d => d * msPerDay),
    readInstant '.' readSeconds, readInstant '.' readMinutes,
    fun t => (readDate '.' t).map (fun d => d * msPerDay)]

/-- `s.replace("Z", "").replace("T", " ")`. -/
def normalized (t : List Char) : List Char :=
  (t.filter (fun c => decide (c ≠ 'Z'))).map (fun c => if c = 'T' then ' ' else c)

/-- `parse_instant`. -/
def parseInstant (value : String) : Except PyErr Int :=
  let s := strip value.toList
  if s ≠ [] ∧ s.all Char.isDigit then
    -- `int` of more digits raises
    if maxDigits < s.length then .error .valueError
    else
      let n := Nat.ofDigitChars 10 s 0
      .ok (if 10 ^ 11 ≤ n then n else n * 1000)
  else
    match instantFormats.findSome? (fun f => f (normalized s)) with
    | some ms => .ok ms
    | none => .error .valueError

/-- `coerce_date` of text. -/
def coerceDate (value : String) : Except PyErr Date :=
  match readDate '.' ((strip value.toList).map (fun c => if c = '-' then '.' else c)) with
  | some d => .ok d
  | none => .error .valueError

/-- `date_range`. -/
def dateRange (start stop : String) : Except PyErr (List Date) := do
  let start ← coerceDate start
  let stop ← coerceDate stop
  if stop < start then .error .valueError
  else .ok ((List.range ((stop - start).toNat + 1)).map (fun n : Nat => start + n))

/-! ## Read back -/

theorem isDigit_digitChar : ∀ n < 10, (Nat.digitChar n).isDigit = true := by decide

theorem isDigit_two {n : Nat} : ∀ c ∈ two n, c.isDigit = true := by
  simp only [two, List.forall_mem_cons]
  exact ⟨isDigit_digitChar _ (Nat.mod_lt _ (by decide)), isDigit_digitChar _
    (Nat.mod_lt _ (by decide)), fun c hc => absurd hc List.not_mem_nil⟩

theorem isDigit_four {n : Nat} : ∀ c ∈ four n, c.isDigit = true :=
  List.forall_mem_append.mpr ⟨isDigit_two, isDigit_two⟩

/-- A number in decimal digits is the number they denote, when that is in range. -/
theorem number_eq {low high : Nat} {t : List Char} (hne : t ≠ []) (ht : ∀ c ∈ t, c.isDigit = true)
    (hlow : low ≤ Nat.ofDigitChars 10 t 0) (hhigh : Nat.ofDigitChars 10 t 0 ≤ high) :
    number low high t = some (Nat.ofDigitChars 10 t 0) :=
  if_pos ⟨hne, List.all_eq_true.mpr ht, hlow, hhigh⟩

theorem ofDigitChars_two {n : Nat} (hn : n < 100) (t : List Char) (init : Nat) :
    Nat.ofDigitChars 10 (two n ++ t) init = Nat.ofDigitChars 10 t (100 * init + n) := by
  rw [two, List.cons_append, List.cons_append, List.nil_append,
    Nat.ofDigitChars_cons_digitChar_of_lt_ten (Nat.mod_lt _ (by decide)),
    Nat.ofDigitChars_cons_digitChar_of_lt_ten (Nat.mod_lt _ (by decide))]
  exact congrArg (Nat.ofDigitChars 10 t) (by omega)

theorem number_two {low high n : Nat} (hn : n < 100) (hlow : low ≤ n) (hhigh : n ≤ high) :
    number low high (two n) = some n := by
  have hvalue : Nat.ofDigitChars 10 (two n) 0 = n := by
    have h := ofDigitChars_two hn [] 0
    rwa [List.append_nil, Nat.mul_zero, Nat.zero_add] at h
  have hne : two n ≠ [] := List.cons_ne_nil _ _
  rw [number_eq hne isDigit_two (hvalue.symm ▸ hlow) (hvalue.symm ▸ hhigh), hvalue]

theorem number_four {low high n : Nat} (hn : n < 10000) (hlow : low ≤ n) (hhigh : n ≤ high) :
    number low high (four n) = some n := by
  have hvalue : Nat.ofDigitChars 10 (four n) 0 = n := by
    have h := ofDigitChars_two (Nat.mod_lt n (by decide : 0 < 100)) [] (n / 100)
    rw [List.append_nil, Nat.ofDigitChars_nil] at h
    rw [four, ofDigitChars_two (by omega), Nat.mul_zero, Nat.zero_add, h]
    exact Nat.div_add_mod n 100
  have hne : four n ≠ [] := List.cons_ne_nil _ _
  rw [number_eq hne isDigit_four (hvalue.symm ▸ hlow) (hvalue.symm ▸ hhigh), hvalue]

theorem twoDigits_two {high n : Nat} (hhigh : n ≤ high) (hn : n < 100) :
    twoDigits high (two n) = some n :=
  (if_pos (le_refl 2)).trans (number_two hn (Nat.zero_le n) hhigh)

theorem not_mem_of_isDigit {t : List Char} (ht : ∀ c ∈ t, c.isDigit = true) {sep : Char}
    (hsep : sep.isDigit = false) : sep ∉ t := fun h => by
  rw [ht sep h] at hsep
  cases hsep

/-- A day of two digits is not one after a blank. -/
theorem day_two (n : Nat) : (match two n with | [' ', c] => [c] | _ => two n) = two n := by
  have hdigit := isDigit_digitChar (n / 10 % 10) (Nat.mod_lt _ (by decide))
  unfold two
  split
  · rename_i heq
    rw [(List.cons.inj heq).1] at hdigit
    cases hdigit
  · rfl

/-- **A printed date** is read back. -/
theorem readDate_dateText {d : Date} (hlow : -719162 ≤ d) (hhigh : d ≤ 2932896) {sep : Char}
    (hsep : sep.isDigit = false) : readDate sep (dateText sep d) = some d := by
  obtain ⟨⟨hy, hm, hk⟩, hdate⟩ := dateOf_ofDate hlow
  have hyear := year_le hhigh
  have hdays := daysInMonth_le (ofDate d).1 (ofDate d).2.1
  unfold readDate dateText
  rw [List.splitOn_append_cons_self, List.splitOn_append_cons_self,
    List.splitOn_eq_singleton (not_mem_of_isDigit isDigit_four hsep),
    List.splitOn_eq_singleton (not_mem_of_isDigit isDigit_two hsep),
    List.splitOn_eq_singleton (not_mem_of_isDigit isDigit_two hsep)]
  simp only [List.singleton_append, day_two]
  have hfour : (four (ofDate d).1).length = 4 := rfl
  have htwo : ∀ n, (two n).length ≤ 2 := fun _ => le_refl 2
  rw [if_pos hfour, number_four (by omega) hy hyear]
  simp only [Option.bind_eq_bind, Option.bind_some, if_pos (htwo _)]
  rw [number_two (by omega) hm.1 hm.2]
  simp only [Option.bind_some]
  rw [number_two (by omega) hk.1 hk.2]
  simp only [Option.bind_some, hdate]
  rfl

/-- A printed date ends in a digit. -/
theorem dateText_eq_concat (sep : Char) (d : Date) :
    ∃ t c, dateText sep d = t ++ [c] ∧ c.isDigit = true :=
  ⟨four (ofDate d).1 ++ sep :: (two (ofDate d).2.1
      ++ sep :: [Nat.digitChar ((ofDate d).2.2 / 10 % 10)]),
    Nat.digitChar ((ofDate d).2.2 % 10), by simp [dateText, two],
    isDigit_digitChar _ (Nat.mod_lt _ (by decide))⟩

/-- A digit is no blank. -/
theorem isSpace_of_isDigit {c : Char} (hc : c.isDigit = true) : isSpace c = false := by
  simp only [Char.isDigit, Bool.and_eq_true, decide_eq_true_eq, ge_iff_le] at hc
  have hlow : 48 ≤ c.toNat := hc.1
  have hhigh : c.toNat ≤ 57 := hc.2
  simp only [isSpace, Bool.or_eq_false_iff, Bool.and_eq_false_iff, decide_eq_false_iff_not]
  omega

/-- Text that starts and ends with digits stays as it is. -/
theorem strip_eq {t : List Char} (hhead : ∀ c ∈ t.head?, c.isDigit = true)
    (hlast : ∀ c ∈ t.getLast?, c.isDigit = true) : strip t = t := by
  have hdrop : t.dropWhile isSpace = t := by
    cases t with
    | nil => rfl
    | cons c t =>
        have hc := isSpace_of_isDigit (hhead c rfl)
        exact List.dropWhile_cons_of_neg (by rw [hc]; decide)
  unfold strip
  rw [hdrop, ← List.rdropWhile, List.rdropWhile_eq_self_iff]
  intro hne
  rw [isSpace_of_isDigit (hlast _ (List.getLast_mem_getLast? hne))]
  decide

/-- The text around its last blank. -/
theorem lastBlank {u : List Char} (hu : ∀ c ∈ u, (!isSpace c) = true) (t : List Char) :
    (t ++ ' ' :: u).rtakeWhile (fun c => !isSpace c) = u
      ∧ (t ++ ' ' :: u).rdropWhile (fun c => !isSpace c) = t ++ [' '] := by
  have hreverse : (t ++ ' ' :: u).reverse = u.reverse ++ ' ' :: t.reverse := by simp
  have hpos : ∀ c ∈ u.reverse, (!isSpace c) = true := fun c hc => hu c (List.mem_reverse.mp hc)
  have hneg : ¬ (fun c => !isSpace c) ' ' = true := by decide
  constructor
  · rw [List.rtakeWhile, hreverse, List.takeWhile_append_of_pos hpos,
      List.takeWhile_cons_of_neg (p := fun c => !isSpace c) hneg, List.append_nil,
      List.reverse_reverse]
  · rw [List.rdropWhile, hreverse, List.dropWhile_append_of_pos hpos,
      List.dropWhile_cons_of_neg (p := fun c => !isSpace c) hneg, List.reverse_cons,
      List.reverse_reverse]

/-- The time of day of a printed minute. -/
def timeText (m : Nat) : List Char := two (m / 60) ++ ':' :: two (m % 60)

theorem not_isSpace_timeText (m : Nat) : ∀ c ∈ timeText m, (!isSpace c) = true := by
  have hdigits : ∀ n, ∀ c ∈ two n, (!isSpace c) = true := by
    intro n c hc
    rw [isSpace_of_isDigit (isDigit_two c hc)]
    rfl
  exact List.forall_mem_append.mpr ⟨hdigits _, List.forall_mem_cons.mpr ⟨by decide, hdigits _⟩⟩

theorem splitOn_timeText (m : Nat) : (timeText m).splitOn ':' = [two (m / 60), two (m % 60)] := by
  have hcolon : ∀ n, ':' ∉ two n := fun n => not_mem_of_isDigit isDigit_two (by decide)
  rw [timeText, List.splitOn_append_cons_self, List.splitOn_eq_singleton (hcolon _),
    List.splitOn_eq_singleton (hcolon _), List.singleton_append]

theorem readMinutes_timeText {m : Nat} (hm : m < 1440) :
    readMinutes (timeText m) = some ((m * 60000 : Nat) : Int) := by
  unfold readMinutes
  rw [splitOn_timeText]
  simp only [twoDigits_two (show m / 60 ≤ 23 by omega) (by omega),
    twoDigits_two (show m % 60 ≤ 59 by omega) (by omega), Option.bind_eq_bind, Option.bind_some,
    Nat.div_add_mod']

/-- **A printed minute** is read by the second format, after the first has failed. -/
theorem findSome_printed {d : Date} (hlow : -719162 ≤ d) (hhigh : d ≤ 2932896) {m : Nat}
    (hm : m < 1440) :
    instantFormats.findSome? (fun f => f (dateText '-' d ++ ' ' :: timeText m))
      = some (d * msPerDay + (m * 60000 : Nat)) := by
  obtain ⟨htake, hdrop⟩ := lastBlank (not_isSpace_timeText m) (dateText '-' d)
  obtain ⟨t, c, hdate, hc⟩ := dateText_eq_concat '-' d
  have hstrip : (dateText '-' d ++ [' ']).rdropWhile isSpace = dateText '-' d := by
    rw [List.rdropWhile_concat_pos _ _ _ (by decide), hdate,
      List.rdropWhile_concat_neg _ _ _ (by rw [isSpace_of_isDigit hc]; decide)]
  have hfirst : readInstant '-' readSeconds (dateText '-' d ++ ' ' :: timeText m) = none := by
    unfold readInstant readSeconds
    rw [htake, splitOn_timeText]
    rfl
  have hsecond : readInstant '-' readMinutes (dateText '-' d ++ ' ' :: timeText m)
      = some (d * msPerDay + (m * 60000 : Nat)) := by
    unfold readInstant
    rw [htake, hdrop, hstrip, readMinutes_timeText hm, readDate_dateText hlow hhigh (by decide)]
    rfl
  rw [instantFormats, List.findSome?_cons, hfirst, List.findSome?_cons, hsecond]

/-- The time of day of an instant is that of its date and minute. -/
theorem minute_eq (ms : Int) : ms / msPerDay * msPerDay
    + (((ms % msPerDay / 60000).toNat * 60000 : Nat) : Int) = ms - ms % 60000 := by
  unfold msPerDay
  push_cast
  omega

theorem utcDate_bounds {ms : Int} {d : Date} (h : utcDate ms = .ok d) :
    -719162 ≤ d ∧ d ≤ 2932896 := by
  rw [utcDate_eq_ok h]
  unfold utcDate at h
  split at h
  · rename_i hms
    unfold msPerDay
    constructor
    · show (-719162 : Int) ≤ ms / 86400000
      omega
    · show (2932896 : Int) ≥ ms / 86400000
      omega
  · cases h

theorem normalized_eq {t : List Char} (ht : ∀ c ∈ t, c ≠ 'Z' ∧ c ≠ 'T') : normalized t = t := by
  unfold normalized
  rw [List.filter_eq_self.mpr (fun c hc => decide_eq_true (ht c hc).1)]
  exact (List.map_congr_left (fun c hc => if_neg (ht c hc).2)).trans (List.map_id t)

/-- A printed minute has no letters. -/
theorem no_letters {d : Date} {m : Nat} :
    ∀ c ∈ dateText '-' d ++ ' ' :: timeText m, c ≠ 'Z' ∧ c ≠ 'T' := by
  have hdigit : ∀ c : Char, c.isDigit = true → c ≠ 'Z' ∧ c ≠ 'T' := by
    intro c hc
    constructor
    · rintro rfl
      cases hc
    · rintro rfl
      cases hc
  have htwo : ∀ n, ∀ c ∈ two n, c ≠ 'Z' ∧ c ≠ 'T' := fun n c hc => hdigit c (isDigit_two c hc)
  simp only [dateText, timeText, four, List.forall_mem_append, List.forall_mem_cons]
  exact ⟨⟨⟨htwo _, htwo _⟩, by decide, htwo _, by decide, htwo _⟩, by decide, htwo _, by decide,
    htwo _⟩

/-- **The minute of the page**, given back as an instant, is the instant's own minute. -/
theorem parseInstant_isoMin {ms : Int} {s : String} (h : isoMin ms = .ok s) :
    parseInstant s = .ok (ms - ms % 60000) := by
  obtain ⟨d, hd, hs⟩ := bind_eq_ok.mp h
  have hs := (Except.ok.inj hs).symm
  obtain ⟨hlow, hhigh⟩ := utcDate_bounds hd
  have hm : (ms % msPerDay / 60000).toNat < 1440 := by
    unfold msPerDay
    omega
  have hlist : s.toList = dateText '-' d ++ ' ' :: timeText (ms % msPerDay / 60000).toNat := by
    rw [hs, String.toList_ofList]
    rfl
  have hstrip : strip s.toList = s.toList := by
    rw [hlist]
    refine strip_eq (fun c hc => ?_) (fun c hc => ?_)
    · rw [← Option.some_inj.mp hc]
      exact isDigit_digitChar _ (Nat.mod_lt _ (by decide))
    · rw [timeText, two, two, List.getLast?_append] at hc
      rw [← Option.some_inj.mp hc]
      exact isDigit_digitChar _ (Nat.mod_lt _ (by decide))
  have hdigits : ¬ (s.toList ≠ [] ∧ s.toList.all Char.isDigit = true) := by
    rintro ⟨-, hall⟩
    have hspace := List.all_eq_true.mp hall ' ' (by rw [hlist]; simp)
    cases hspace
  have hnorm : normalized s.toList = s.toList := by
    rw [hlist]
    exact normalized_eq no_letters
  unfold parseInstant
  dsimp only
  rw [hstrip, if_neg hdigits, hnorm, hlist, findSome_printed hlow hhigh hm]
  have hdate := utcDate_eq_ok hd
  subst hdate
  exact congrArg Except.ok (minute_eq ms)

/-- An epoch number is taken as milliseconds, or as seconds when it is small. -/
theorem parseInstant_toString {n : Nat} (hn : n < 10 ^ maxDigits) :
    parseInstant (toString n) = .ok (if 10 ^ 11 ≤ n then (n : Int) else n * 1000) := by
  have hlist : (toString n).toList = Nat.toDigits 10 n := Nat.toList_repr
  have hall : ∀ c ∈ Nat.toDigits 10 n, c.isDigit = true := fun c hc =>
    Nat.isDigit_of_mem_toDigits (by decide) (by decide) hc
  have hstrip : strip (Nat.toDigits 10 n) = Nat.toDigits 10 n :=
    strip_eq (fun c hc => hall c (List.mem_of_mem_head? hc))
      (fun c hc => hall c (List.mem_of_mem_getLast? hc))
  unfold parseInstant
  rw [hlist, hstrip]
  dsimp only
  have hlength : (Nat.toDigits 10 n).length ≤ maxDigits :=
    Nat.toDigits_length 10 n maxDigits (by decide) hn
  rw [if_pos ⟨Nat.toDigits_ne_nil, List.all_eq_true.mpr hall⟩, if_neg (not_lt.mpr hlength),
    Nat.ofDigitChars_ten_toDigits]

/-- **A printed date**, given back to the command line, is the date. -/
theorem coerceDate_isoDate {d : Date} (hlow : -719162 ≤ d) (hhigh : d ≤ 2932896) :
    coerceDate (isoDate d) = .ok d := by
  have hstrip : strip (dateText '-' d) = dateText '-' d := by
    obtain ⟨t, c, hdate, hc⟩ := dateText_eq_concat '-' d
    refine strip_eq (fun e he => ?_) (fun e he => ?_)
    · rw [← Option.some_inj.mp he]
      exact isDigit_digitChar _ (Nat.mod_lt _ (by decide))
    · rw [hdate, List.getLast?_concat] at he
      rwa [← Option.some_inj.mp he]
  have hdots : (dateText '-' d).map (fun c => if c = '-' then '.' else c) = dateText '.' d := by
    have hdigits : ∀ {l : List Char}, (∀ c ∈ l, c.isDigit = true) →
        l.map (fun c => if c = '-' then '.' else c) = l := by
      intro l hl
      refine (List.map_congr_left (fun c hc => if_neg ?_)).trans (List.map_id l)
      rintro rfl
      cases hl _ hc
    simp only [dateText, List.map_append, List.map_cons, if_true, hdigits isDigit_four,
      hdigits isDigit_two]
  unfold coerceDate isoDate
  rw [String.toList_ofList, hstrip, hdots, readDate_dateText hlow hhigh (by decide)]

/-- The directory of a partition is read as its date. -/
theorem ymd_partitionName {d : Date} (hlow : -719162 ≤ d) (hhigh : d ≤ 2932896) :
    ymd (partitionName d) = some d := by
  rw [ymd_eq, partitionName, String.toList_ofList, readDate_dateText hlow hhigh (by decide)]

/-- **What is printed is read back**: the directory names of partitions, the dates of a page, and
its minute; and a range between two printed dates has the days from one to the other. -/
structure ReadBack : Prop where
  partition : ∀ d, -719162 ≤ d → d ≤ 2932896 → ymd (partitionName d) = some d
  date : ∀ d, -719162 ≤ d → d ≤ 2932896 → coerceDate (isoDate d) = .ok d
  range : ∀ a b, -719162 ≤ a → a ≤ b → b ≤ 2932896 →
    ∃ days, dateRange (isoDate a) (isoDate b) = .ok days ∧ days.Pairwise (· < ·)
      ∧ ∀ d, d ∈ days ↔ a ≤ d ∧ d ≤ b
  minute : ∀ ms s, isoMin ms = .ok s → parseInstant s = .ok (ms - ms % 60000)
  epoch : ∀ n : Nat, n < 10 ^ maxDigits → parseInstant (toString n)
    = .ok (if 10 ^ 11 ≤ n then (n : Int) else n * 1000)

/-- A number of days from one on. -/
theorem mem_dayRange {first d : Int} {k : Nat} :
    d ∈ (List.range k).map (fun n : Nat => first + n) ↔ first ≤ d ∧ d < first + k := by
  rw [List.mem_map]
  constructor
  · rintro ⟨n, hn, rfl⟩
    have hn := List.mem_range.mp hn
    omega
  · rintro ⟨hle, hlt⟩
    refine ⟨(d - first).toNat, List.mem_range.mpr ?_, ?_⟩
    · omega
    · omega

theorem dayRange_pairwise (first : Int) (k : Nat) :
    ((List.range k).map (fun n : Nat => first + n)).Pairwise (· < ·) := by
  rw [List.pairwise_map]
  exact List.pairwise_lt_range.imp (fun hlt => Int.add_lt_add_left (Int.ofNat_lt.mpr hlt) _)

theorem mem_dateRange {a b d : Int} (hle : a ≤ b) :
    d ∈ (List.range ((b - a).toNat + 1)).map (fun n : Nat => a + n) ↔ a ≤ d ∧ d ≤ b := by
  rw [mem_dayRange]
  omega

theorem dateRange_isoDate {a b : Date} (hlow : -719162 ≤ a) (hle : a ≤ b) (hhigh : b ≤ 2932896) :
    ∃ days, dateRange (isoDate a) (isoDate b) = .ok days ∧ days.Pairwise (· < ·)
      ∧ ∀ d, d ∈ days ↔ a ≤ d ∧ d ≤ b := by
  have ha := coerceDate_isoDate hlow (hle.trans hhigh)
  have hb := coerceDate_isoDate (hlow.trans hle) hhigh
  refine ⟨_, ?_, dayRange_pairwise a _, fun d => mem_dateRange hle⟩
  exact bind_eq_ok.mpr ⟨a, ha, bind_eq_ok.mpr ⟨b, hb, if_neg (not_lt.mpr hle)⟩⟩

theorem printed_read_back : ReadBack where
  partition _ hlow hhigh := ymd_partitionName hlow hhigh
  date _ hlow hhigh := coerceDate_isoDate hlow hhigh
  range _ _ hlow hle hhigh := dateRange_isoDate hlow hle hhigh
  minute _ _ h := parseInstant_isoMin h
  epoch _ h := parseInstant_toString h

end NanoTick
