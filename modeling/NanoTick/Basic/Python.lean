import Mathlib.Data.Rat.Lemmas
import Mathlib.Data.Sum.Order
import Mathlib.Data.String.Basic
import Mathlib.Tactic

set_option autoImplicit false

/-! # Python values and exceptions

What the modelled Python code shares: the exceptions it raises, the numbers `json.loads` can
return, and JSON values with the subscript, the conversions and the comparisons the code applies
to them.
-/

namespace Python

/-- The exceptions the modelled code raises. `running` is not one: it marks a loop whose step
bound was reached while it still had work. -/
inductive PyErr where
  | indexError
  | keyError
  | valueError
  | typeError
  | runtimeError
  | osError
  | jsonDecodeError
  | unicodeDecodeError
  | overflowError
  | attributeError
  | csvError
  | webSocketException
  | running
  deriving DecidableEq, Repr

/-- A Python number: an exact one, or a float that is not a number of the line. -/
inductive PyNum where
  | rat (q : ℚ)
  | posInf
  | negInf
  | nan
  deriving DecidableEq, Repr

/-- `k <= n` for an integer `k`: exact, and false for `nan`. -/
def PyNum.ge (n : PyNum) (k : Int) : Bool :=
  match n with
  | .rat q => decide ((k : ℚ) ≤ q)
  | .posInf => true
  | .negInf => false
  | .nan => false

/-- `m <= n`: false as soon as one of them is `nan`. -/
def PyNum.le (m n : PyNum) : Bool :=
  match m, n with
  | .nan, _ => false
  | _, .nan => false
  | .rat q, .rat r => decide (q ≤ r)
  | .negInf, _ => true
  | _, .posInf => true
  | _, _ => false

/-- Only `nan` is not at most itself. -/
theorem PyNum.le_self_eq_false {n : PyNum} : n.le n = false ↔ n = .nan := by
  cases n with
  | rat q => simp [PyNum.le]
  | posInf => simp [PyNum.le]
  | negInf => simp [PyNum.le]
  | nan => simp [PyNum.le]

/-- How many of the positive integers are at most `n`; `none` when all are. -/
def PyNum.count (n : PyNum) : Option Nat :=
  match n with
  | .rat q => some ⌊q⌋.toNat
  | .posInf => none
  | .negInf => some 0
  | .nan => some 0

theorem PyNum.ge_of_count {n : PyNum} {m k : Nat} (h : n.count = some m)
    (hge : n.ge k = true) : k ≤ m := by
  cases n with
  | rat q =>
      cases h
      have hq : ((k : Int) : ℚ) ≤ q := of_decide_eq_true hge
      have hfloor : (k : Int) ≤ ⌊q⌋ := Int.le_floor.mpr hq
      omega
  | posInf => cases h
  | negInf => cases hge
  | nan => cases hge

/-- The most digits that `int` reads and `str` writes (`sys.int_info`). -/
def maxDigits : Nat := 4300

/-- An integer that `str` writes and `int` reads. -/
def Convertible (n : Int) : Prop := n.natAbs < 10 ^ maxDigits

theorem convertible_of_lt {n : Int} (h : n.natAbs < 10 ^ 20) : Convertible n :=
  lt_of_lt_of_le h (Nat.pow_le_pow_right (by decide) (by decide))

/-- A value `json.loads` returns. -/
inductive Json where
  | null
  | bool (b : Bool)
  | num (n : PyNum)
  | str (s : String)
  | arr (l : List Json)
  | obj (m : List (String × Json))

/-- `j[key]` for a string key: of a repeated key the last entry counts. -/
def Json.index (j : Json) (key : String) : Except PyErr Json :=
  match j with
  | .obj m =>
      match (m.filter (fun e => decide (e.1 = key))).getLast? with
      | some e => .ok e.2
      | none => .error .keyError
  | _ => .error .typeError

/-- A subscript raises a `KeyError` or a `TypeError`. -/
theorem Json.index_eq_error {j : Json} {key : String} {e : PyErr} (h : j.index key = .error e) :
    e = .keyError ∨ e = .typeError := by
  cases j with
  | obj m =>
      simp only [Json.index] at h
      split at h
      · cases h
      · exact Or.inl (Except.error.inj h).symm
  | null => exact Or.inr (Except.error.inj h).symm
  | bool b => exact Or.inr (Except.error.inj h).symm
  | num n => exact Or.inr (Except.error.inj h).symm
  | str t => exact Or.inr (Except.error.inj h).symm
  | arr l => exact Or.inr (Except.error.inj h).symm

/-- The value as a number in a comparison; booleans are the integers 0 and 1. -/
def Json.asNum (j : Json) : Option PyNum :=
  match j with
  | .bool b => some (.rat (if b then 1 else 0))
  | .num n => some n
  | _ => none

/-- `k <= j` for an integer `k`: an error unless `j` is a number. -/
def Json.ge (j : Json) (k : Int) : Except PyErr Bool :=
  match j.asNum with
  | some n => .ok (n.ge k)
  | none => .error .typeError

/-! ## Conversions -/

/-- A float nearest to an integer, ties to even; none beyond the range of floats. -/
def floatOfInt (n : Int) : Except PyErr PyNum :=
  let e := n.natAbs.log2 - 52
  let m := n.natAbs / 2 ^ e
  let twice := 2 * (n.natAbs % 2 ^ e)
  let m := if 2 ^ e < twice ∨ twice = 2 ^ e ∧ m % 2 = 1 then m + 1 else m
  if 2 ^ 1024 ≤ m * 2 ^ e then .error .overflowError else .ok (.rat (n.sign * (m * 2 ^ e : Nat)))

/-- An integer of at most 53 bits is a float. -/
theorem floatOfInt_of_lt {n : Int} (h : n.natAbs < 2 ^ 53) : floatOfInt n = .ok (.rat n) := by
  have hlog : n.natAbs.log2 - 52 = 0 := by
    by_cases h0 : n.natAbs = 0
    · rw [h0]
      rfl
    · have hlt := (Nat.log2_lt h0).mpr h
      omega
  have hrange : ¬2 ^ 1024 ≤ n.natAbs := fun hle =>
    Nat.not_le.mpr h (le_trans (Nat.pow_le_pow_right Nat.two_pos (by decide)) hle)
  -- the last bit kept is the last bit there is, so nothing is rounded
  have hround : ¬(1 < 2 * (n.natAbs % 1) ∨ 2 * (n.natAbs % 1) = 1 ∧ n.natAbs / 1 % 2 = 1) := by
    omega
  have hsign : (n.sign : ℚ) * (n.natAbs : ℚ) = n := by
    rw [← Int.cast_natCast, ← Int.cast_mul, Int.sign_mul_natAbs]
  unfold floatOfInt
  dsimp only
  rw [hlog, pow_zero, if_neg hround, Nat.div_one, mul_one, if_neg hrange, hsign]

example : floatOfInt (2 ^ 53 + 3) = .ok (.rat (2 ^ 53 + 4)) := by decide +kernel

/-- `int(j)`, given what `int` makes of a string; a float is cut toward zero. -/
def Json.toInt (intOfStr : String → Option Int) (j : Json) : Except PyErr Int :=
  match j with
  | .bool b => .ok (if b then 1 else 0)
  | .num (.rat q) => .ok (q.num.tdiv q.den)
  | .num .posInf => .error .overflowError
  | .num .negInf => .error .overflowError
  | .num .nan => .error .valueError
  | .str s =>
      match intOfStr s with
      | some n => .ok n
      | none => .error .valueError
  | _ => .error .typeError

/-- `float(j)`, given what `float` makes of a string. Only an integer can be no float already. -/
def Json.toFloat (floatOfStr : String → Option PyNum) (j : Json) : Except PyErr PyNum :=
  match j with
  | .bool b => .ok (.rat (if b then 1 else 0))
  | .num (.rat q) => if q.den = 1 then floatOfInt q.num else .ok (.rat q)
  | .num n => .ok n
  | .str s =>
      match floatOfStr s with
      | some n => .ok n
      | none => .error .valueError
  | _ => .error .typeError

/-- `bool(j)`. -/
def Json.truthy (j : Json) : Bool :=
  match j with
  | .null => false
  | .bool b => b
  | .num n => decide (n ≠ .rat 0)
  | .str s => decide (s ≠ "")
  | .arr l => !l.isEmpty
  | .obj m => !m.isEmpty

/-! ## Keys of a dictionary -/

/-- A JSON value as a dictionary key: equal numbers are one key, booleans among them. -/
inductive HashKey where
  | none
  | num (n : PyNum)
  | str (s : String)
  deriving DecidableEq, Repr

/-- The key a value is in a dictionary; lists and dictionaries are not hashable. -/
def Json.hashKey (j : Json) : Except PyErr HashKey :=
  match j with
  | .null => .ok .none
  | .bool b => .ok (.num (.rat (if b then 1 else 0)))
  | .num n => .ok (.num n)
  | .str s => .ok (.str s)
  | .arr _ => .error .typeError
  | .obj _ => .error .typeError

/-! ## Comparable values -/

/-- A value with an order of its own kind: a number of the line, or a string. -/
inductive SortKey where
  | num (q : ℚ)
  | str (s : String)
  deriving DecidableEq, Repr

namespace SortKey

/-- Numbers before strings, each kind in its own order. Only the latter is Python's. -/
def toSum : SortKey → Lex (ℚ ⊕ String)
  | .num q => Sum.inlₗ q
  | .str s => Sum.inrₗ s

theorem toSum_injective : Function.Injective toSum := by
  intro a b h
  cases a with
  | num q =>
      cases b with
      | num r => exact congrArg num (Sum.inl_injective h)
      | str t => cases h
  | str s =>
      cases b with
      | num r => cases h
      | str t => exact congrArg str (Sum.inr_injective h)

instance : LinearOrder SortKey := LinearOrder.lift' toSum toSum_injective

/-- Two values of one kind. -/
def alike : SortKey → SortKey → Bool
  | .num _, .num _ => true
  | .str _, .str _ => true
  | _, _ => false

/-- `a > b`: an error for values of different kinds. -/
def gt : SortKey → SortKey → Except PyErr Bool
  | .num q, .num r => .ok (decide (r < q))
  | .str s, .str t => .ok (decide (t < s))
  | _, _ => .error .typeError

@[simp] theorem num_lt_num {q r : ℚ} : num q < num r ↔ q < r := Sum.Lex.inl_lt_inl_iff

@[simp] theorem str_lt_str {s t : String} : str s < str t ↔ s < t := Sum.Lex.inr_lt_inr_iff

theorem gt_of_alike {a b : SortKey} (h : alike a b = true) : gt a b = .ok (decide (b < a)) := by
  cases a with
  | num q =>
      cases b with
      | num r => simp only [gt, num_lt_num]
      | str t => cases h
  | str s =>
      cases b with
      | num r => cases h
      | str t => simp only [gt, str_lt_str]

theorem gt_of_not_alike {a b : SortKey} (h : alike a b = false) : gt a b = .error .typeError := by
  cases a with
  | num q =>
      cases b with
      | num r => cases h
      | str t => rfl
  | str s =>
      cases b with
      | num r => rfl
      | str t => cases h

@[simp] theorem alike_self (a : SortKey) : alike a a = true := by cases a <;> rfl

theorem alike_comm (a b : SortKey) : alike a b = alike b a := by cases a <;> cases b <;> rfl

instance : Std.Symm (fun a b : SortKey => alike a b = true) :=
  ⟨fun a b h => (alike_comm b a).trans h⟩

theorem alike_trans {a b c : SortKey} (h : alike a b = true) : alike a c = alike b c := by
  cases a with
  | num q =>
      cases b with
      | num r => cases c <;> rfl
      | str t => cases h
  | str s =>
      cases b with
      | num r => cases h
      | str t => cases c <;> rfl

end SortKey

/-- A value as `int` accepts it and `<` orders it: `nan` and the infinities are none. -/
def Json.sortKey (j : Json) : Option SortKey :=
  match j with
  | .bool b => some (.num (if b then 1 else 0))
  | .num (.rat q) => some (.num q)
  | .str s => some (.str s)
  | _ => none

/-- What `int` accepts has an order of its kind. -/
theorem Json.sortKey_of_toInt {intOfStr : String → Option Int} {j : Json} {n : Int}
    (h : j.toInt intOfStr = .ok n) : j.sortKey.isSome = true := by
  cases j with
  | null => cases h
  | bool b => rfl
  | num m =>
      cases m with
      | rat q => rfl
      | posInf => cases h
      | negInf => cases h
      | nan => cases h
  | str s => rfl
  | arr l => cases h
  | obj m => cases h

end Python
