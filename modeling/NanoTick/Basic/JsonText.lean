import NanoTick.Basic.Python
import Mathlib.Data.List.DropRight
import Mathlib.Tactic

set_option autoImplicit false

/-! # JSON as text

The writer `text` is `json.dumps`, the reader `loads` is `json.loads`. A `Style` says how the
writer escapes and separates: only ASCII or any characters, with or without spaces after the
separators, and whether a slash after `<` is escaped too. The reader takes every style
(`loads_text`). Text of the ASCII style has printable characters only, so no line break
(`printable_text`).

How a number is written and read is a parameter, `Numerals`, with what the theorems need of it as
`Numerals.Reads`. Strings hold no lone surrogates here.
-/

namespace JsonText

open Python

/-! ## Characters -/

/-- How values are written. -/
structure Style where
  ascii : Bool
  spaced : Bool
  closed : Bool
  deriving DecidableEq, Repr

def hexDigit (n : Nat) : Char := "0123456789abcdef".toList.getD n '0'

def hexValue (c : Char) : Option Nat :=
  if '0' ≤ c ∧ c ≤ '9' then some (c.toNat - 48)
  else if 'a' ≤ c ∧ c ≤ 'f' then some (c.toNat - 87)
  else if 'A' ≤ c ∧ c ≤ 'F' then some (c.toNat - 55)
  else none

/-- `\uXXXX`. -/
def unicode (n : Nat) : List Char :=
  ['\\', 'u', hexDigit (n / 4096 % 16), hexDigit (n / 256 % 16), hexDigit (n / 16 % 16),
    hexDigit (n % 16)]

/-- A character beyond the basic plane is written as a pair of surrogates. -/
def unicodeEscape (c : Char) : List Char :=
  if c.toNat < 0x10000 then unicode c.toNat
  else unicode (0xd800 + (c.toNat - 0x10000) / 0x400) ++
    unicode (0xdc00 + (c.toNat - 0x10000) % 0x400)

/-- A character inside a string. -/
def escapeChar (ascii : Bool) (c : Char) : List Char :=
  if c = '"' then ['\\', '"']
  else if c = '\\' then ['\\', '\\']
  else if c = '\n' then ['\\', 'n']
  else if c = '\r' then ['\\', 'r']
  else if c = '\t' then ['\\', 't']
  else if c = Char.ofNat 8 then ['\\', 'b']
  else if c = Char.ofNat 12 then ['\\', 'f']
  else if c.toNat < 0x20 ∨ (ascii = true ∧ 0x7e < c.toNat) then unicodeEscape c
  else [c]

/-- The character a letter after a backslash stands for. -/
def unescaped (c : Char) : Option Char :=
  if c = '"' then some '"'
  else if c = '\\' then some '\\'
  else if c = '/' then some '/'
  else if c = 'n' then some '\n'
  else if c = 'r' then some '\r'
  else if c = 't' then some '\t'
  else if c = 'b' then some (Char.ofNat 8)
  else if c = 'f' then some (Char.ofNat 12)
  else none

/-- Four hexadecimal digits. -/
def readHex : List Char → Option (Nat × List Char)
  | a :: b :: c :: d :: t => do
      let a ← hexValue a
      let b ← hexValue b
      let c ← hexValue c
      let d ← hexValue d
      some (a * 4096 + b * 256 + c * 16 + d, t)
  | _ => none

/-- The second surrogate of a pair. -/
def readLow (high : Nat) : List Char → Option (Char × List Char)
  | b :: u :: t =>
      if b = '\\' ∧ u = 'u' then do
        let (low, t) ← readHex t
        if 0xdc00 ≤ low ∧ low < 0xe000 then
          some (Char.ofNat (0x10000 + (high - 0xd800) * 0x400 + (low - 0xdc00)), t)
        else none
      else none
  | _ => none

/-- What follows `\u`. -/
def readUnicode (t : List Char) : Option (Char × List Char) := do
  let (n, t) ← readHex t
  if 0xd800 ≤ n ∧ n < 0xdc00 then readLow n t
  else if 0xdc00 ≤ n ∧ n < 0xe000 then none
  else some (Char.ofNat n, t)

/-- One character of a string, escaped or not. -/
def readChar : List Char → Option (Char × List Char)
  | [] => none
  | c :: t =>
      if c = '\\' then
        match t with
        | [] => none
        | e :: t => if e = 'u' then readUnicode t else (unescaped e).map (fun c => (c, t))
      else if c = '"' ∨ c.toNat < 0x20 then none
      else some (c, t)

/-! ### Characters read back -/

theorem hexValue_hexDigit : ∀ n < 16, hexValue (hexDigit n) = some n := by decide

theorem readHex_digits {n : Nat} (hn : n < 65536) (t : List Char) :
    readHex (hexDigit (n / 4096 % 16) :: hexDigit (n / 256 % 16) :: hexDigit (n / 16 % 16)
      :: hexDigit (n % 16) :: t) = some (n, t) := by
  have hvalue : n / 4096 % 16 * 4096 + n / 256 % 16 * 256 + n / 16 % 16 * 16 + n % 16 = n := by
    omega
  simp only [readHex, hexValue_hexDigit _ (Nat.mod_lt _ (by decide : 0 < 16)),
    Option.bind_eq_bind, Option.bind_some, hvalue]

/-- Characters have no surrogates among their numbers. -/
theorem toNat_valid (c : Char) : c.toNat < 0xd800 ∨ (0xe000 ≤ c.toNat ∧ c.toNat < 0x110000) := by
  rcases c.valid with h | ⟨h₁, h₂⟩
  · exact Or.inl h
  · exact Or.inr ⟨by change 0xdfff < c.toNat at h₁; omega, h₂⟩

/-- A pair of surrogates gives back the number it was made of. -/
theorem readChar_pair {c : Char} {high low : Nat} (hhigh : 0xd800 ≤ high ∧ high < 0xdc00)
    (hlow : 0xdc00 ≤ low ∧ low < 0xe000)
    (hc : 0x10000 + (high - 0xd800) * 0x400 + (low - 0xdc00) = c.toNat) (t : List Char) :
    readChar (unicode high ++ unicode low ++ t) = some (c, t) := by
  have hread := readHex_digits (show high < 65536 by omega)
  have hread' := readHex_digits (show low < 65536 by omega)
  simp only [unicode, List.cons_append, List.nil_append, readChar, if_true, readUnicode]
  rw [hread]
  simp only [Option.bind_eq_bind, Option.bind_some]
  rw [if_pos hhigh]
  simp only [readLow, and_self, if_true]
  rw [hread']
  simp only [Option.bind_eq_bind, Option.bind_some]
  rw [if_pos hlow, hc, Char.ofNat_toNat]

theorem readChar_unicodeEscape (c : Char) (t : List Char) :
    readChar (unicodeEscape c ++ t) = some (c, t) := by
  have hvalid := toNat_valid c
  unfold unicodeEscape
  by_cases hbasic : c.toNat < 0x10000
  · rw [if_pos hbasic]
    simp only [unicode, List.cons_append, List.nil_append, readChar, if_true, readUnicode]
    rw [readHex_digits hbasic]
    simp only [Option.bind_eq_bind, Option.bind_some]
    rw [if_neg (by omega), if_neg (by omega), Char.ofNat_toNat]
  · rw [if_neg hbasic]
    exact readChar_pair (by omega) (by omega) (by omega) t

/-- **One character** is read back as it was, however it was written. -/
theorem readChar_escapeChar (ascii : Bool) (c : Char) (t : List Char) :
    readChar (escapeChar ascii c ++ t) = some (c, t) := by
  unfold escapeChar
  by_cases hquote : c = '"'
  · subst hquote
    rfl
  by_cases hback : c = '\\'
  · subst hback
    rfl
  by_cases hn : c = '\n'
  · subst hn
    rfl
  by_cases hr : c = '\r'
  · subst hr
    rfl
  by_cases ht : c = '\t'
  · subst ht
    rfl
  by_cases hb : c = Char.ofNat 8
  · subst hb
    rfl
  by_cases hf : c = Char.ofNat 12
  · subst hf
    rfl
  rw [if_neg hquote, if_neg hback, if_neg hn, if_neg hr, if_neg ht, if_neg hb, if_neg hf]
  by_cases hesc : c.toNat < 0x20 ∨ (ascii = true ∧ 0x7e < c.toNat)
  · rw [if_pos hesc]
    exact readChar_unicodeEscape c t
  · have hplain : ¬ (c = '"' ∨ c.toNat < 0x20) := by
      rintro (h | h)
      · exact hquote h
      · exact hesc (Or.inl h)
    rw [if_neg hesc]
    simp only [List.cons_append, List.nil_append, readChar, if_neg hback, if_neg hplain]

/-! ## Strings -/

/-- The characters of a string; `after` says whether the one before was `<`. -/
def body (S : Style) : Bool → List Char → List Char
  | _, [] => []
  | after, c :: s =>
      (if S.closed && after && decide (c = '/') then ['\\', '/'] else escapeChar S.ascii c)
        ++ body S (decide (c = '<')) s

/-- A string with its quotes. -/
def string (S : Style) (s : String) : List Char := '"' :: (body S false s.toList ++ ['"'])

/-- The characters up to the closing quote, for a number of steps. -/
def readString : Nat → List Char → Option (List Char × List Char)
  | 0, _ => none
  | _ + 1, [] => none
  | fuel + 1, c :: t =>
      if c = '"' then some ([], t)
      else do
        let (c, t) ← readChar (c :: t)
        let (s, t) ← readString fuel t
        some (c :: s, t)

theorem escapeChar_ne_nil (ascii : Bool) (c : Char) : escapeChar ascii c ≠ [] := by
  unfold escapeChar unicodeEscape unicode
  split_ifs <;> simp

/-- What is written for a character does not start with a quote. -/
theorem head_escapeChar (ascii : Bool) (c : Char) :
    ∃ d t, escapeChar ascii c = d :: t ∧ d ≠ '"' := by
  unfold escapeChar unicodeEscape unicode
  by_cases hquote : c = '"'
  · exact ⟨'\\', ['"'], by rw [if_pos hquote], by decide⟩
  · rw [if_neg hquote]
    split_ifs <;> first | exact ⟨_, _, rfl, by decide⟩ | exact ⟨_, _, rfl, hquote⟩

/-- **A string** is read back up to its closing quote. -/
theorem readString_body (S : Style) (s : List Char) (after : Bool) {fuel : Nat}
    (hfuel : s.length + 1 ≤ fuel) (t : List Char) :
    readString fuel (body S after s ++ '"' :: t) = some (s, t) := by
  induction s generalizing after fuel with
  | nil =>
      obtain ⟨fuel, rfl⟩ := Nat.exists_eq_add_of_le' hfuel
      simp [body, readString]
  | cons c s ih =>
      rw [List.length_cons] at hfuel
      obtain ⟨fuel, rfl⟩ : ∃ k, fuel = k + 1 := ⟨fuel - 1, by omega⟩
      have hrest := ih (decide (c = '<')) (show s.length + 1 ≤ fuel by omega)
      rw [body]
      split
      · -- an escaped slash
        rename_i hslash
        simp only [Bool.and_eq_true, decide_eq_true_eq] at hslash
        obtain ⟨-, rfl⟩ := hslash
        simp only [List.cons_append, List.nil_append, readString]
        rw [if_neg (by decide)]
        simp only [readChar, if_true]
        rw [if_neg (by decide)]
        simp [unescaped, ih false (show s.length + 1 ≤ fuel by omega)]
      · obtain ⟨d, u, hd, hquote⟩ := head_escapeChar S.ascii c
        have hread := readChar_escapeChar S.ascii c (body S (decide (c = '<')) s ++ '"' :: t)
        rw [hd] at hread ⊢
        simp only [List.cons_append, List.append_assoc, readString] at hread ⊢
        rw [if_neg hquote, hread]
        simp [hrest]

theorem length_le_body (S : Style) (s : List Char) (after : Bool) :
    s.length ≤ (body S after s).length := by
  induction s generalizing after with
  | nil => exact Nat.zero_le _
  | cons c s ih =>
      have hrest := ih (decide (c = '<'))
      have hc := List.length_pos_iff.mpr (escapeChar_ne_nil S.ascii c)
      rw [body, List.length_append, List.length_cons]
      split
      · simp only [List.length_cons, List.length_nil]
        omega
      · omega

/-! ## Values -/

/-- How numbers are written and read. -/
structure Numerals where
  text : PyNum → List Char
  scan : List Char → Option (PyNum × List Char)

def isSpace (c : Char) : Bool := decide (c = ' ' ∨ c = '\n' ∨ c = '\r' ∨ c = '\t')

/-- Nothing of a number follows: the text ends, or a separator comes. -/
def Ends (t : List Char) : Prop := ∀ c ∈ t.head?, c = ',' ∨ c = ']' ∨ c = '}' ∨ isSpace c = true

/-- Where no other value starts. -/
def startsNumber (c : Char) : Bool :=
  !(isSpace c) && decide (c ∉ ['"', '[', '{', 'n', 't', 'f', ']', '}'])

/-- The number's text is printable, starts as no other value does, and is read back. -/
structure Numerals.Reads (N : Numerals) (n : PyNum) : Prop where
  start : ∃ c t, N.text n = c :: t ∧ startsNumber c = true
  printable : ∀ c ∈ N.text n, 0x20 ≤ c.toNat ∧ c.toNat ≤ 0x7e ∧ c ≠ '<'
  back : ∀ t, Ends t → N.scan (N.text n ++ t) = some (n, t)

/-- A space after a separator, if there is one. -/
def Style.gap (S : Style) : List Char := if S.spaced then [' '] else []

section

variable (N : Numerals) (S : Style)

mutual

/-- `json.dumps`. -/
def text : Json → List Char
  | .null => ['n', 'u', 'l', 'l']
  | .bool b => if b then ['t', 'r', 'u', 'e'] else ['f', 'a', 'l', 's', 'e']
  | .num n => N.text n
  | .str s => string S s
  | .arr l => '[' :: (List.intercalate (',' :: S.gap) (texts l) ++ [']'])
  | .obj m => '{' :: (List.intercalate (',' :: S.gap) (members m) ++ ['}'])
termination_by structural v => v

def texts : List Json → List (List Char)
  | [] => []
  | v :: l => text v :: texts l
termination_by structural v => v

def members : List (String × Json) → List (List Char)
  | [] => []
  | e :: m => member e :: members m
termination_by structural v => v

def member : String × Json → List Char
  | (k, v) => string S k ++ (':' :: S.gap ++ text v)
termination_by structural v => v

end

/-- A word of the language, and what it means. -/
def readWord (w : List Char) (v : Json) (t : List Char) : Option (Json × List Char) :=
  if w.isPrefixOf t then some (v, t.drop w.length) else none

def skip (t : List Char) : List Char := t.dropWhile isSpace

mutual

/-- A value, for a number of steps. -/
def value : Nat → List Char → Option (Json × List Char)
  | 0, _ => none
  | fuel + 1, t =>
      match skip t with
      | [] => none
      | c :: t =>
          if c = '"' then do
            let (s, t) ← readString fuel t
            some (.str (String.ofList s), t)
          else if c = '[' then
            if (skip t).head? = some ']' then some (.arr [], (skip t).tail)
            else do
              let (l, t) ← elements fuel t
              some (.arr l, t)
          else if c = '{' then
            if (skip t).head? = some '}' then some (.obj [], (skip t).tail)
            else do
              let (m, t) ← entries fuel t
              some (.obj m, t)
          else if c = 'n' then readWord ['u', 'l', 'l'] .null t
          else if c = 't' then readWord ['r', 'u', 'e'] (.bool true) t
          else if c = 'f' then readWord ['a', 'l', 's', 'e'] (.bool false) t
          else do
            let (n, t) ← N.scan (c :: t)
            some (.num n, t)

/-- The elements of a list up to its bracket. -/
def elements : Nat → List Char → Option (List Json × List Char)
  | 0, _ => none
  | fuel + 1, t => do
      let (v, t) ← value fuel t
      match skip t with
      | [] => none
      | c :: t =>
          if c = ',' then do
            let (l, t) ← elements fuel t
            some (v :: l, t)
          else if c = ']' then some ([v], t)
          else none

/-- The entries of a dictionary up to its brace. -/
def entries : Nat → List Char → Option (List (String × Json) × List Char)
  | 0, _ => none
  | fuel + 1, t =>
      match skip t with
      | [] => none
      | c :: t =>
          if c ≠ '"' then none
          else do
            let (k, t) ← readString fuel t
            match skip t with
            | [] => none
            | c :: t =>
                if c ≠ ':' then none
                else do
                  let (v, t) ← value fuel t
                  match skip t with
                  | [] => none
                  | c :: t =>
                      if c = ',' then do
                        let (m, t) ← entries fuel t
                        some ((String.ofList k, v) :: m, t)
                      else if c = '}' then some ([(String.ofList k, v)], t)
                      else none

end

/-- `json.loads`: one value and nothing after it. -/
def loads (t : List Char) : Option Json :=
  match value N (t.length + 1) t with
  | some (v, rest) => if skip rest = [] then some v else none
  | none => none

end

/-! ## Values read back -/

/-- To prove of every value: lists and dictionaries from their parts. -/
theorem induction {P : Json → Prop} (null : P .null) (bool : ∀ b, P (.bool b))
    (num : ∀ n, P (.num n)) (str : ∀ s, P (.str s)) (arr : ∀ l, (∀ v ∈ l, P v) → P (.arr l))
    (obj : ∀ m : List (String × Json), (∀ e ∈ m, P e.2) → P (.obj m)) (v : Json) : P v := by
  refine @Json.rec P (fun l => ∀ v ∈ l, P v) (fun m => ∀ e ∈ m, P e.2) (fun e => P e.2)
    null bool num str arr obj ?_ ?_ ?_ ?_ (fun _ _ h => h) v
  · exact fun v hv => absurd hv List.not_mem_nil
  · exact fun v l hv hl => List.forall_mem_cons.mpr ⟨hv, hl⟩
  · exact fun e he => absurd he List.not_mem_nil
  · exact fun e m he hm => List.forall_mem_cons.mpr ⟨he, hm⟩

/-- Every number of a value has a property. -/
def AllNumbers (P : PyNum → Prop) (v : Json) : Prop :=
  @Json.rec (fun _ => Prop) (fun _ => Prop) (fun _ => Prop) (fun _ => Prop) True (fun _ => True) P
    (fun _ => True) (fun _ hl => hl) (fun _ hm => hm) True (fun _ _ hv hl => hv ∧ hl) True
    (fun _ _ he hm => he ∧ hm) (fun _ _ hv => hv) v

theorem allNumbers_arr {P : PyNum → Prop} {l : List Json} :
    AllNumbers P (.arr l) ↔ ∀ v ∈ l, AllNumbers P v := by
  induction l with
  | nil => exact ⟨fun _ v hv => absurd hv List.not_mem_nil, fun _ => trivial⟩
  | cons v l ih =>
      rw [List.forall_mem_cons, ← ih]
      exact Iff.rfl

theorem allNumbers_obj {P : PyNum → Prop} {m : List (String × Json)} :
    AllNumbers P (.obj m) ↔ ∀ e ∈ m, AllNumbers P e.2 := by
  induction m with
  | nil => exact ⟨fun _ e he => absurd he List.not_mem_nil, fun _ => trivial⟩
  | cons e m ih =>
      rw [List.forall_mem_cons, ← ih]
      exact Iff.rfl

section

variable {N : Numerals} {S : Style}

theorem texts_eq (l : List Json) : texts N S l = l.map (text N S) := by
  induction l with
  | nil => rfl
  | cons v l ih => rw [texts, ih, List.map_cons]

theorem members_eq (m : List (String × Json)) : members N S m = m.map (member N S) := by
  induction m with
  | nil => rfl
  | cons e m ih => rw [members, ih, List.map_cons]

/-- What a value's text starts with: no space, and no closing bracket. -/
theorem head_text {v : Json} (hv : AllNumbers N.Reads v) :
    ∃ c t, text N S v = c :: t ∧ isSpace c = false ∧ c ≠ ']' ∧ c ≠ '}' := by
  cases v with
  | null => exact ⟨'n', _, rfl, rfl, by decide, by decide⟩
  | bool b =>
      cases b
      · exact ⟨'f', _, rfl, rfl, by decide, by decide⟩
      · exact ⟨'t', _, rfl, rfl, by decide, by decide⟩
  | num n =>
      have hn : N.Reads n := hv
      obtain ⟨c, t, hc, hstart⟩ := hn.start
      simp only [startsNumber, Bool.and_eq_true, Bool.not_eq_true', decide_eq_true_eq,
        List.mem_cons, not_or] at hstart
      exact ⟨c, t, hc, hstart.1, hstart.2.2.2.2.2.2.2.1, hstart.2.2.2.2.2.2.2.2.1⟩
  | str s => exact ⟨'"', _, rfl, rfl, by decide, by decide⟩
  | arr l => exact ⟨'[', _, rfl, rfl, by decide, by decide⟩
  | obj m => exact ⟨'{', _, rfl, rfl, by decide, by decide⟩

theorem skip_cons {c : Char} {t : List Char} (h : isSpace c = false) : skip (c :: t) = c :: t := by
  simp [skip, h]

theorem skip_gap_append (t : List Char) : skip (S.gap ++ t) = skip t := by
  unfold Style.gap
  split
  · rfl
  · rfl

/-- A value may have spaces before it. -/
theorem value_skip (fuel : Nat) (t : List Char) : value N fuel (skip t) = value N fuel t := by
  have hskip : skip (skip t) = skip t := by
    unfold skip
    exact List.dropWhile_idempotent _ _
  cases fuel with
  | zero => rfl
  | succ fuel => rw [value, value, hskip]

theorem value_gap (fuel : Nat) (t : List Char) : value N fuel (S.gap ++ t) = value N fuel t := by
  rw [← value_skip fuel (S.gap ++ t), skip_gap_append, value_skip]

theorem elements_gap (fuel : Nat) (t : List Char) :
    elements N fuel (S.gap ++ t) = elements N fuel t := by
  cases fuel with
  | zero => rfl
  | succ fuel => rw [elements, elements, value_gap]

theorem entries_gap (fuel : Nat) (t : List Char) :
    entries N fuel (S.gap ++ t) = entries N fuel t := by
  cases fuel with
  | zero => rfl
  | succ fuel => rw [entries, entries, skip_gap_append]

/-- What separates values ends a number. -/
theorem ends_cons {c : Char} (hc : c = ',' ∨ c = ']' ∨ c = '}') (t : List Char) :
    Ends (c :: t) := by
  intro d hd
  cases hd
  tauto

/-- The value is read back before any separator. -/
def ReadBack (N : Numerals) (S : Style) (v : Json) : Prop :=
  ∀ fuel t, (text N S v).length + 1 ≤ fuel → Ends t → value N fuel (text N S v ++ t) = some (v, t)

/-- The elements of a list are read back when each of them is. -/
theorem elements_text {l : List Json} (hne : l ≠ []) (hl : ∀ v ∈ l, ReadBack N S v) (fuel : Nat)
    (t : List Char)
    (hfuel : (List.intercalate (',' :: S.gap) (l.map (text N S))).length + 2 ≤ fuel) :
    elements N fuel (List.intercalate (',' :: S.gap) (l.map (text N S)) ++ ']' :: t)
      = some (l, t) := by
  induction l generalizing fuel with
  | nil => exact absurd rfl hne
  | cons v l ih =>
      obtain ⟨hv, hl⟩ := List.forall_mem_cons.mp hl
      obtain ⟨fuel, rfl⟩ : ∃ k, fuel = k + 1 := ⟨fuel - 1, by omega⟩
      cases l with
      | nil =>
          simp only [List.map_cons, List.map_nil, List.intercalate_singleton] at hfuel ⊢
          rw [elements, hv fuel _ (by omega) (ends_cons (by simp) t)]
          simp [skip_cons (c := ']') rfl]
      | cons w l =>
          simp only [List.map_cons, List.intercalate_cons_cons, List.length_append,
            List.length_cons] at hfuel ⊢
          have hrest := ih (List.cons_ne_nil _ _) hl fuel (by simp only [List.map_cons]; omega)
          rw [elements, List.append_assoc, List.append_assoc, List.cons_append,
            hv fuel _ (by omega) (ends_cons (by simp) _)]
          simp only [Option.bind_eq_bind, Option.bind_some, skip_cons (c := ',') rfl, if_true]
          rw [elements_gap]
          simp only [List.map_cons] at hrest
          rw [hrest]
          rfl

/-- What one entry reads as. -/
theorem entries_succ {k : String} {v : Json} (hv : ReadBack N S v) {fuel : Nat} (t : List Char)
    (hfuel : (member N S (k, v)).length + 1 ≤ fuel) (ht : Ends t) :
    entries N (fuel + 1) (member N S (k, v) ++ t)
      = match skip t with
        | [] => none
        | c :: t =>
            if c = ',' then (entries N fuel t).bind (fun p => some ((k, v) :: p.1, p.2))
            else if c = '}' then some ([(k, v)], t)
            else none := by
  have hlen := length_le_body S k.toList false
  simp only [member, string, List.cons_append, List.append_assoc, List.nil_append,
    List.length_cons, List.length_append] at hfuel ⊢
  rw [entries, skip_cons (by rfl)]
  simp only [ne_eq, not_true_eq_false, if_false]
  rw [readString_body S k.toList false (by omega)]
  simp only [Option.bind_eq_bind, Option.bind_some]
  rw [skip_cons (by rfl)]
  simp only [not_true_eq_false, if_false]
  rw [value_gap, hv fuel t (by omega) ht]
  simp only [Option.bind_some, String.ofList_toList]

/-- The entries of a dictionary are read back when each of their values is. -/
theorem entries_text {m : List (String × Json)} (hne : m ≠ []) (hm : ∀ e ∈ m, ReadBack N S e.2)
    (fuel : Nat) (t : List Char)
    (hfuel : (List.intercalate (',' :: S.gap) (m.map (member N S))).length + 2 ≤ fuel) :
    entries N fuel (List.intercalate (',' :: S.gap) (m.map (member N S)) ++ '}' :: t)
      = some (m, t) := by
  induction m generalizing fuel with
  | nil => exact absurd rfl hne
  | cons e m ih =>
      obtain ⟨k, v⟩ := e
      have hv : ReadBack N S v := (List.forall_mem_cons.mp hm).1
      have hm' := (List.forall_mem_cons.mp hm).2
      obtain ⟨fuel, rfl⟩ : ∃ k, fuel = k + 1 := ⟨fuel - 1, by omega⟩
      cases m with
      | nil =>
          simp only [List.map_cons, List.map_nil, List.intercalate_singleton] at hfuel ⊢
          rw [entries_succ hv _ (by omega) (ends_cons (by simp) t)]
          simp [skip_cons (c := '}') rfl]
      | cons e m =>
          simp only [List.map_cons, List.intercalate_cons_cons, List.length_append,
            List.length_cons] at hfuel ⊢
          have hrest := ih (List.cons_ne_nil _ _) hm' fuel (by simp only [List.map_cons]; omega)
          rw [List.append_assoc, List.append_assoc, List.cons_append,
            entries_succ hv _ (by omega) (ends_cons (by simp) _)]
          simp only [skip_cons (c := ',') rfl, if_true]
          rw [entries_gap]
          simp only [List.map_cons] at hrest
          rw [hrest]
          rfl

/-- The text of a list or a dictionary that has parts starts with that of the first. -/
theorem head_intercalate (sep : List Char) {x : List Char} {c : Char} {y : List Char}
    (l : List (List Char)) (hx : x = c :: y) : ∃ z, List.intercalate sep (x :: l) = c :: z := by
  cases l with
  | nil => exact ⟨y, by rw [List.intercalate_singleton, hx]⟩
  | cons w l => exact ⟨_, by rw [List.intercalate_cons_cons, hx]; rfl⟩

/-- **A value is read back**, before any separator. -/
theorem value_text {v : Json} (hv : AllNumbers N.Reads v) : ReadBack N S v := by
  induction v using induction with
  | null =>
      intro fuel t hfuel _
      obtain ⟨fuel, rfl⟩ : ∃ k, fuel = k + 1 := ⟨fuel - 1, by omega⟩
      simp [text, value, skip_cons (c := 'n') rfl, readWord]
  | bool b =>
      intro fuel t hfuel _
      obtain ⟨fuel, rfl⟩ : ∃ k, fuel = k + 1 := ⟨fuel - 1, by omega⟩
      cases b
      · simp [text, value, skip_cons (c := 'f') rfl, readWord]
      · simp [text, value, skip_cons (c := 't') rfl, readWord]
  | num n =>
      intro fuel t hfuel ht
      obtain ⟨fuel, rfl⟩ : ∃ k, fuel = k + 1 := ⟨fuel - 1, by omega⟩
      have hn : N.Reads n := hv
      have hback := hn.back t ht
      obtain ⟨c, u, hc, hstart⟩ := hn.start
      simp only [startsNumber, Bool.and_eq_true, Bool.not_eq_true', decide_eq_true_eq,
        List.mem_cons, not_or] at hstart
      obtain ⟨hspace, hquote, hlist, hdict, hnull, htrue, hfalse, -⟩ := hstart
      rw [hc] at hback
      simp only [text, hc]
      rw [value, List.cons_append, skip_cons hspace]
      simp only [if_neg hquote, if_neg hlist, if_neg hdict, if_neg hnull, if_neg htrue,
        if_neg hfalse]
      rw [List.cons_append] at hback
      rw [hback]
      rfl
  | str s =>
      intro fuel t hfuel _
      obtain ⟨fuel, rfl⟩ : ∃ k, fuel = k + 1 := ⟨fuel - 1, by omega⟩
      have hlen := length_le_body S s.toList false
      simp only [text, string, List.cons_append, List.append_assoc, List.nil_append,
        List.length_cons, List.length_append] at hfuel ⊢
      rw [value, skip_cons (by rfl)]
      simp only [if_true]
      rw [readString_body S s.toList false (by omega)]
      simp only [Option.bind_eq_bind, Option.bind_some, String.ofList_toList]
  | arr l ih =>
      intro fuel t hfuel _
      obtain ⟨fuel, rfl⟩ : ∃ k, fuel = k + 1 := ⟨fuel - 1, by omega⟩
      have hall := allNumbers_arr.mp hv
      simp only [text, texts_eq, List.cons_append, List.append_assoc, List.nil_append,
        List.length_cons, List.length_append, List.length_nil] at hfuel ⊢
      rw [value, skip_cons (by rfl)]
      simp only [if_neg (show ¬ '[' = '"' by decide), if_true]
      cases l with
      | nil => simp [skip_cons (c := ']') rfl]
      | cons w l =>
          obtain ⟨c, u, hc, hspace, hclose, -⟩ :=
            head_text (S := S) (List.forall_mem_cons.mp hall).1
          obtain ⟨z, hz⟩ := head_intercalate (',' :: S.gap) (l.map (text N S)) hc
          have hread := elements_text (List.cons_ne_nil w l)
            (fun v hvl => ih v hvl (hall v hvl)) fuel t (by omega)
          rw [List.map_cons] at hread ⊢
          rw [hz] at hread ⊢
          rw [List.cons_append, skip_cons hspace]
          rw [List.cons_append] at hread
          simp only [List.head?_cons, Option.some_inj, if_neg hclose]
          rw [hread]
          rfl
  | obj m ih =>
      intro fuel t hfuel _
      obtain ⟨fuel, rfl⟩ : ∃ k, fuel = k + 1 := ⟨fuel - 1, by omega⟩
      have hall := allNumbers_obj.mp hv
      simp only [text, members_eq, List.cons_append, List.append_assoc, List.nil_append,
        List.length_cons, List.length_append, List.length_nil] at hfuel ⊢
      rw [value, skip_cons (by rfl)]
      simp only [if_neg (show ¬ '{' = '"' by decide), if_neg (show ¬ '{' = '[' by decide), if_true]
      cases m with
      | nil => simp [skip_cons (c := '}') rfl]
      | cons e m =>
          obtain ⟨z, hz⟩ := head_intercalate (',' :: S.gap) (m.map (member N S))
            (show member N S e = '"' :: _ by rw [member]; rfl)
          have hread := entries_text (List.cons_ne_nil e m)
            (fun v hvl => ih v hvl (hall v hvl)) fuel t (by omega)
          rw [List.map_cons] at hread ⊢
          rw [hz] at hread ⊢
          rw [List.cons_append, skip_cons (by rfl)]
          rw [List.cons_append] at hread
          simp only [List.head?_cons, Option.some_inj, if_neg (show ¬ '"' = '}' by decide)]
          rw [hread]
          rfl

/-- **The round trip**: whatever the style, `loads` takes what `text` writes, with spaces around
it if there are any. -/
theorem loads_text {v : Json} (hv : AllNumbers N.Reads v) {t : List Char}
    (ht : ∀ c ∈ t, isSpace c = true) : loads N (text N S v ++ t) = some v := by
  have hends : Ends t := by
    intro c hc
    exact Or.inr (Or.inr (Or.inr (ht c (List.mem_of_mem_head? hc))))
  have hskip : skip t = [] := List.dropWhile_eq_nil_iff.mpr ht
  unfold loads
  rw [value_text hv _ _ (by rw [List.length_append]; omega) hends]
  simp [hskip]

/-! ## Printable text -/

def Printable (t : List Char) : Prop := ∀ c ∈ t, 0x20 ≤ c.toNat ∧ c.toNat ≤ 0x7e

theorem printable_append {t u : List Char} : Printable (t ++ u) ↔ Printable t ∧ Printable u := by
  simp only [Printable, List.forall_mem_append]

theorem printable_hexDigit : ∀ n < 16, 0x20 ≤ (hexDigit n).toNat ∧ (hexDigit n).toNat ≤ 0x7e := by
  decide

theorem printable_unicode (n : Nat) : Printable (unicode n) := by
  have hdigit : ∀ m, 0x20 ≤ (hexDigit (m % 16)).toNat ∧ (hexDigit (m % 16)).toNat ≤ 0x7e :=
    fun m => printable_hexDigit _ (Nat.mod_lt _ (by decide))
  simp only [Printable, unicode, List.forall_mem_cons, hdigit, true_and]
  exact ⟨by decide, by decide, fun c hc => absurd hc List.not_mem_nil⟩

theorem printable_escapeChar (c : Char) : Printable (escapeChar true c) := by
  unfold escapeChar
  split_ifs with h₁ h₂ h₃ h₄ h₅ h₆ h₇ h₈
  · simp [Printable]
  · simp [Printable]
  · simp [Printable]
  · simp [Printable]
  · simp [Printable]
  · simp [Printable]
  · simp [Printable]
  · unfold unicodeEscape
    split
    · exact printable_unicode _
    · exact printable_append.mpr ⟨printable_unicode _, printable_unicode _⟩
  · intro d hd
    rw [List.mem_singleton.mp hd]
    simp only [true_and] at h₈
    omega

theorem printable_body (hS : S.ascii = true) (s : List Char) (after : Bool) :
    Printable (body S after s) := by
  induction s generalizing after with
  | nil => exact fun c hc => absurd hc List.not_mem_nil
  | cons c s ih =>
      rw [body, printable_append]
      refine ⟨?_, ih _⟩
      split
      · simp [Printable]
      · rw [hS]
        exact printable_escapeChar c

theorem printable_intercalate {sep : List Char} (hsep : Printable sep) {l : List (List Char)}
    (hl : ∀ t ∈ l, Printable t) : Printable (List.intercalate sep l) := by
  induction l with
  | nil => exact fun c hc => absurd hc List.not_mem_nil
  | cons t l ih =>
      obtain ⟨ht, hl⟩ := List.forall_mem_cons.mp hl
      cases l with
      | nil =>
          rw [List.intercalate_singleton]
          exact ht
      | cons u l =>
          rw [List.intercalate_cons_cons, printable_append, printable_append]
          exact ⟨⟨ht, hsep⟩, ih hl⟩

/-- **Text of the ASCII style is printable**: it has no line break, and one byte a character. -/
theorem printable_text (hS : S.ascii = true) {v : Json} (hv : AllNumbers N.Reads v) :
    Printable (text N S v) := by
  have hgap : Printable (',' :: S.gap) := by
    unfold Style.gap
    split <;> simp [Printable]
  have hstring : ∀ s, Printable (string S s) := by
    intro s
    have hbody := printable_body hS s.toList false
    simp only [string, Printable, List.forall_mem_cons, List.forall_mem_append]
    exact ⟨by decide, hbody, by decide, fun c hc => absurd hc List.not_mem_nil⟩
  induction v using induction with
  | null => simp [Printable, text]
  | bool b => cases b <;> simp [Printable, text]
  | num n =>
      have hn : N.Reads n := hv
      exact fun c hc => ⟨(hn.printable c hc).1, (hn.printable c hc).2.1⟩
  | str s => exact hstring s
  | arr l ih =>
      have hall := allNumbers_arr.mp hv
      have hparts : Printable (List.intercalate (',' :: S.gap) (l.map (text N S))) := by
        refine printable_intercalate hgap (fun t ht => ?_)
        obtain ⟨v, hvl, rfl⟩ := List.mem_map.mp ht
        exact ih v hvl (hall v hvl)
      simp only [text, texts_eq, Printable, List.forall_mem_cons, List.forall_mem_append]
      exact ⟨by decide, hparts, by decide, fun c hc => absurd hc List.not_mem_nil⟩
  | obj m ih =>
      have hall := allNumbers_obj.mp hv
      have hparts : Printable (List.intercalate (',' :: S.gap) (m.map (member N S))) := by
        refine printable_intercalate hgap (fun t ht => ?_)
        obtain ⟨⟨k, v⟩, hvm, rfl⟩ := List.mem_map.mp ht
        have hcolon : Printable (':' :: S.gap) := by
          unfold Style.gap
          split <;> simp [Printable]
        rw [member, printable_append, printable_append]
        exact ⟨hstring k, hcolon, ih _ hvm (hall _ hvm)⟩
      simp only [text, members_eq, Printable, List.forall_mem_cons, List.forall_mem_append]
      exact ⟨by decide, hparts, by decide, fun c hc => absurd hc List.not_mem_nil⟩

end

end JsonText
