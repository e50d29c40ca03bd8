import NanoTick.Basic.JsonText
import Mathlib.Tactic

set_option autoImplicit false

/-! # Replacing parts of a text, and JSON inside a script

`replace` is `str.replace`: from the left, without going over what it has put in. Replacing `</`
by `<\/` leaves no `</` (`no_close_replace`), and in JSON text it only escapes slashes, which the
reader undoes (`replace_text`). So JSON text treated so can stand inside a script element: the
script ends where its own text ends it (`untilClose_append`). What `<!--` followed by `<script`
does to the reading of a script element is not modelled.
-/

namespace JsonText

open Python

/-! ## `str.replace` -/

/-- Replace what is found from the left; the number counts what is still to be left out. -/
def replaceFrom (old new : List Char) : Nat → List Char → List Char
  | _, [] => []
  | k + 1, _ :: t => replaceFrom old new k t
  | 0, c :: t =>
      if old.isPrefixOf (c :: t) then new ++ replaceFrom old new (old.length - 1) t
      else c :: replaceFrom old new 0 t

/-- `t.replace(old, new)`, for `old` not empty. -/
def replace (old new t : List Char) : List Char := replaceFrom old new 0 t

section

variable {old new t u : List Char} {c : Char}

theorem replaceFrom_append (u t : List Char) :
    replaceFrom old new u.length (u ++ t) = replace old new t := by
  induction u with
  | nil => rfl
  | cons c u ih => rw [List.length_cons, List.cons_append, replaceFrom, ih]

/-- What is looked for is replaced. -/
theorem replace_old (hold : old ≠ []) (t : List Char) :
    replace old new (old ++ t) = new ++ replace old new t := by
  cases old with
  | nil => exact absurd rfl hold
  | cons c u =>
      have hprefix : (c :: u).isPrefixOf (c :: (u ++ t)) = true := by
        rw [List.isPrefixOf_iff_prefix]
        exact ⟨t, rfl⟩
      rw [replace, List.cons_append, replaceFrom, if_pos hprefix]
      exact congrArg (new ++ ·) (replaceFrom_append u t)

/-- Everything else stays. -/
theorem replace_cons (h : ¬ old <+: c :: t) :
    replace old new (c :: t) = c :: replace old new t := by
  rw [replace, replaceFrom, if_neg (by rwa [List.isPrefixOf_iff_prefix])]
  rfl

@[simp] theorem replace_nil : replace old new [] = [] := rfl

theorem replace_of_not_infix (h : ¬ old <:+: t) : replace old new t = t := by
  induction t with
  | nil => rfl
  | cons c t ih =>
      rw [replace_cons (fun hp => h hp.isInfix), ih (fun hi => h (hi.trans (List.infix_cons
        (List.infix_refl t))))]

/-- **One occurrence**: a text that has `old` once, and not earlier by overlap, gets `new` there. -/
theorem replace_once {pre post : List Char} (hold : old ≠ [])
    (hpre : ¬ old <:+: pre ++ old.dropLast) (hpost : ¬ old <:+: post) :
    replace old new (pre ++ (old ++ post)) = pre ++ (new ++ post) := by
  induction pre with
  | nil => rw [List.nil_append, List.nil_append, replace_old hold, replace_of_not_infix hpost]
  | cons c pre ih =>
      have hhead : ¬ old <+: c :: (pre ++ (old ++ post)) := by
        intro hp
        apply hpre
        -- an occurrence at the head lies before the end of the given one
        have hshort : c :: pre ++ old.dropLast <+: c :: (pre ++ (old ++ post)) := by
          rw [List.cons_append, List.prefix_cons_inj, List.prefix_append_right_inj]
          exact (List.dropLast_prefix old).trans (List.prefix_append old post)
        have hlen : old.length ≤ (c :: pre ++ old.dropLast).length := by
          have hpos := List.length_pos_iff.mpr hold
          simp only [List.length_append, List.length_cons, List.length_dropLast]
          omega
        exact (List.prefix_of_prefix_length_le hp hshort hlen).isInfix
      have hrest : ¬ old <:+: pre ++ old.dropLast := fun hi =>
        hpre (hi.trans (List.infix_cons (List.infix_refl _)))
      rw [List.cons_append, replace_cons hhead, ih hrest, List.cons_append]

end

/-! ## `</` -/

/-- What ends a script element, and what is written instead. -/
def close : List Char := ['<', '/']
def closeEscaped : List Char := ['<', '\\', '/']

section

variable {t u : List Char} {c : Char}

theorem close_prefix_iff : close <+: c :: t ↔ c = '<' ∧ t.head? = some '/' := by
  cases t with
  | nil => simp [close, List.cons_prefix_cons]
  | cons d t => simp [close, List.cons_prefix_cons, eq_comm]

theorem replace_close_cons (h : c ≠ '<') :
    replace close closeEscaped (c :: t) = c :: replace close closeEscaped t :=
  replace_cons (fun hp => h (close_prefix_iff.mp hp).1)

/-- Text without `<` stays. -/
theorem replace_close_append (hu : '<' ∉ u) (t : List Char) :
    replace close closeEscaped (u ++ t) = u ++ replace close closeEscaped t := by
  induction u with
  | nil => rfl
  | cons c u ih =>
      have hc : c ≠ '<' := fun h => hu (h ▸ List.mem_cons_self)
      rw [List.cons_append, replace_close_cons hc, ih (fun h => hu (List.mem_cons_of_mem c h)),
        List.cons_append]

theorem replace_close_slash (t : List Char) : replace close closeEscaped ('<' :: '/' :: t)
    = '<' :: '\\' :: '/' :: replace close closeEscaped t :=
  @replace_old close closeEscaped (by decide) t

theorem replace_close_lt (h : t.head? ≠ some '/') :
    replace close closeEscaped ('<' :: t) = '<' :: replace close closeEscaped t :=
  replace_cons (fun hp => h (close_prefix_iff.mp hp).2)

/-- **No `</` is left.** -/
theorem no_close_replace (t : List Char) : ¬ close <:+: replace close closeEscaped t := by
  induction hn : t.length using Nat.strong_induction_on generalizing t with
  | _ n ih =>
      cases t with
      | nil => decide
      | cons c t =>
          by_cases hclose : close <+: c :: t
          · obtain ⟨u, hu⟩ := hclose
            have hlen : u.length < n := by
              have := congrArg List.length hu
              simp only [close, List.length_append, List.length_cons, List.length_nil] at this hn
              omega
            have hu' : c :: t = '<' :: '/' :: u := hu.symm
            rw [hu', replace_close_slash]
            have hrest := ih _ hlen u rfl
            rw [List.infix_cons_iff, List.infix_cons_iff, List.infix_cons_iff]
            simp [close_prefix_iff, hrest]
          · rw [replace_cons hclose, List.infix_cons_iff]
            rw [List.length_cons] at hn
            have hrest := ih t.length (by omega) t rfl
            rintro (hp | hi)
            · obtain ⟨rfl, hhead⟩ := close_prefix_iff.mp hp
              -- what follows starts as the rest of the text does
              cases t with
              | nil => simp at hhead
              | cons d t =>
                  by_cases hd : close <+: d :: t
                  · obtain ⟨u, hu⟩ := hd
                    have hu' : d :: t = '<' :: '/' :: u := hu.symm
                    rw [hu', replace_close_slash] at hhead
                    simp at hhead
                  · rw [replace_cons hd] at hhead
                    exact hclose (close_prefix_iff.mpr ⟨rfl, hhead⟩)
            · exact hrest hi

/-- The text up to the first `</`. A script element that holds `<!--` and then `<script` runs past
the next `</script`; the text is read here as if it did not. -/
def untilClose : List Char → List Char
  | [] => []
  | c :: t => if close.isPrefixOf (c :: t) then [] else c :: untilClose t

/-- **The script ends where its own text ends it**: text without `</`, and not ending in `<`,
goes into it whole. -/
theorem untilClose_append (hu : ¬ close <:+: u) (hlast : u.getLast? ≠ some '<') (t : List Char) :
    untilClose (u ++ t) = u ++ untilClose t := by
  induction u with
  | nil => rfl
  | cons c u ih =>
      have hnot : ¬ close <+: c :: (u ++ t) := by
        intro hp
        obtain ⟨rfl, hhead⟩ := close_prefix_iff.mp hp
        cases u with
        | nil => exact hlast rfl
        | cons d u =>
            have hp' : close <+: '<' :: d :: u := close_prefix_iff.mpr ⟨rfl, hhead⟩
            exact hu hp'.isInfix
      have hrest : u.getLast? ≠ some '<' := by
        cases u with
        | nil => simp
        | cons d u => rwa [List.getLast?_cons_cons] at hlast
      rw [List.cons_append, untilClose, if_neg (by rwa [List.isPrefixOf_iff_prefix]),
        ih (fun hi => hu (hi.trans (List.infix_cons (List.infix_refl u)))) hrest,
        List.cons_append]

end

/-! ## JSON text without `</` -/

section

variable {N : Numerals} {S : Style} {c : Char}

/-- The style with escaped slashes. -/
def Style.close (S : Style) : Style := { S with closed := true }

@[simp] theorem close_ascii : S.close.ascii = S.ascii := rfl

@[simp] theorem close_gap : S.close.gap = S.gap := rfl

theorem not_mem_unicode (n : Nat) : '<' ∉ unicode n := by
  have hdigit : ∀ m < 16, '<' ≠ hexDigit m := by decide
  have hmod : ∀ m, '<' ≠ hexDigit (m % 16) := fun m => hdigit _ (Nat.mod_lt _ (by decide))
  simp only [unicode, List.mem_cons, List.not_mem_nil, or_false, not_or]
  exact ⟨by decide, by decide, hmod _, hmod _, hmod _, hmod _⟩

/-- Only `<` is written with `<`. -/
theorem not_mem_escapeChar (ascii : Bool) (hc : c ≠ '<') : '<' ∉ escapeChar ascii c := by
  unfold escapeChar
  split_ifs
  · decide
  · decide
  · decide
  · decide
  · decide
  · decide
  · decide
  · unfold unicodeEscape
    split
    · exact not_mem_unicode _
    · rw [List.mem_append, not_or]
      exact ⟨not_mem_unicode _, not_mem_unicode _⟩
  · exact fun h => hc (List.mem_singleton.mp h).symm

/-- Only a slash is written with a slash in front. -/
theorem head_escapeChar_ne_slash (ascii : Bool) (hc : c ≠ '/') (t : List Char) :
    (escapeChar ascii c ++ t).head? ≠ some '/' := by
  unfold escapeChar unicodeEscape unicode
  split_ifs <;> simp [hc]

theorem escapeChar_lt (ascii : Bool) : escapeChar ascii '<' = ['<'] := by cases ascii <;> rfl

theorem escapeChar_slash (ascii : Bool) : escapeChar ascii '/' = ['/'] := by cases ascii <;> rfl

/-- An open style does not look at the character before. -/
theorem body_open (hS : S.closed = false) (after : Bool) (c : Char) (s : List Char) :
    body S after (c :: s) = escapeChar S.ascii c ++ body S (decide (c = '<')) s := by
  simp [body, hS]

theorem body_close_cons (after : Bool) (hc : after = false ∨ c ≠ '/') (s : List Char) :
    body S.close after (c :: s) = escapeChar S.ascii c ++ body S.close (decide (c = '<')) s := by
  rcases hc with rfl | hc
  · simp [body]
  · simp [body, hc]

/-- **Replacing in a string** escapes its slashes after `<`; the second part is the string that
follows a `<`. -/
theorem replace_body (hS : S.closed = false) (s t : List Char) :
    replace close closeEscaped (body S false s ++ '"' :: t)
        = body S.close false s ++ '"' :: replace close closeEscaped t ∧
      replace close closeEscaped ('<' :: (body S true s ++ '"' :: t))
        = '<' :: (body S.close true s ++ '"' :: replace close closeEscaped t) := by
  induction s with
  | nil =>
      have hquote : replace close closeEscaped ('"' :: t) = '"' :: replace close closeEscaped t :=
        replace_close_cons (by decide)
      refine ⟨hquote, ?_⟩
      simp only [body, List.nil_append]
      rw [replace_close_lt (by simp), hquote]
  | cons c s ih =>
      obtain ⟨ihplain, ihafter⟩ := ih
      have hplain : replace close closeEscaped (body S false (c :: s) ++ '"' :: t)
          = body S.close false (c :: s) ++ '"' :: replace close closeEscaped t := by
        rw [body_open hS, body_close_cons _ (Or.inl rfl), List.append_assoc, List.append_assoc]
        by_cases hc : c = '<'
        · subst hc
          rw [escapeChar_lt]
          exact ihafter
        · rw [replace_close_append (not_mem_escapeChar _ hc), decide_eq_false hc, ihplain]
      refine ⟨hplain, ?_⟩
      by_cases hslash : c = '/'
      · subst hslash
        rw [body_open hS, escapeChar_slash, List.append_assoc]
        simp only [List.cons_append, List.nil_append]
        rw [replace_close_slash]
        exact congrArg (fun u => '<' :: '\\' :: '/' :: u) ihplain
      · have hbody : body S true (c :: s) = body S false (c :: s) := by
          rw [body_open hS, body_open hS]
        have hclosed : body S.close true (c :: s) = body S.close false (c :: s) := by
          rw [body_close_cons _ (Or.inr hslash), body_close_cons _ (Or.inl rfl)]
        rw [hbody, hclosed, ← hplain]
        refine replace_close_lt ?_
        rw [body_open hS, List.append_assoc]
        exact head_escapeChar_ne_slash _ hslash _

theorem replace_string (hS : S.closed = false) (s : String) (t : List Char) :
    replace close closeEscaped (string S s ++ t)
      = string S.close s ++ replace close closeEscaped t := by
  simp only [string, List.cons_append, List.append_assoc, List.nil_append]
  rw [replace_close_cons (by decide), (replace_body hS s.toList t).1]

/-- Parts with separators between them. -/
theorem replace_intercalate {α : Type} {f g : α → List Char} {sep : List Char} (hsep : '<' ∉ sep)
    {l : List α} (hl : ∀ a ∈ l, ∀ t, replace close closeEscaped (f a ++ t)
      = g a ++ replace close closeEscaped t) (t : List Char) :
    replace close closeEscaped (List.intercalate sep (l.map f) ++ t)
      = List.intercalate sep (l.map g) ++ replace close closeEscaped t := by
  induction l with
  | nil => rfl
  | cons a l ih =>
      obtain ⟨ha, hl⟩ := List.forall_mem_cons.mp hl
      cases l with
      | nil =>
          simp only [List.map_cons, List.map_nil, List.intercalate_singleton]
          exact ha t
      | cons b l =>
          have hrest := ih hl
          simp only [List.map_cons, List.intercalate_cons_cons, List.append_assoc] at hrest ⊢
          rw [ha, replace_close_append hsep, hrest]

/-- **Replacing `</` in JSON text** writes the same value in the closed style. -/
theorem replace_text (hS : S.closed = false) {v : Json} (hv : AllNumbers N.Reads v)
    (t : List Char) : replace close closeEscaped (text N S v ++ t)
      = text N S.close v ++ replace close closeEscaped t := by
  have hgap : '<' ∉ S.gap := by
    unfold Style.gap
    split <;> simp
  have hcomma : '<' ∉ ',' :: S.gap := by simp [hgap]
  induction v using induction generalizing t with
  | null => exact replace_close_append (by simp [text]) t
  | bool b =>
      cases b
      · exact replace_close_append (by simp [text]) t
      · exact replace_close_append (by simp [text]) t
  | num n =>
      have hn : N.Reads n := hv
      exact replace_close_append (fun h => (hn.printable _ h).2.2 rfl) t
  | str s => exact replace_string hS s t
  | arr l ih =>
      have hall := allNumbers_arr.mp hv
      simp only [text, texts_eq, List.cons_append, List.append_assoc, List.nil_append, close_gap]
      rw [replace_close_cons (by decide), replace_intercalate hcomma
        (fun v hvl t => ih v hvl (hall v hvl) t), replace_close_cons (by decide)]
  | obj m ih =>
      have hall := allNumbers_obj.mp hv
      simp only [text, members_eq, List.cons_append, List.append_assoc, List.nil_append, close_gap]
      rw [replace_close_cons (by decide), replace_intercalate hcomma (fun e he t => ?_),
        replace_close_cons (by decide)]
      obtain ⟨k, v⟩ := e
      simp only [member, List.append_assoc, List.cons_append, close_gap]
      rw [replace_string hS, replace_close_cons (by decide), replace_close_append hgap,
        ih _ he (hall _ he)]

end

end JsonText
