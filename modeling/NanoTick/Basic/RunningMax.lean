import Mathlib.Order.Lattice
import Mathlib.Tactic

set_option autoImplicit false

/-! # Classes of a stream by its running maximum

Each element of a stream has a key; its class is the greatest key up to it, its own included.
Classes never go back, so the elements of one class are consecutive, and a class is complete
once a greater key has come (`classAt_concat`). -/

namespace RunningMax

variable {α β : Type} [LinearOrder β]

/-- The maximum after one more key. -/
def upTo (cur : Option β) (b : β) : β :=
  match cur with
  | none => b
  | some m => max m b

/-- The greatest key so far. -/
def peak (cur : Option β) (l : List (β × α)) : Option β :=
  l.foldl (fun m e => some (upTo m e.1)) cur

/-- The elements with their classes. -/
def classed : Option β → List (β × α) → List (β × α)
  | _, [] => []
  | cur, e :: l => (upTo cur e.1, e.2) :: classed (some (upTo cur e.1)) l

/-- The elements of one class, in order. -/
def classAt (b : β) (l : List (β × α)) : List α :=
  ((classed none l).filter (fun e => decide (e.1 = b))).map Prod.snd

theorem le_upTo {m b : β} : m ≤ upTo (some m) b := le_max_left m b

theorem upTo_of_le {m b : β} (h : b ≤ m) : upTo (some m) b = m := max_eq_left h

theorem upTo_of_lt {m b : β} (h : m < b) : upTo (some m) b = b := max_eq_right h.le

theorem peak_concat (cur : Option β) (l : List (β × α)) (e : β × α) :
    peak cur (l ++ [e]) = some (upTo (peak cur l) e.1) := by
  rw [peak, List.foldl_append]
  rfl

theorem classed_concat (cur : Option β) (l : List (β × α)) (e : β × α) :
    classed cur (l ++ [e]) = classed cur l ++ [(upTo (peak cur l) e.1, e.2)] := by
  induction l generalizing cur with
  | nil => rfl
  | cons a l ih =>
      show (upTo cur a.1, a.2) :: classed (some (upTo cur a.1)) (l ++ [e]) = _
      rw [ih]
      rfl

/-- One more element goes into the class of the peak it makes. -/
theorem classAt_concat (b : β) (l : List (β × α)) (e : β × α) :
    classAt b (l ++ [e])
      = classAt b l ++ (if upTo (peak none l) e.1 = b then [e.2] else []) := by
  rw [classAt, classed_concat, List.filter_append, List.map_append]
  congr 1
  by_cases h : upTo (peak none l) e.1 = b <;> simp [h]

/-- The peak is the last class, and no class is above it. -/
theorem peak_spec (l : List (β × α)) :
    (peak none l = none → l = [])
      ∧ ∀ m, peak none l = some m →
        (∃ e ∈ classed none l, e.1 = m) ∧ ∀ e ∈ classed none l, e.1 ≤ m := by
  induction l using List.reverseRecOn with
  | nil => exact ⟨fun _ => rfl, fun m h => by cases h⟩
  | append_singleton l e ih =>
      rw [peak_concat, classed_concat]
      refine ⟨fun h => absurd h (Option.some_ne_none _), fun m hm => ?_⟩
      cases hm
      refine ⟨⟨_, List.mem_append_right _ (List.mem_singleton_self _), rfl⟩, fun x hx => ?_⟩
      rcases List.mem_append.mp hx with hx | hx
      · cases hp : peak none l with
        | none =>
            rw [ih.1 hp] at hx
            exact absurd hx List.not_mem_nil
        | some m => exact le_trans ((ih.2 m hp).2 x hx) le_upTo
      · rw [List.mem_singleton.mp hx]

/-- A class above the peak is still empty. -/
theorem classAt_above {l : List (β × α)} {m b : β} (h : peak none l = some m) (hb : m < b) :
    classAt b l = [] := by
  rw [classAt, List.map_eq_nil_iff, List.filter_eq_nil_iff]
  intro e he heq
  have hle := ((peak_spec l).2 m h).2 e he
  rw [of_decide_eq_true heq] at hle
  exact absurd hb (not_lt.mpr hle)

end RunningMax
