import Mathlib.Tactic

set_option autoImplicit false

/-! # Buckets of fixed width on the integers

`xbar sz t` is the start of the bucket of width `sz` that holds `t`: the greatest multiple of
`sz` not above `t`. Buckets of width `k * sz` are unions of buckets of width `sz`
(`xbar_mul_xbar`), which is what lets coarse buckets be formed from fine ones. -/

namespace Buckets

/-- The start of the bucket of width `sz` holding `t`. -/
def xbar (sz t : Int) : Int := sz * (t / sz)

theorem xbar_le {sz : Int} (h : 0 < sz) (t : Int) : xbar sz t ≤ t :=
  Int.mul_ediv_self_le h.ne'

theorem xbar_mono {sz : Int} (h : 0 < sz) {t u : Int} (htu : t ≤ u) : xbar sz t ≤ xbar sz u :=
  mul_le_mul_of_nonneg_left (Int.ediv_le_ediv h htu) h.le

/-- **The bucket of an element** is the one that starts at its `xbar`. -/
theorem mem_bucket_iff {sz : Int} (h : 0 < sz) (t u : Int) :
    (xbar sz u ≤ t ∧ t < xbar sz u + sz) ↔ xbar sz u = xbar sz t := by
  constructor
  · rintro ⟨hle, hlt⟩
    have hlow : u / sz ≤ t / sz := by
      rw [Int.le_ediv_iff_mul_le h, mul_comm]
      exact hle
    have hhigh : t / sz < u / sz + 1 := by
      rw [Int.ediv_lt_iff_lt_mul h]
      calc t < xbar sz u + sz := hlt
        _ = (u / sz + 1) * sz := by rw [xbar]; ring
    rw [xbar, xbar, le_antisymm hlow (by omega)]
  · intro hsame
    rw [hsame]
    refine ⟨xbar_le h t, ?_⟩
    have hmod : t % sz < sz := Int.emod_lt_of_pos t h
    have hdiv : sz * (t / sz) + t % sz = t := Int.mul_ediv_add_emod t sz
    rw [xbar]
    omega

/-- **Nesting.** The wide bucket of an element is the wide bucket of its narrow bucket when
the wide width is a multiple of the narrow one. -/
theorem xbar_mul_xbar {sz : Int} (h : 0 < sz) (k t : Int) :
    xbar (k * sz) (xbar sz t) = xbar (k * sz) t := by
  have hdiv : (sz * (t / sz)) / (k * sz) = t / (k * sz) := by
    calc (sz * (t / sz)) / (k * sz) = (sz * (t / sz)) / (sz * k) := by rw [mul_comm k sz]
      _ = t / sz / k := Int.mul_ediv_mul_of_pos _ _ h
      _ = t / (sz * k) := Int.ediv_ediv_of_nonneg h.le
      _ = t / (k * sz) := by rw [mul_comm k sz]
  rw [xbar, xbar, xbar, hdiv]

/-- The wide bucket of a narrow bucket's start is never after the element's own. -/
theorem xbar_xbar_le {w sz : Int} (hw : 0 < w) (h : 0 < sz) (t : Int) :
    xbar w (xbar sz t) ≤ xbar w t :=
  xbar_mono hw (xbar_le h t)

end Buckets
