import Mathlib.Order.Defs.LinearOrder
import Mathlib.Order.Basic

/-!
# The order of 64-bit words

`UInt64` with its own `≤`, `<`, `min`, `max` and `compare` is a linear order, and the successor of
a word below another one does not wrap.
-/

instance Word.instLinearOrderUInt64 : LinearOrder UInt64 where
  le_refl a := UInt64.le_refl a
  le_trans _ _ _ := UInt64.le_trans
  le_antisymm _ _ := UInt64.le_antisymm
  le_total := UInt64.le_total
  lt_iff_le_not_ge a b := by
    simp only [UInt64.lt_iff_toNat_lt, UInt64.le_iff_toNat_le]
    omega
  toDecidableLE := inferInstance
  toDecidableLT := inferInstance
  toDecidableEq := inferInstance
  toOrd := inferInstance
  compare_eq_compareOfLessAndEq _ _ := rfl
  toMin := inferInstance
  toMax := inferInstance
  min_def _ _ := rfl
  max_def _ _ := rfl

namespace Word

theorem toNat_add_one {a b : UInt64} (h : a < b) : (a + 1).toNat = a.toNat + 1 := by
  rw [UInt64.lt_iff_toNat_lt] at h
  have := b.toNat_lt
  rw [UInt64.toNat_add]
  simp only [UInt64.toNat_one]
  omega

theorem lt_add_one {a b : UInt64} (h : a < b) : a < a + 1 := by
  rw [UInt64.lt_iff_toNat_lt, toNat_add_one h]
  omega

/-- The keys below the successor of `a` are those up to `a`. -/
theorem lt_add_one_iff {a b : UInt64} (h : a < b) (k : UInt64) : k < a + 1 ↔ k ≤ a := by
  rw [UInt64.lt_iff_toNat_lt, UInt64.le_iff_toNat_le, toNat_add_one h]
  omega

theorem add_one_le {a b : UInt64} (h : a < b) : a + 1 ≤ b := by
  rw [UInt64.le_iff_toNat_le, toNat_add_one h]
  exact UInt64.lt_iff_toNat_lt.mp h

theorem toNat_sub_one {a b : UInt64} (h : a < b) : (b - 1).toNat = b.toNat - 1 := by
  rw [UInt64.lt_iff_toNat_lt] at h
  rw [UInt64.toNat_sub_of_le _ _ (UInt64.le_iff_toNat_le.mpr (by simp only [UInt64.toNat_one]; omega))]
  rfl

/-- The keys up to the predecessor of `b` are those below `b`. -/
theorem le_sub_one_iff {a b : UInt64} (h : a < b) (k : UInt64) : k ≤ b - 1 ↔ k < b := by
  rw [UInt64.lt_iff_toNat_lt, UInt64.le_iff_toNat_le, toNat_sub_one h]
  have := UInt64.lt_iff_toNat_lt.mp h
  omega

/-- The successor of `a` is 0 if `a` is the last word. -/
theorem succ_cases (a : UInt64) : (a + 1 = 0 ∧ ∀ k, k ≤ a) ∨ (a + 1 ≠ 0 ∧ ∀ k, k < a + 1 ↔ k ≤ a) := by
  by_cases h : ∃ b, a < b
  · obtain ⟨b, hb⟩ := h
    refine .inr ⟨fun h0 => ?_, lt_add_one_iff hb⟩
    have := toNat_add_one hb
    rw [h0] at this
    simp at this
  · refine .inl ⟨?_, fun k => UInt64.not_lt.mp fun hk => h ⟨k, hk⟩⟩
    have hmax : (0xFFFFFFFFFFFFFFFF : UInt64) ≤ a := UInt64.not_lt.mp fun hk => h ⟨_, hk⟩
    rw [UInt64.le_iff_toNat_le] at hmax
    have := a.toNat_lt
    refine UInt64.toNat_inj.mp ?_
    simp only [UInt64.reduceToNat] at hmax
    rw [UInt64.toNat_add]
    simp only [UInt64.reduceToNat]
    omega

/-- The words up to the predecessor of `a` are those below `a`. -/
theorem pred_cases (a : UInt64) : a = 0 ∨ ∀ k, k ≤ a - 1 ↔ k < a := by
  by_cases h : a = 0
  · exact .inl h
  · refine .inr (le_sub_one_iff (a := 0) (lt_of_le_of_ne UInt64.zero_le fun h0 => h h0.symm))

end Word
