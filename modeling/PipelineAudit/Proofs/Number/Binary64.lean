import Mathlib.Algebra.Order.Ring.Nat
import Mathlib.Tactic.Ring
import PipelineAudit.Number.Binary64

/-!
# Which number a bit pattern is

A number in the binary64 format is told by its value: two patterns that equal one integer are the
same, or they are zeros of either sign (`Binary64.eq_or_isZero_of_toInt?`). The magnitude of a
finite number is its significand times a power of two, and a number above the smallest binade has a
significand with its leading bit set, so the power can be told from the magnitude.
-/

namespace PipelineAudit.Binary64

variable {x y : Binary64} {n : Int}

/-! ## Fields -/

/-- The powers of two. -/
lemma twoTo_eq (k : Nat) : twoTo k = 2 ^ k := rfl

/-- The fraction field has 52 bits. -/
lemma fractionField_lt (x : Binary64) : x.fractionField < 2 ^ 52 := by
  rw [fractionField, twoTo_eq]
  omega

/-- A number is told by its sign, its exponent and its fraction. -/
lemma ext_fields (hsign : x.isNegative = y.isNegative)
    (hexponent : x.exponentField = y.exponentField)
    (hfraction : x.fractionField = y.fractionField) : x = y := by
  have hx := x.bits.toNat_lt
  have hy := y.bits.toNat_lt
  simp only [isNegative, twoTo_eq, ge_iff_le, decide_eq_decide] at hsign
  simp only [exponentField, twoTo_eq] at hexponent
  simp only [fractionField, twoTo_eq] at hfraction
  have hbits : x.bits.toNat = y.bits.toNat := by omega
  cases x
  cases y
  congr 1
  exact UInt64.toNat_inj.mp hbits

/-! ## Magnitudes -/

/-- The power of two that the significand is multiplied with, counted from the smallest one. -/
def binade (x : Binary64) : Nat := max 1 x.exponentField

/-- The significand has 53 bits. -/
lemma significand_lt (x : Binary64) : x.significand < 2 ^ 53 := by
  have := x.fractionField_lt
  rw [significand, twoTo_eq]
  split_ifs <;> omega

/-- Above the smallest binade the leading bit of the significand is set. -/
lemma le_significand (h : 1 < x.binade) : 2 ^ 52 ≤ x.significand := by
  rw [binade] at h
  rw [significand, twoTo_eq, if_neg (by omega)]
  omega

/-- A number that equals an integer is the integer in magnitude. -/
lemma significand_mul_of_toInt? (h : x.toInt? = some n) :
    ∃ k : Nat, x.significand * 2 ^ x.binade = k * 2 ^ 1075 ∧
      (if x.isNegative = true then -(k : Int) else (k : Int)) = n := by
  unfold toInt? at h
  split at h
  · cases h
  · obtain ⟨m, hm, hn⟩ := Option.map_eq_some_iff.mp h
    obtain ⟨k, hk, hcast⟩ := Option.bind_eq_some_iff.mp hm
    cases hcast
    refine ⟨k, ?_, hn⟩
    have hexponent : x.exponent = (x.binade : Int) - 1075 := by
      rw [exponent, binade]
      split_ifs <;> omega
    split at hk
    · -- the significand is multiplied
      cases hk
      rw [twoTo_eq, Nat.mul_assoc, ← Nat.pow_add]
      congr 2
      omega
    · -- it is divided without a rest
      dsimp only at hk
      split_ifs at hk with hrest
      cases hk
      rw [twoTo_eq] at hrest ⊢
      have hsplit : (1075 : Nat) = (-x.exponent).toNat + x.binade := by omega
      rw [hsplit, Nat.pow_add, ← Nat.mul_assoc, Nat.div_mul_cancel (Nat.dvd_of_mod_eq_zero hrest)]

/-- Of two equal magnitudes, neither has the larger binade. -/
lemma binade_le_of_magnitude (h : x.significand * 2 ^ x.binade = y.significand * 2 ^ y.binade) :
    y.binade ≤ x.binade := by
  by_contra hlt
  have hlead : 2 ^ 52 ≤ y.significand := y.le_significand (by unfold binade at hlt ⊢; omega)
  have hpow : 2 ^ (x.binade + 1) ≤ 2 ^ y.binade := Nat.pow_le_pow_right (by decide) (by omega)
  have hlarge : 2 ^ 52 * 2 ^ (x.binade + 1) ≤ y.significand * 2 ^ y.binade :=
    Nat.mul_le_mul hlead hpow
  have hsmall : x.significand * 2 ^ x.binade < 2 ^ 53 * 2 ^ x.binade :=
    Nat.mul_lt_mul_of_pos_right x.significand_lt (Nat.two_pow_pos _)
  have hsame : 2 ^ 52 * 2 ^ (x.binade + 1) = 2 ^ 53 * 2 ^ x.binade := by ring
  omega

/-- Equal magnitudes have equal exponents and fractions. -/
lemma eq_of_magnitude (h : x.significand * 2 ^ x.binade = y.significand * 2 ^ y.binade) :
    x.exponentField = y.exponentField ∧ x.fractionField = y.fractionField := by
  have hbinade : x.binade = y.binade :=
    Nat.le_antisymm (binade_le_of_magnitude h.symm) (binade_le_of_magnitude h)
  rw [hbinade] at h
  have hsignificand : x.significand = y.significand :=
    Nat.eq_of_mul_eq_mul_right (Nat.two_pow_pos _) h
  have hfx := x.fractionField_lt
  have hfy := y.fractionField_lt
  rw [binade, binade] at hbinade
  rw [significand, significand, twoTo_eq] at hsignificand
  split_ifs at hsignificand <;> omega

/-- A number without a significand is zero. -/
lemma isZero_of_significand (h : x.significand = 0) : x.isZero = true := by
  have hexponent : x.exponentField = 0 := by
    by_contra hne
    rw [significand, if_neg hne] at h
    exact absurd (Nat.add_eq_zero_iff.mp h).2 (Nat.two_pow_pos 52).ne'
  rw [significand, if_pos hexponent] at h
  simp [isZero, hexponent, h]

/-- **Two numbers that equal one integer** are the same, or zeros of either sign. -/
theorem eq_or_isZero_of_toInt? (hx : x.toInt? = some n) (hy : y.toInt? = some n) :
    x = y ∨ x.isZero = true ∧ y.isZero = true := by
  obtain ⟨k, hkx, hnx⟩ := significand_mul_of_toInt? hx
  obtain ⟨l, hly, hny⟩ := significand_mul_of_toInt? hy
  obtain rfl : k = l := by split_ifs at hnx hny <;> omega
  obtain ⟨hexponent, hfraction⟩ := eq_of_magnitude (hkx.trans hly.symm)
  by_cases hsign : x.isNegative = y.isNegative
  · exact Or.inl (ext_fields hsign hexponent hfraction)
  · -- an integer and its opposite are equal
    obtain rfl : k = 0 := by
      cases hsx : x.isNegative <;> cases hsy : y.isNegative <;>
        simp [hsx, hsy] at hnx hny hsign <;> omega
    rw [Nat.zero_mul, Nat.mul_eq_zero] at hkx hly
    have hpow : ∀ m : Nat, 2 ^ m ≠ 0 := fun m => (Nat.two_pow_pos m).ne'
    exact Or.inr ⟨isZero_of_significand (hkx.resolve_right (hpow _)),
      isZero_of_significand (hly.resolve_right (hpow _))⟩

end PipelineAudit.Binary64
