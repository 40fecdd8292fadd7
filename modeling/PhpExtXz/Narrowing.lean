/-
# PhpExtXz.Narrowing — 64-bit options in narrower fields.

A `zend_long` is stored in fields of 32 and of 64 bits without a sign. The casts reduce it modulo the
width; a field holds the integer that was asked for exactly where it is in range.
-/
import Mathlib.Algebra.GroupWithZero.Nat
import Mathlib.Algebra.Ring.Int.Defs
import PhpExtXz.XzOptions

namespace PhpExtXz

/-- A 32-bit field holds the integer `asked`. -/
def Holds32 (field : UInt32) (asked : ZendLong) : Prop := (field.toNat : Int) = asked.toInt

/-- A 64-bit field holds the integer `asked`. -/
def Holds64 (field : UInt64) (asked : ZendLong) : Prop := (field.toNat : Int) = asked.toInt

instance (field : UInt32) (asked : ZendLong) : Decidable (Holds32 field asked) :=
  inferInstanceAs (Decidable (_ = _))

instance (field : UInt64) (asked : ZendLong) : Decidable (Holds64 field asked) :=
  inferInstanceAs (Decidable (_ = _))

variable {x : ZendLong}

/-- `(uint64_t)x`. -/
theorem toNat_castUInt64 (x : ZendLong) : ((castUInt64 x).toNat : Int) = x.toInt % 2 ^ 64 := by
  have hbits : x.toUInt64.toNat = x.toBitVec.toNat := rfl
  have hlt := x.toBitVec.isLt
  rw [castUInt64, ← Int64.toInt_toBitVec, BitVec.toInt_eq_toNat_cond, hbits]
  split <;> omega

/-- `(uint32_t)x`. -/
theorem toNat_castUInt32 (x : ZendLong) : ((castUInt32 x).toNat : Int) = x.toInt % 2 ^ 32 := by
  have hbits : x.toUInt64.toNat = x.toBitVec.toNat := rfl
  have hlt := x.toBitVec.isLt
  rw [castUInt32, ← Int64.toInt_toBitVec, BitVec.toInt_eq_toNat_cond, UInt64.toNat_toUInt32, hbits]
  split <;> omega

theorem holds32_castUInt32 : Holds32 (castUInt32 x) x ↔ 0 ≤ x.toInt ∧ x.toInt < 2 ^ 32 := by
  unfold Holds32
  rw [toNat_castUInt32]
  omega

/-- No `zend_long` is too large for 64 bits, so that only the sign can be lost. -/
theorem holds64_castUInt64 : Holds64 (castUInt64 x) x ↔ 0 ≤ x.toInt := by
  have hlt := x.toInt_lt
  unfold Holds64
  rw [toNat_castUInt64]
  omega

theorem nonneg_iff : 0 ≤ x ↔ 0 ≤ x.toInt := Int64.le_iff_toInt_le

theorem ne_zero_iff : x ≠ 0 ↔ x.toInt ≠ 0 := by
  rw [ne_eq, ne_eq, ← Int64.toInt_inj]
  rfl

/-! ## The checks on the filter parameters -/

/-- What the validation of both contexts lets through, as integers. -/
structure ParamsChecked (lc lp pb dictSize : ZendLong) : Prop where
  lcRange : -1 ≤ lc.toInt ∧ lc.toInt ≤ 4
  lpRange : -1 ≤ lp.toInt ∧ lp.toInt ≤ 4
  pbRange : -1 ≤ pb.toInt ∧ pb.toInt ≤ 4
  sum : 0 ≤ lc.toInt → 0 ≤ lp.toInt → lc.toInt + lp.toInt ≤ 4
  nonneg : 0 ≤ dictSize.toInt

/-- The sum in the check does not overflow. -/
theorem toInt_add_small {a b : ZendLong} (ha : 0 ≤ a.toInt ∧ a.toInt ≤ 4)
    (hb : 0 ≤ b.toInt ∧ b.toInt ≤ 4) : (a + b).toInt = a.toInt + b.toInt := by
  rw [Int64.toInt_add]
  apply Int.bmod_eq_of_le <;> omega

theorem validateLzmaParams_iff {lc lp pb dictSize : ZendLong} :
    validateLzmaParams lc lp pb dictSize = true ↔ ParamsChecked lc lp pb dictSize := by
  have hfour : (4 : ZendLong).toInt = 4 := rfl
  have hneg : (-1 : ZendLong).toInt = -1 := rfl
  have hzero : (0 : ZendLong).toInt = 0 := rfl
  unfold validateLzmaParams
  simp only [gt_iff_lt, ge_iff_le, Int64.lt_iff_toInt_lt, Int64.le_iff_toInt_le, hfour, hneg, hzero]
  split
  · rename_i hbad
    refine ⟨nofun, fun h => ?_⟩
    obtain ⟨hlc, hlp, hpb, -, -⟩ := h
    omega
  · rename_i hgood
    split
    · rename_i hboth
      refine ⟨nofun, fun h => ?_⟩
      rw [toInt_add_small (by omega) (by omega)] at hboth
      have := h.sum hboth.1 hboth.2.1
      omega
    · rename_i hnot
      have hboth : 0 ≤ lc.toInt → 0 ≤ lp.toInt → lc.toInt + lp.toInt ≤ 4 := by
        intro hlc hlp
        have hsum := toInt_add_small (a := lc) (b := lp) (by omega) (by omega)
        rw [hsum] at hnot
        omega
      split
      · refine ⟨nofun, fun h => ?_⟩
        have := h.nonneg
        omega
      · exact ⟨fun _ => ⟨by omega, by omega, by omega, hboth, by omega⟩, fun _ => rfl⟩

end PhpExtXz
