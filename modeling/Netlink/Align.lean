import Netlink.Bytes

/-!
# Alignment

Messages and attributes start at multiples of four. `roundUp` serves lengths that are known to be
small. `align` serves words that a caller chose freely: it adds and masks on 64 bits and stops at
the largest multiple of four instead of wrapping. Main statement: `toNat_align`, by which the two
agree wherever the rounded value is a 64-bit word.
-/

namespace Netlink

def boundary : Nat := 4

def roundUp (n : Nat) : Nat := (n + 3) / 4 * 4

def addChecked (a b : UInt64) : Option UInt64 :=
  let sum := a + b
  if sum < a then none else some sum

/-- Sum of two words, or the largest word where it leaves the 64-bit range. -/
def addSat (a b : UInt64) : UInt64 := (addChecked a b).getD (-1)

def align (n : UInt64) : UInt64 := addSat n 3 &&& ~~~3

theorem roundUp_mod (n : Nat) : roundUp n % 4 = 0 := by
  simp [roundUp]

theorem le_roundUp (n : Nat) : n ≤ roundUp n := by
  simp only [roundUp]
  omega

theorem roundUp_lt (n : Nat) : roundUp n < n + 4 := by
  simp only [roundUp]
  omega

theorem roundUp_of_mod {n : Nat} (h : n % 4 = 0) : roundUp n = n := by
  simp only [roundUp]
  omega

theorem addChecked_eq_some_iff {a b c : UInt64} :
    addChecked a b = some c ↔ a.toNat + b.toNat = c.toNat := by
  have ha := a.toNat_lt
  have hb := b.toNat_lt
  have hc := c.toNat_lt
  simp only [addChecked, UInt64.lt_iff_toNat_lt, UInt64.toNat_add]
  split
  · simp only [reduceCtorEq, false_iff]
    omega
  · simp only [Option.some.injEq, ← UInt64.toNat_inj, UInt64.toNat_add]
    omega

theorem addChecked_eq_none_iff {a b : UInt64} :
    addChecked a b = none ↔ 1 <<< 64 ≤ a.toNat + b.toNat := by
  have ha := a.toNat_lt
  have hb := b.toNat_lt
  simp only [addChecked, UInt64.lt_iff_toNat_lt, UInt64.toNat_add]
  split
  · simp only [true_iff]
    omega
  · simp only [reduceCtorEq, false_iff]
    omega

theorem toNat_addSat (a b : UInt64) :
    (addSat a b).toNat = min (a.toNat + b.toNat) (1 <<< 64 - 1) := by
  cases h : addChecked a b with
  | none =>
    have := addChecked_eq_none_iff.mp h
    have hmax : (-1 : UInt64).toNat = 1 <<< 64 - 1 := rfl
    simp only [addSat, h, Option.getD_none, hmax]
    omega
  | some c =>
    have := addChecked_eq_some_iff.mp h
    have hc := c.toNat_lt
    simp only [addSat, h, Option.getD_some]
    omega

theorem and_mask (n : UInt64) : n &&& ~~~(3 : UInt64) = n >>> 2 <<< 2 := by
  apply UInt64.toBitVec_inj.mp
  ext i hi
  have hthree : Nat.testBit 3 i = decide (i < 2) := Nat.testBit_two_pow_sub_one 2 i
  have hbit : (3#64)[i] = decide (i < 2) := by
    rw [← hthree]; rfl
  have hword : (3 : UInt64).toBitVec = 3#64 := rfl
  simp only [UInt64.toBitVec_and, UInt64.toBitVec_not, hword, BitVec.getElem_and,
    BitVec.getElem_not, hbit]
  by_cases h : i < 2
  · simp [h]
  · have hi' : 2 + (i - 2) = i := by omega
    simp [h, hi', hi]

theorem toNat_and_mask (n : UInt64) : (n &&& ~~~(3 : UInt64)).toNat = n.toNat / 4 * 4 := by
  have hlt := n.toNat_lt
  have htwo : (2 : UInt64).toNat % 64 = 2 := rfl
  rw [and_mask, UInt64.toNat_shiftLeft, UInt64.toNat_shiftRight, htwo]
  simp only [Nat.shiftLeft_eq, Nat.shiftRight_eq_div_pow]
  omega

/-- Rounding up on words stops at the largest multiple of four. -/
theorem toNat_align (n : UInt64) : (align n).toNat = min (roundUp n.toNat) (1 <<< 64 - 4) := by
  have hthree : (3 : UInt64).toNat = 3 := rfl
  have hlt := n.toNat_lt
  simp only [align, toNat_and_mask, toNat_addSat, roundUp, hthree]
  omega

theorem align_mod (n : UInt64) : (align n).toNat % 4 = 0 := by
  have := roundUp_mod n.toNat
  rw [toNat_align]
  omega

end Netlink
