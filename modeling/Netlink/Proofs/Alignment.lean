import Mathlib.Order.Bounds.Defs
import Netlink.Attribute
import Netlink.Proofs.Bytes

/-!
# Rounding up on words

`align` rounds up like `roundUp` as long as the result is a word. Above the largest multiple of four
there are three words, and these it rounds down. Offsets may be counted from any multiple of four,
since such a multiple may be added before or after rounding. Main statement:
`align_least_multiple`.
-/

namespace Netlink

/-! ## Numbers -/

theorem roundUp_le_of_mod {m n : Nat} (h : n ≤ m) (hm : m % 4 = 0) : roundUp n ≤ m := by
  have hle := roundUp_le_roundUp h
  rwa [roundUp_of_mod hm] at hle

theorem isLeast_roundUp (n : Nat) : IsLeast {m | m % 4 = 0 ∧ n ≤ m} (roundUp n) :=
  ⟨⟨roundUp_mod n, le_roundUp n⟩, fun _ hm => roundUp_le_of_mod hm.2 hm.1⟩

theorem roundUp_add_of_mod {a : Nat} (ha : a % 4 = 0) (n : Nat) :
    roundUp (a + n) = a + roundUp n := by
  simp only [roundUp]
  omega

/-! ## Words -/

variable {a m n : UInt64}

theorem toNat_ofNat_of_lt_two_pow_32 {n : Nat} (h : n < 2 ^ 32) : (UInt64.ofNat n).toNat = n :=
  UInt64.toNat_ofNat_of_lt' (Nat.lt_trans h (by decide))

theorem toNat_align_of_le (h : n.toNat ≤ 2 ^ 64 - 4) : (align n).toNat = roundUp n.toNat := by
  rw [toNat_align]
  exact Nat.min_eq_left (roundUp_le_of_mod h (by decide))

theorem toNat_align_ofNat {n : Nat} (h : n ≤ 2 ^ 64 - 4) :
    (align (.ofNat n)).toNat = roundUp n := by
  have hword : (UInt64.ofNat n).toNat = n :=
    UInt64.toNat_ofNat_of_lt' (Nat.lt_of_le_of_lt h (by decide))
  rw [toNat_align_of_le (by omega), hword]

theorem toNat_align_of_lt (h : 2 ^ 64 - 4 < n.toNat) : (align n).toNat = 2 ^ 64 - 4 := by
  have hle := le_roundUp n.toNat
  rw [toNat_align]
  exact Nat.min_eq_right (by omega)

theorem toNat_align_le (n : UInt64) : (align n).toNat ≤ 2 ^ 64 - 4 := by
  rw [toNat_align]
  exact Nat.min_le_right _ _

theorem le_toNat_align (h : (align n).toNat < 2 ^ 64 - 4) : n.toNat ≤ (align n).toNat := by
  by_cases hn : n.toNat ≤ 2 ^ 64 - 4
  · rw [toNat_align_of_le hn]
    exact le_roundUp n.toNat
  · have htop := toNat_align_of_lt (Nat.lt_of_not_le hn)
    omega

theorem align_of_mod (h : n.toNat % 4 = 0) : align n = n := by
  have hlt := n.toNat_lt
  apply UInt64.toNat_inj.mp
  rw [toNat_align_of_le (by omega), roundUp_of_mod h]

theorem align_align (n : UInt64) : align (align n) = align n := align_of_mod (align_mod n)

theorem align_le_align (h : m ≤ n) : align m ≤ align n := by
  have hle := roundUp_le_roundUp (UInt64.le_iff_toNat_le.mp h)
  rw [UInt64.le_iff_toNat_le, toNat_align, toNat_align]
  omega

section Offsets

variable (ha : a.toNat % 4 = 0) (hfits : a.toNat + n.toNat ≤ 2 ^ 64 - 4)
include ha hfits

/-- Neither side of the law for offsets leaves the range of words. -/
theorem toNat_add_align : (a + align n).toNat = a.toNat + (align n).toNat := by
  have hlaw := roundUp_add_of_mod ha n.toNat
  have hle := roundUp_le_of_mod hfits (by decide)
  have hround := toNat_align_of_le (n := n) (by omega)
  rw [UInt64.toNat_add]
  exact Nat.mod_eq_of_lt (by omega)

theorem align_add : align (a + n) = a + align n := by
  have hsum : (a + n).toNat = a.toNat + n.toNat := by
    rw [UInt64.toNat_add]
    exact Nat.mod_eq_of_lt (by omega)
  apply UInt64.toNat_inj.mp
  rw [toNat_add_align ha hfits, toNat_align_of_le (by omega), toNat_align_of_le (by omega), hsum,
    roundUp_add_of_mod ha]

end Offsets

theorem Record.align_size {L : Layout} (hL : L.headerSize % 4 = 0) (r : Record L) :
    align (.ofNat r.size) = .ofNat L.headerSize + align (.ofNat r.payload.length) := by
  have hsize : r.size < 2 ^ 32 := r.size_lt
  have hheader := r.headerSize_le
  have hpayload := r.length_payload
  rw [payloadSize, size] at hpayload
  rw [size] at hsize ⊢
  have hsum : UInt64.ofNat r.bytes.length = .ofNat L.headerSize + .ofNat r.payload.length := by
    rw [← UInt64.ofNat_add]
    congr 1
    omega
  have hfirst := toNat_ofNat_of_lt_two_pow_32 (n := L.headerSize) (by omega)
  have hsecond := toNat_ofNat_of_lt_two_pow_32 (n := r.payload.length) (by omega)
  rw [hsum]
  exact align_add (by rw [hfirst, hL]) (by omega)

theorem Message.alignedSizeFor?_eq (h : 16 + n.toNat ≤ 2 ^ 64 - 4) :
    alignedSizeFor? n = some (16 + align n) := by
  have hsize : sizeFor? n = some (16 + n) := by
    have hheader : (UInt64.ofNat headerSize).toNat = 16 := rfl
    have hsixteen : (16 : UInt64).toNat = 16 := rfl
    rw [sizeFor?, addChecked_eq_some_iff, UInt64.toNat_add, hheader, hsixteen]
    omega
  have hlaw : align (16 + n) = 16 + align n := align_add (by decide) h
  rw [alignedSizeFor?, hsize, Option.map_some, hlaw]

/-- Up to the largest multiple of four, a word is rounded up to the least multiple that is not
below it, and to the largest one beyond. Rounding keeps the order of words, is done with the first
time, and lets a multiple of four through; so the end of a message or an attribute may be counted
from its start or from its payload. -/
theorem align_least_multiple (n : UInt64) :
    (align n).toNat % 4 = 0 ∧ (align n).toNat ≤ 2 ^ 64 - 4 ∧
      (n.toNat ≤ 2 ^ 64 - 4 → IsLeast {m | m % 4 = 0 ∧ n.toNat ≤ m} (align n).toNat) ∧
      (2 ^ 64 - 4 < n.toNat → (align n).toNat = 2 ^ 64 - 4) ∧
      (∀ m, m ≤ n → align m ≤ align n) ∧
      align (align n) = align n ∧
      (∀ a : UInt64, a.toNat % 4 = 0 → a.toNat + n.toNat ≤ 2 ^ 64 - 4 →
        align (a + n) = a + align n ∧ (a + align n).toNat = a.toNat + (align n).toNat) ∧
      (16 + n.toNat ≤ 2 ^ 64 - 4 → Message.alignedSizeFor? n = some (16 + align n)) ∧
      (∀ m : Message, align (.ofNat m.size) = 16 + align (.ofNat m.payload.length)) ∧
      ∀ a : Attribute, align (.ofNat a.size) = 4 + align (.ofNat a.payload.length) := by
  refine ⟨align_mod n, toNat_align_le n, fun hn => ?_, toNat_align_of_lt, fun m => align_le_align,
    align_align n, fun a ha hfits => ⟨align_add ha hfits, toNat_add_align ha hfits⟩,
    Message.alignedSizeFor?_eq, Record.align_size rfl, Record.align_size rfl⟩
  rw [toNat_align_of_le hn]
  exact isLeast_roundUp n.toNat

/-- The largest word is rounded down, and a word a little below is rounded up, also when it is
counted from an offset of four, from where it comes to the largest multiple. -/
theorem align_least_multiple_top :
    (align 18446744073709551615).toNat = 18446744073709551612 ∧
      align 18446744073709551600 ≤ align 18446744073709551615 ∧
      IsLeast {m | m % 4 = 0 ∧ 18446744073709551605 ≤ m} (align 18446744073709551605).toNat ∧
      align (4 + 18446744073709551605) = 4 + align 18446744073709551605 ∧
      Message.alignedSizeFor? 18446744073709551593 = some (16 + align 18446744073709551593) := by
  obtain ⟨_, _, _, htop, hmono, _⟩ := align_least_multiple 18446744073709551615
  obtain ⟨_, _, hleast, _, _, _, hlaw, _⟩ := align_least_multiple 18446744073709551605
  obtain ⟨_, _, _, _, _, _, _, hsize, _⟩ := align_least_multiple 18446744073709551593
  exact ⟨htop (by decide), hmono _ (by decide), hleast (by decide),
    (hlaw 4 (by decide) (by decide)).1, hsize (by decide)⟩

end Netlink
