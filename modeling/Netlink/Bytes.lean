/-!
# Byte strings

Fixed-width integers inside byte strings, least significant byte first (`decodeLE`, `encodeLE`) or
last (`decodeBE`, `encodeBE`), and the few ways in which a byte string is cut and overwritten.
Main statements: a value that fits its width is read back, every byte string is the encoding of
its value, and an overwrite never changes a length.
-/

namespace Netlink

abbrev Bytes := List UInt8

namespace Bytes

def decodeLE : Bytes → Nat
  | [] => 0
  | b :: bs => b.toNat + 256 * decodeLE bs

def encodeLE : (width value : Nat) → Bytes
  | 0, _ => []
  | width + 1, value => UInt8.ofNat value :: encodeLE width (value / 256)

def decodeBE (bs : Bytes) : Nat := decodeLE bs.reverse

def encodeBE (width value : Nat) : Bytes := (encodeLE width value).reverse

def zeros (n : Nat) : Bytes := List.replicate n 0

/-- The bytes of `bs` at `offset`, at most `count` of them. -/
def slice (bs : Bytes) (offset count : Nat) : Bytes := (bs.drop offset).take count

/-- `data` laid over `bs` from `offset` on; what would reach past the end of `bs` is dropped. -/
def overwrite (bs : Bytes) (offset : Nat) (data : Bytes) : Bytes :=
  bs.take offset ++ data.take (bs.length - offset) ++ bs.drop (offset + data.length)

def ofText (text : String) : Bytes := text.toUTF8.data.toList

def toText? (bs : Bytes) : Option String := String.fromUTF8? ⟨bs.toArray⟩

@[simp] theorem length_encodeLE (width value : Nat) : (encodeLE width value).length = width := by
  induction width generalizing value with
  | zero => rfl
  | succ width ih => simp [encodeLE, ih]

@[simp] theorem length_encodeBE (width value : Nat) : (encodeBE width value).length = width := by
  simp [encodeBE]

@[simp] theorem length_zeros (n : Nat) : (zeros n).length = n := by simp [zeros]

private theorem bound_succ (width : Nat) :
    1 <<< (8 * (width + 1)) = 256 * (1 <<< (8 * width)) := by
  rw [Nat.mul_succ, Nat.shiftLeft_add, Nat.shiftLeft_eq _ 8, Nat.mul_comm]

theorem decodeLE_lt (bs : Bytes) : decodeLE bs < 1 <<< (8 * bs.length) := by
  induction bs with
  | nil => simp [decodeLE]
  | cons b bs ih =>
    have hb : b.toNat < 256 := b.toNat_lt
    rw [decodeLE, List.length_cons, bound_succ]
    omega

theorem decodeLE_encodeLE (width value : Nat) :
    decodeLE (encodeLE width value) = value % (1 <<< (8 * width)) := by
  induction width generalizing value with
  | zero => simp [encodeLE, decodeLE, Nat.mod_one]
  | succ width ih =>
    rw [encodeLE, decodeLE, ih, UInt8.toNat_ofNat', bound_succ]
    exact (Nat.mod_mul).symm

theorem encodeLE_decodeLE (bs : Bytes) : encodeLE bs.length (decodeLE bs) = bs := by
  induction bs with
  | nil => rfl
  | cons b bs ih =>
    have hb : b.toNat < 256 := b.toNat_lt
    have hdiv : (b.toNat + 256 * decodeLE bs) / 256 = decodeLE bs := by omega
    have hhead : UInt8.ofNat (b.toNat + 256 * decodeLE bs) = b := by
      apply UInt8.toNat_inj.mp
      rw [UInt8.toNat_ofNat']
      omega
    simp only [decodeLE, List.length_cons, encodeLE, hdiv, hhead, ih]

theorem encodeLE_mod (width value : Nat) :
    encodeLE width (value % (1 <<< (8 * width))) = encodeLE width value := by
  have h := encodeLE_decodeLE (encodeLE width value)
  rwa [length_encodeLE, decodeLE_encodeLE] at h

theorem length_slice (bs : Bytes) (offset count : Nat) :
    (bs.slice offset count).length = min count (bs.length - offset) := by
  simp [slice]

theorem slice_append_slice (bs : Bytes) (offset first second : Nat) :
    bs.slice offset first ++ bs.slice (offset + first) second =
      bs.slice offset (first + second) := by
  simp only [slice, List.take_add, List.drop_drop]

@[simp] theorem length_overwrite (bs : Bytes) (offset : Nat) (data : Bytes) :
    (bs.overwrite offset data).length = bs.length := by
  simp only [overwrite, List.length_append, List.length_take, List.length_drop]
  omega

end Bytes

end Netlink
