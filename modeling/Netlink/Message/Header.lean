import Netlink.Bytes

/-!
# Message headers

The sixteen bytes that open a message: length, type, flags, sequence number and port. Main
statements: `Header.decode_encode` and `Header.encode_decode`, by which headers and their bytes
determine each other.
-/

namespace Netlink

structure Header where
  size : UInt32 := 0
  type : UInt16 := 0
  flags : UInt16 := 0
  seq : UInt32 := 0
  port : UInt32 := 0
  deriving DecidableEq, Repr

namespace Header

def encode (h : Header) : Bytes :=
  Bytes.encodeLE 4 h.size.toNat ++ Bytes.encodeLE 2 h.type.toNat ++
    Bytes.encodeLE 2 h.flags.toNat ++ Bytes.encodeLE 4 h.seq.toNat ++
    Bytes.encodeLE 4 h.port.toNat

/-- The header at the front of `bs`. Bytes that are missing count as zero. -/
def decode (bs : Bytes) : Header where
  size := .ofNat (bs.slice 0 4).decodeLE
  type := .ofNat (bs.slice 4 2).decodeLE
  flags := .ofNat (bs.slice 6 2).decodeLE
  seq := .ofNat (bs.slice 8 4).decodeLE
  port := .ofNat (bs.slice 12 4).decodeLE

def read? (bs : Bytes) : Option Header :=
  if 16 ≤ bs.length then some (decode bs) else none

@[simp] theorem length_encode (h : Header) : h.encode.length = 16 := by
  simp [encode]

theorem decode_encode (h : Header) (rest : Bytes) : decode (h.encode ++ rest) = h := by
  simp [decode, encode, Bytes.slice, List.drop_append, Bytes.decodeLE_encodeLE,
    List.drop_of_length_le]

private theorem encodeLE_slice (bs : Bytes) (offset : Nat) {width value : Nat}
    (hfits : offset + width ≤ bs.length)
    (hvalue : value = (bs.slice offset width).decodeLE % (1 <<< (8 * width))) :
    Bytes.encodeLE width value = bs.slice offset width := by
  have hlength : (bs.slice offset width).length = width := by
    rw [Bytes.length_slice]
    omega
  have h := Bytes.encodeLE_decodeLE (bs.slice offset width)
  rw [hlength] at h
  rw [hvalue, Bytes.encodeLE_mod, h]

theorem encode_decode {bs : Bytes} (h : 16 ≤ bs.length) : (decode bs).encode = bs.take 16 := by
  simp only [encode, decode]
  rw [encodeLE_slice bs 0 (by omega) (by simp),
    encodeLE_slice bs 4 (by omega) (by simp),
    encodeLE_slice bs 6 (by omega) (by simp),
    encodeLE_slice bs 8 (by omega) (by simp),
    encodeLE_slice bs 12 (by omega) (by simp)]
  rw [Bytes.slice_append_slice bs 0 4 2, Bytes.slice_append_slice bs 0 6 2,
    Bytes.slice_append_slice bs 0 8 4, Bytes.slice_append_slice bs 0 12 4]
  simp [Bytes.slice]

end Header

end Netlink
