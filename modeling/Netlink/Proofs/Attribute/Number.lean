import Netlink.Proofs.Attribute.Text
import Netlink.Proofs.Attribute.Writing

/-!
# Number attributes

Attributes hold numbers of four widths, and those of more than one byte in either byte order. All
of them are put and read in the same way, which `put_eq` and `get_eq` say. Main statement:
`put_get`, by which a number is read as it was put, with its bytes reversed in the other byte order,
and any payload that is long enough is read by its first bytes.
-/

namespace Netlink

namespace Bytes

variable {bs : Bytes} {i width : Nat}

/-- The byte of `n` that counts `256 ^ i`. -/
def byteOf (n i : Nat) : Nat := n / 256 ^ i % 256

theorem byteOf_succ (n i : Nat) : byteOf n (i + 1) = byteOf (n / 256) i := by
  rw [byteOf, byteOf, Nat.pow_succ', Nat.div_div_eq_div_mul]

theorem byteOf_decodeLE {b : UInt8} (h : bs[i]? = some b) : byteOf bs.decodeLE i = b.toNat := by
  induction bs generalizing i with
  | nil => cases h
  | cons first bs ih =>
      have hfirst : first.toNat < 256 := first.toNat_lt
      rw [decodeLE]
      cases i with
      | zero =>
          cases h
          rw [byteOf, Nat.pow_zero]
          omega
      | succ i =>
          have hlater : (first.toNat + 256 * decodeLE bs) / 256 = decodeLE bs := by omega
          rw [byteOf_succ, hlater]
          exact ih h

theorem getElem?_encodeLE (h : i < width) (n : Nat) :
    (encodeLE width n)[i]? = some (.ofNat (byteOf n i)) := by
  induction width generalizing i n with
  | zero => exact absurd h (Nat.not_lt_zero i)
  | succ width ih =>
      rw [encodeLE]
      cases i with
      | zero =>
          rw [byteOf, Nat.pow_zero, Nat.div_one, List.getElem?_cons_zero, UInt8.ofNat_mod_size]
      | succ i =>
          rw [byteOf_succ, List.getElem?_cons_succ]
          exact ih (Nat.lt_of_succ_lt_succ h) (n / 256)

/-- What was written in one byte order has its bytes reversed in the other. -/
theorem byteOf_decodeBE_encodeLE (h : i < width) (n : Nat) :
    byteOf (decodeBE (encodeLE width n)) i = byteOf n (width - 1 - i) := by
  have hreversed : (encodeLE width n).reverse[i]? = some (.ofNat (byteOf n (width - 1 - i))) := by
    rw [List.getElem?_reverse (by rw [length_encodeLE]; exact h), length_encodeLE]
    exact getElem?_encodeLE (by omega) n
  rw [decodeBE, byteOf_decodeLE hreversed, UInt8.toNat_ofNat']
  exact Nat.mod_eq_of_lt (Nat.mod_lt _ (by decide))

end Bytes

inductive Number where
  | u8
  | u16
  | u32
  | u64
  | be16
  | be32
  | be64
  deriving DecidableEq, Repr

namespace Number

variable {k : Number} {a : Attribute}

def Word : Number → Type
  | u8 => UInt8
  | u16 | be16 => UInt16
  | u32 | be32 => UInt32
  | u64 | be64 => UInt64

def width : Number → Nat
  | u8 => 1
  | u16 | be16 => 2
  | u32 | be32 => 4
  | u64 | be64 => 8

def isNetworkOrder : Number → Bool
  | be16 | be32 | be64 => true
  | u8 | u16 | u32 | u64 => false

/-- The number of the same width in the other byte order. A single byte has but one order. -/
def swapped : Number → Number
  | u8 => u8
  | u16 => be16
  | u32 => be32
  | u64 => be64
  | be16 => u16
  | be32 => u32
  | be64 => u64

def value : (k : Number) → k.Word → Nat
  | u8, v => UInt8.toNat v
  | u16, v | be16, v => UInt16.toNat v
  | u32, v | be32, v => UInt32.toNat v
  | u64, v | be64, v => UInt64.toNat v

def ofValue : (k : Number) → Nat → k.Word
  | u8, n => UInt8.ofNat n
  | u16, n | be16, n => UInt16.ofNat n
  | u32, n | be32, n => UInt32.ofNat n
  | u64, n | be64, n => UInt64.ofNat n

def put : (k : Number) → Draft → UInt16 → k.Word → Except AttributeError Draft
  | u8, d, type, v => d.putU8 type v
  | u16, d, type, v => d.putU16 type v
  | u32, d, type, v => d.putU32 type v
  | u64, d, type, v => d.putU64 type v
  | be16, d, type, v => d.putBE16 type v
  | be32, d, type, v => d.putBE32 type v
  | be64, d, type, v => d.putBE64 type v

def get : (k : Number) → Attribute → Except AttributeError k.Word
  | u8, a => a.getU8
  | u16, a => a.getU16
  | u32, a => a.getU32
  | u64, a => a.getU64
  | be16, a => a.getBE16
  | be32, a => a.getBE32
  | be64, a => a.getBE64

/-! ## The rules that all numbers share -/

def stored (k : Number) (type : UInt16) : UInt16 :=
  if k.isNetworkOrder then type ||| Attribute.networkFlag else type

def encode (k : Number) (n : Nat) : Bytes :=
  if k.isNetworkOrder then Bytes.encodeBE k.width n else Bytes.encodeLE k.width n

def decode (k : Number) (bs : Bytes) : Nat := if k.isNetworkOrder then bs.decodeBE else bs.decodeLE

theorem put_eq (k : Number) (d : Draft) (type : UInt16) (v : k.Word) :
    k.put d type v = d.put (k.stored type) (k.encode (k.value v)) := by
  cases k <;> rfl

theorem get_eq (k : Number) (a : Attribute) :
    k.get a = (a.front k.width).map fun bs => k.ofValue (k.decode bs) := by
  cases k <;> rfl

theorem ofValue_value (k : Number) (v : k.Word) : k.ofValue (k.value v) = v := by
  cases k with
  | u8 => exact UInt8.ofNat_toNat
  | u16 | be16 => exact UInt16.ofNat_toNat
  | u32 | be32 => exact UInt32.ofNat_toNat
  | u64 | be64 => exact UInt64.ofNat_toNat

theorem value_ofValue (k : Number) (n : Nat) : k.value (k.ofValue n) = n % 2 ^ (8 * k.width) := by
  cases k with
  | u8 => exact UInt8.toNat_ofNat'
  | u16 | be16 => exact UInt16.toNat_ofNat'
  | u32 | be32 => exact UInt32.toNat_ofNat'
  | u64 | be64 => exact UInt64.toNat_ofNat'

theorem value_lt (k : Number) (v : k.Word) : k.value v < 2 ^ (8 * k.width) := by
  rw [← k.ofValue_value v, value_ofValue]
  exact Nat.mod_lt _ (Nat.two_pow_pos _)

@[simp] theorem width_swapped (k : Number) : k.swapped.width = k.width := by
  cases k <;> rfl

@[simp] theorem length_encode_number (k : Number) (n : Nat) : (k.encode n).length = k.width := by
  rw [encode]
  split
  · exact Bytes.length_encodeBE _ _
  · exact Bytes.length_encodeLE _ _

theorem decode_lt (k : Number) (bs : Bytes) : k.decode bs < 2 ^ (8 * bs.length) := by
  rw [← Nat.one_shiftLeft, decode]
  split
  · rw [← List.length_reverse]
    exact Bytes.decodeLE_lt bs.reverse
  · exact Bytes.decodeLE_lt bs

theorem decode_encode_number (k : Number) (v : k.Word) :
    k.decode (k.encode (k.value v)) = k.value v := by
  have hlt := k.value_lt v
  rw [← Nat.one_shiftLeft] at hlt
  rw [decode, encode]
  split
  · rw [Bytes.decodeBE, Bytes.encodeBE, List.reverse_reverse, Bytes.decodeLE_encodeLE,
      Nat.mod_eq_of_lt hlt]
  · rw [Bytes.decodeLE_encodeLE, Nat.mod_eq_of_lt hlt]

theorem byteOf_decode_swapped (k : Number) (n : Nat) {i : Nat} (h : i < k.width) :
    Bytes.byteOf (k.swapped.decode (k.encode n)) i = Bytes.byteOf n (k.width - 1 - i) := by
  cases k <;> exact Bytes.byteOf_decodeBE_encodeLE h n

/-! ## Reading -/

theorem get_of_le (h : k.width ≤ a.payloadSize) :
    k.get a = .ok (k.ofValue (k.decode (a.payload.take k.width))) := by
  rw [Attribute.payloadSize_eq] at h
  rw [get_eq, Attribute.front, if_pos h]
  rfl

theorem get_of_lt (h : a.payloadSize < k.width) :
    k.get a = .error (.tooShort a.type a.payloadSize k.width) := by
  rw [get_eq, Attribute.front, if_neg (by rw [← Attribute.payloadSize_eq]; omega)]
  rfl

theorem isOk_get (k : Number) (a : Attribute) :
    (k.get a).isOk = true ↔ k.width ≤ a.payloadSize := by
  by_cases h : k.width ≤ a.payloadSize
  · rw [get_of_le h]
    exact iff_of_true rfl h
  · rw [get_of_lt (Nat.lt_of_not_le h)]
    exact iff_of_false Bool.false_ne_true h

theorem value_of_get {v : k.Word} (h : k.get a = .ok v) :
    k.value v = k.decode (a.payload.take k.width) := by
  have hlong : k.width ≤ a.payloadSize := (k.isOk_get a).mp (by rw [h]; rfl)
  rw [get_of_le hlong] at h
  cases h
  have hlength : (a.payload.take k.width).length = k.width := by
    rw [List.length_take, ← Attribute.payloadSize_eq]
    exact Nat.min_eq_left hlong
  have hlt := k.decode_lt (a.payload.take k.width)
  rw [hlength] at hlt
  rw [value_ofValue, Nat.mod_eq_of_lt hlt]

theorem get_of_payload {v : k.Word} (h : a.payload = k.encode (k.value v)) : k.get a = .ok v := by
  have hlength : a.payload.length = k.width := by
    rw [h, length_encode_number]
  rw [get_of_le (by rw [Attribute.payloadSize_eq, hlength]), List.take_of_length_le (by omega), h,
    decode_encode_number, ofValue_value]

theorem get_swapped_of_payload {v : k.Word} (h : a.payload = k.encode (k.value v)) :
    ∃ w, k.swapped.get a = .ok w ∧ ∀ i < k.width,
      Bytes.byteOf (k.swapped.value w) i = Bytes.byteOf (k.value v) (k.width - 1 - i) := by
  have hlength : a.payload.length = k.swapped.width := by
    rw [h, length_encode_number, width_swapped]
  have hlong : k.swapped.width ≤ a.payloadSize := by
    rw [Attribute.payloadSize_eq, hlength]
  refine ⟨_, get_of_le hlong, fun i hi => ?_⟩
  rw [value_of_get (get_of_le hlong), List.take_of_length_le (by omega), h]
  exact k.byteOf_decode_swapped _ hi

/-! ## Reading what was put -/

theorem stored_and_typeMask (k : Number) (type : UInt16) :
    k.stored type &&& Attribute.typeMask = type &&& Attribute.typeMask := by
  rw [stored]
  split
  · rw [Attribute.or_and_flag]
    exact UInt16.or_zero
  · rfl

theorem stored_and_networkFlag (h : k.isNetworkOrder = true) (type : UInt16) :
    k.stored type &&& Attribute.networkFlag ≠ 0 := by
  rw [stored, if_pos h, Attribute.or_and_flag, UInt16.and_self]
  intro hzero
  cases (UInt16.or_eq_zero_iff.mp hzero).2

/-- A number is put wherever there is room, under the type that was asked for and with the flag of
its byte order, and read as it was put; in the other byte order its bytes are reversed. From any
payload the first bytes are read, and a payload with too few of them is refused. -/
theorem put_get (k : Number) :
    (∀ (d : Draft) (type : UInt16) (v : k.Word),
      ((k.put d type v).isOk = true ↔ d.size + roundUp (4 + k.width) ≤ Draft.maxSize) ∧
      ∀ e, k.put d type v = .ok e → ∃ a, e.attributesBehind d.payloadSize = [a] ∧
        k.get a = .ok v ∧ a.rawType = k.stored type ∧ a.type = type &&& Attribute.typeMask ∧
        (k.isNetworkOrder = true → a.isNetworkOrder = true) ∧
        ∃ w, k.swapped.get a = .ok w ∧ ∀ i < k.width,
          Bytes.byteOf (k.swapped.value w) i = Bytes.byteOf (k.value v) (k.width - 1 - i)) ∧
      ∀ a : Attribute,
        ((k.get a).isOk = true ↔ k.width ≤ a.payloadSize) ∧
          (∀ v, k.get a = .ok v → k.value v = k.decode (a.payload.take k.width)) ∧
          (a.payloadSize < k.width →
            k.get a = .error (.tooShort a.type a.payloadSize k.width)) := by
  refine ⟨fun d type v => ⟨?_, fun e hput => ?_⟩,
    fun a => ⟨k.isOk_get a, fun v => value_of_get, get_of_lt⟩⟩
  · have hsmall : 4 + k.width ≤ Draft.maxAttributeSize := by
      cases k <;> decide
    rw [put_eq, Draft.isOk_put, length_encode_number]
    exact and_iff_right hsmall
  · rw [put_eq] at hput
    obtain ⟨a, hfound, htype, hpayload⟩ := Leaf.attributesBehind_appendTo
      (show (Leaf.bytes (k.stored type) (k.encode (k.value v))).appendTo d = .ok e from hput)
    have hraw : a.rawType = k.stored type := htype
    refine ⟨a, hfound, get_of_payload hpayload, hraw, ?_, fun hnetwork => ?_,
      get_swapped_of_payload hpayload⟩
    · rw [Attribute.type, hraw, stored_and_typeMask]
    · rw [Attribute.isNetworkOrder, hraw, bne_iff_ne]
      exact stored_and_networkFlag hnetwork type

/-- A number of four bytes in network order under a type with both flags, and a payload of three
bytes, which is too short for it and long enough for a number of two. -/
theorem put_get_reversed :
    let d := Draft.start [7]
    let v : be32.Word := (0x01020304 : UInt32)
    let short : Attribute := ⟨[7, 0, 5, 0x40, 1, 2, 3], by decide, by decide⟩
    (∃ e a w, be32.put d 0xC005 v = .ok e ∧ e.attributesBehind d.payloadSize = [a] ∧
      be32.get a = .ok v ∧ a.type = 5 ∧ a.isNetworkOrder = true ∧ u32.get a = .ok w ∧
      Bytes.byteOf (u32.value w) 0 = 1 ∧ Bytes.byteOf (u32.value w) 3 = 4) ∧
      be32.get short = .error (.tooShort 5 3 4) ∧
      ∃ w, be16.get short = .ok w ∧ be16.value w = 0x0102 := by
  intro d v short
  obtain ⟨hput, hshort⟩ := put_get be32
  obtain ⟨hfits, hread⟩ := hput d 0xC005 v
  obtain ⟨e, he⟩ := isOk_iff.mp (hfits.mpr (by decide))
  obtain ⟨a, hfound, hget, _, htype, hflag, w, hswapped, hbytes⟩ := hread e he
  obtain ⟨hlong, hvalue, _⟩ := (put_get be16).2 short
  obtain ⟨x, hx⟩ := isOk_iff.mp (hlong.mpr (by decide))
  have hrefused := (hshort short).2.2 (by decide)
  have hshortType : short.type = 5 := by decide
  rw [hshortType] at hrefused
  refine ⟨⟨e, a, w, he, hfound, hget, htype, hflag rfl, hswapped, ?_, ?_⟩, hrefused, x, hx, ?_⟩
  · exact (hbytes 0 (by decide)).trans (by decide)
  · exact (hbytes 3 (by decide)).trans (by decide)
  · exact (hvalue x hx).trans (by decide)

end Number

end Netlink
