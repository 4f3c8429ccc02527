import Netlink.Attribute.Writer
import Netlink.Proofs.Alignment
import Netlink.Proofs.Draft.Parts

/-!
# What attribute appends write

One statement for each operation of the attribute writer: what the draft holds after it, given that
it was not refused. An attribute is appended as `Attribute.encode` and its padding; a nest is
opened as a header of length zero, which `nestEnd` alone overwrites.
-/

namespace Netlink

section Results

variable {ε ε' α β : Type} {result : Except ε α}

theorem eq_ok_of_map {f : α → β} {b : β} (h : result.map f = .ok b) :
    ∃ a, result = .ok a ∧ f a = b := by
  cases result with
  | error e => cases h
  | ok a => exact ⟨a, rfl, Except.ok.inj h⟩

theorem eq_ok_of_mapError {f : ε → ε'} {a : α} (h : result.mapError f = .ok a) :
    result = .ok a := by
  cases result with
  | error e => cases h
  | ok a => exact congrArg Except.ok (Except.ok.inj h)

end Results

namespace Attribute

def encode (type : UInt16) (payload : Bytes) : Bytes :=
  Draft.attributeHeader (headerSize + payload.length) type ++ payload

end Attribute

namespace Draft

@[simp] theorem length_attributeHeader (size : Nat) (type : UInt16) :
    (attributeHeader size type).length = 4 := by
  simp [attributeHeader]

@[simp] theorem length_encode_attribute (type : UInt16) (payload : Bytes) :
    (Attribute.encode type payload).length = 4 + payload.length := by
  simp [Attribute.encode]

variable {d e : Draft} {type : UInt16} {region : Region}

theorem extend_ok {count : UInt64} (h : d.extend count = .ok (region, e)) :
    region = ⟨d.size, count.toNat⟩ ∧ d.size + (align count).toNat ≤ maxSize ∧
      Appended d (Bytes.zeros (align count).toNat) e := by
  unfold extend at h
  split at h
  · rename_i hfits
    cases h
    exact ⟨rfl, hfits, d.appended_grow (align_mod count) hfits⟩
  · cases h

theorem extend_ok_of_le {count : UInt64} (h : d.extend count = .ok (region, e))
    (hcount : count.toNat ≤ 65535) :
    region = ⟨d.size, count.toNat⟩ ∧
      Appended d (Bytes.zeros (roundUp count.toNat)) e := by
  obtain ⟨hregion, _, happended⟩ := extend_ok h
  rw [toNat_align_of_le (by omega)] at happended
  exact ⟨hregion, happended⟩

theorem extend_fill_ok {count : UInt64} {data : Bytes}
    (h : ((d.extend count).map fun (region, e) => e.fill region data) = .ok e) :
    ∃ written, written.length = (align count).toNat ∧ Appended d written e := by
  obtain ⟨⟨region, grown⟩, hextend, rfl⟩ := eq_ok_of_map h
  obtain ⟨rfl, hfits, happended⟩ := extend_ok hextend
  rw [maxSize] at hfits
  have hle := le_toNat_align (n := count) (by omega)
  have hnew : (data.take count.toNat).length ≤ (align count).toNat := by
    rw [List.length_take]
    omega
  have hwritten := happended.write_zeros (data.take count.toNat) hnew
  refine ⟨_, ?_, hwritten⟩
  rw [List.length_append, Bytes.length_zeros]
  omega

theorem reserve_ok {count : UInt64} (h : d.reserve type count = .ok (region, e)) :
    4 + count.toNat ≤ maxAttributeSize ∧ region = ⟨d.size + 4, count.toNat⟩ ∧
      Appended d (Attribute.encode type (Bytes.zeros count.toNat)).padded e := by
  have hfour : (UInt64.ofNat Attribute.headerSize).toNat = 4 := rfl
  have hsize := toNat_addSat (.ofNat Attribute.headerSize) count
  rw [hfour] at hsize
  rw [reserve] at h
  generalize addSat (.ofNat Attribute.headerSize) count = size at h hsize
  split at h
  · cases h
  · rename_i hle
    rw [maxAttributeSize] at hle
    have hsize' : size.toNat = 4 + count.toNat := by omega
    split at h
    · cases h
    · rename_i place d' hextend
      cases h
      obtain ⟨rfl, happended⟩ := extend_ok_of_le hextend (by omega)
      refine ⟨by rw [maxAttributeSize]; omega, rfl, ?_⟩
      have hup := le_roundUp size.toNat
      have hwritten := happended.write_zeros (attributeHeader size.toNat type)
        (by rw [length_attributeHeader]; omega)
      rw [length_attributeHeader] at hwritten
      have hpadded : (Attribute.encode type (Bytes.zeros count.toNat)).padded =
          attributeHeader size.toNat type ++ Bytes.zeros (roundUp size.toNat - 4) := by
        rw [Bytes.padded, length_encode_attribute, Bytes.length_zeros, ← hsize', Attribute.encode,
          Bytes.length_zeros, Attribute.headerSize, ← hsize', List.append_assoc,
          Bytes.zeros_eq_append (show count.toNat ≤ roundUp size.toNat - 4 by omega)]
        congr 3
        omega
      rw [hpadded]
      exact hwritten

def filled (count : Nat) (fill : Bytes → Bytes) : Bytes :=
  (Bytes.zeros count).overwrite 0 ((fill (Bytes.zeros count)).take count)

@[simp] theorem length_filled (count : Nat) (fill : Bytes → Bytes) :
    (filled count fill).length = count := by
  simp [filled]

theorem contents_reserved {count : Nat} {rest : Bytes}
    (h : Appended d (attributeHeader (4 + count) type ++ (Bytes.zeros count ++ rest)) e) :
    e.contents ⟨d.size + 4, count⟩ = Bytes.zeros count := by
  have hcontents := h.contents
  rwa [length_attributeHeader, Bytes.length_zeros] at hcontents

theorem padded_encode (type : UInt16) (payload : Bytes) :
    (Attribute.encode type payload).padded =
      attributeHeader (4 + payload.length) type ++
        (payload ++ Bytes.zeros (roundUp (4 + payload.length) - (4 + payload.length))) := by
  rw [Bytes.padded, length_encode_attribute, Attribute.encode, Attribute.headerSize,
    List.append_assoc]

theorem putWith_ok {count : UInt64} {fill : Bytes → Bytes}
    (h : d.putWith type count fill = .ok e) :
    4 + count.toNat ≤ maxAttributeSize ∧
      Appended d (Attribute.encode type (filled count.toNat fill)).padded e := by
  rw [putWith] at h
  obtain ⟨⟨region, d'⟩, hreserve, rfl⟩ := eq_ok_of_map h
  obtain ⟨hfits, rfl, happended⟩ := reserve_ok hreserve
  refine ⟨hfits, ?_⟩
  rw [padded_encode, Bytes.length_zeros] at happended
  rw [padded_encode, length_filled]
  show Appended d _ (d'.write (d.size + 4) ((fill (d'.contents _)).take count.toNat))
  rw [contents_reserved happended]
  refine happended.write (by simp) _ ?_
  rw [List.length_take, Bytes.length_zeros]
  exact Nat.min_le_left _ _

theorem toNat_ofNatClamp (n : Nat) : (UInt64.ofNatClamp n).toNat = min n (2 ^ 64 - 1) := by
  rw [UInt64.ofNatClamp]
  split
  · rename_i h
    rw [UInt64.size] at h
    rw [UInt64.toNat_ofNatLT]
    omega
  · rename_i h
    rw [UInt64.size] at h
    rw [UInt64.toNat_ofNatLT, UInt64.size]
    omega

theorem put_ok {payload : Bytes} (h : d.put type payload = .ok e) :
    4 + payload.length ≤ maxAttributeSize ∧
      Appended d (Attribute.encode type payload).padded e := by
  obtain ⟨hfits, happended⟩ := putWith_ok h
  have hcount : (UInt64.ofNatClamp payload.length).toNat = payload.length := by
    rw [maxAttributeSize, toNat_ofNatClamp] at hfits
    rw [toNat_ofNatClamp]
    omega
  rw [hcount] at hfits happended
  refine ⟨hfits, ?_⟩
  have hfilled : filled payload.length (fun _ => payload) = payload := by
    rw [filled, List.take_length, Bytes.overwrite_zero_of_length_eq (by simp)]
  rwa [hfilled] at happended

end Draft

/-! ## Leaves -/

inductive Leaf where
  | bytes (type : UInt16) (payload : Bytes)
  | filled (type : UInt16) (count : UInt64) (fill : Bytes → Bytes)
  | u8 (type : UInt16) (value : UInt8)
  | u16 (type : UInt16) (value : UInt16)
  | u32 (type : UInt16) (value : UInt32)
  | u64 (type : UInt16) (value : UInt64)
  | be16 (type : UInt16) (value : UInt16)
  | be32 (type : UInt16) (value : UInt32)
  | be64 (type : UInt16) (value : UInt64)
  | flag (type : UInt16)
  | text (type : UInt16) (value : String)
  | textZ (type : UInt16) (value : String)

namespace Leaf

def appendTo (d : Draft) : Leaf → Except AttributeError Draft
  | bytes type payload => d.put type payload
  | filled type count fill => d.putWith type count fill
  | u8 type value => d.putU8 type value
  | u16 type value => d.putU16 type value
  | u32 type value => d.putU32 type value
  | u64 type value => d.putU64 type value
  | be16 type value => d.putBE16 type value
  | be32 type value => d.putBE32 type value
  | be64 type value => d.putBE64 type value
  | flag type => d.putFlag type
  | text type value => d.putText type value
  | textZ type value => d.putTextZ type value

def type : Leaf → UInt16
  | bytes type _ | filled type _ _ | u8 type _ | u16 type _ | u32 type _ | u64 type _
  | be16 type _ | be32 type _ | be64 type _ | flag type | text type _ | textZ type _ => type

def rawType : Leaf → UInt16
  | be16 type _ | be32 type _ | be64 type _ => type ||| Attribute.networkFlag
  | leaf => leaf.type

def payload : Leaf → Bytes
  | bytes _ payload => payload
  | filled _ count fill => Draft.filled count.toNat fill
  | u8 _ value => Bytes.encodeLE 1 value.toNat
  | u16 _ value => Bytes.encodeLE 2 value.toNat
  | u32 _ value => Bytes.encodeLE 4 value.toNat
  | u64 _ value => Bytes.encodeLE 8 value.toNat
  | be16 _ value => Bytes.encodeBE 2 value.toNat
  | be32 _ value => Bytes.encodeBE 4 value.toNat
  | be64 _ value => Bytes.encodeBE 8 value.toNat
  | flag _ => []
  | text _ value => Bytes.ofText value
  | textZ _ value => Bytes.ofText value ++ [0]

theorem appendTo_ok {d e : Draft} {leaf : Leaf} (h : leaf.appendTo d = .ok e) :
    4 + leaf.payload.length ≤ Draft.maxAttributeSize ∧
      Draft.Appended d (Attribute.encode leaf.rawType leaf.payload).padded e := by
  cases leaf with
  | filled type count fill =>
      rw [payload, Draft.length_filled]
      exact Draft.putWith_ok h
  | _ => exact Draft.put_ok h

end Leaf

/-! ## Nests -/

namespace Draft

variable {d e : Draft} {type : UInt16} {nest : Nest}

theorem nestStart_ok (h : d.nestStart type = .ok (nest, e)) :
    nest.type = type ∧ nest.offset = d.size ∧
      Appended d (attributeHeader 0 (type ||| Attribute.nestedFlag)) e := by
  unfold nestStart at h
  split at h
  · cases h
  · rename_i region d' hextend
    cases h
    obtain ⟨rfl, happended⟩ := extend_ok_of_le hextend (by decide)
    have hwritten := happended.write_zeros (attributeHeader 0 (type ||| Attribute.nestedFlag))
      (by rw [length_attributeHeader]; decide)
    rw [length_attributeHeader] at hwritten
    exact ⟨rfl, rfl, (List.append_nil (attributeHeader 0 _)) ▸ hwritten⟩

theorem patch_ok {offset : Nat} {data : Bytes} (h : d.patch offset data = .ok e) :
    offset + data.length ≤ d.size ∧ e = d.write offset data := by
  unfold patch at h
  split at h
  · rename_i hfits
    cases h
    exact ⟨hfits, rfl⟩
  · cases h

theorem nestEnd_ok (h : d.nestEnd nest = .ok e) :
    nest.offset + 4 ≤ d.size ∧ d.size - nest.offset ≤ maxAttributeSize ∧
      e = d.write nest.offset (Bytes.encodeLE 2 (d.size - nest.offset)) := by
  unfold nestEnd at h
  split at h
  · cases h
  · rename_i hfits
    rw [Attribute.headerSize] at hfits
    simp only at h
    split at h
    · cases h
    · rename_i hsize
      obtain ⟨_, rfl⟩ := patch_ok (eq_ok_of_mapError h)
      exact ⟨by omega, by omega, rfl⟩

theorem truncate_ok {count : Nat} (h : d.truncate count = .ok e) :
    e.size = count ∧ e.before = d.before ∧ e.header = { d.header with size := .ofNat e.size } ∧
      e.payload = d.payload.take (count - 16) := by
  unfold truncate at h
  split at h
  · rename_i hcount
    cases h
    have hsize := d.size_cut count hcount.1 hcount.2.1 hcount.2.2
    refine ⟨hsize, rfl, ?_, d.payload_cut hcount.1 hcount.2.1 hcount.2.2⟩
    rw [hsize]
    exact d.header_cut hcount.1 hcount.2.1 hcount.2.2
  · cases h

theorem nestCancel_ok (h : d.nestCancel nest = .ok e) : d.truncate nest.offset = .ok e :=
  eq_ok_of_mapError h

theorem nestCancel_of_le (h : nest.offset ≤ d.size) : ∃ e, d.nestCancel nest = .ok e := by
  rw [nestCancel, truncate, dif_pos ⟨nest.headerSize_le, h, nest.aligned⟩]
  exact ⟨_, rfl⟩

end Draft

end Netlink
