import Netlink.Attribute
import Netlink.Proofs.Draft.Parts
import Netlink.Proofs.Stream.Cursor

/-!
# Positions that cannot be trusted

The offset of a position and the count of bytes left come from a caller and may both be wrong, near
the ends of their ranges or unrelated to the buffer. `Exact` says in unbounded numbers what is
answered there, and `Reads` that an accepted record is read without a step that fails. Main
statement: `cursor_exact`, for positions of messages and of attributes.
-/

namespace Netlink

namespace Position

variable {L : Layout} {p : Position L} {remaining : Int64} {r : Record L}

def field (p : Position L) (width : Nat) : Nat :=
  Bytes.decodeLE (p.buffer.slice p.offset.toNat width)

/-- The record `r` is read at the position: its length, its end, its bytes and its payload are all
there, and neither sum nor difference leaves the range of words. -/
structure Reads (p : Position L) (r : Record L) : Prop where
  declared : p.declared? = some (.ofNat r.size)
  stop_lt : p.offset.toNat + r.size < 2 ^ 64
  bytes : p.bytes? (.ofNat r.size) = some r.bytes
  exact : Record.ofExact? r.bytes = some r
  payload : r.size = L.headerSize + r.payload.length

/-- What a position answers, given a length field of `width` bytes and headers of `header` bytes.
A step leads over the rounded number in the length field, or nowhere where the field is not in the
buffer. -/
structure Exact (p : Position L) (remaining : Int64) (width header : Nat) : Prop where
  ok_iff : p.ok remaining = true ↔
    (header : Int) ≤ remaining.toInt ∧ p.offset.toNat + width ≤ p.buffer.length ∧
      header ≤ p.field width ∧ (p.field width : Int) ≤ remaining.toInt ∧
      p.offset.toNat + p.field width ≤ p.buffer.length
  isSome_record? : (p.record? remaining).isSome = p.ok remaining
  record : ∀ r, p.record? remaining = some r →
    r.bytes = p.buffer.slice p.offset.toNat (p.field width) ∧ r.size = p.field width ∧ p.Reads r
  next :
    let passed := if p.offset.toNat + width ≤ p.buffer.length then p.field width else 0
    let step := (align (.ofNat passed)).toNat
    (p.next remaining).1.buffer = p.buffer ∧
      (p.next remaining).1.offset.toNat = min (p.offset.toNat + step) (2 ^ 64 - 1) ∧
      (p.next remaining).2.toInt = max (remaining.toInt - step) (-2 ^ 63)

theorem Reads.record_eq_slice (h : p.Reads r) :
    r.bytes = p.buffer.slice p.offset.toNat r.size := by
  have hsize : (UInt64.ofNat r.size).toNat = r.size := toNat_ofNat_of_lt_two_pow_32 r.size_lt
  obtain ⟨stop, _, hinside⟩ := Option.bind_eq_some_iff.mp h.bytes
  rw [Option.ite_none_right_eq_some, Option.some.injEq, hsize] at hinside
  exact hinside.2.symm

theorem reads_of_ok (hp : p.Fits) (hok : p.ok remaining = true) :
    ∃ r, p.record? remaining = some r ∧ r.size = p.declared ∧ p.Reads r := by
  obtain ⟨_, hfield, hheader, _, hinside⟩ := (ok_iff hp remaining).mp hok
  have hlength : (p.buffer.drop p.offset.toNat).length = p.buffer.length - p.offset.toNat :=
    List.length_drop
  have hfront : (p.buffer.slice p.offset.toNat p.declared).length = p.declared := by
    rw [Bytes.length_slice]
    omega
  have hown : L.declared (p.buffer.slice p.offset.toNat p.declared) = p.declared :=
    Record.declared_take hheader
  let r : Record L := ⟨p.buffer.slice p.offset.toNat p.declared, by omega, by omega⟩
  have hsize : r.size = p.declared := hfront
  have hrecord : p.record? remaining = some r := by
    rw [record?_eq hp, if_pos hok]
    have hfits : p.declared ≤ (p.buffer.drop p.offset.toNat).length := by omega
    exact Record.first?_eq_some_iff.mpr ⟨hheader, hfits, rfl⟩
  refine ⟨r, hrecord, hsize, ?_, ?_, ?_, dif_pos ⟨r.headerSize_le, r.declared_eq⟩, ?_⟩
  · rw [declared?_eq hp, if_pos hfield, hsize]
  · unfold Fits at hp
    omega
  · rw [hsize, bytes?_eq hp, toNat_declared, if_pos hinside]
  · have hpayload := r.length_payload
    rw [Record.payloadSize] at hpayload
    omega

theorem isSome_record? (hp : p.Fits) (remaining : Int64) :
    (p.record? remaining).isSome = p.ok remaining := by
  cases hok : p.ok remaining with
  | true =>
      obtain ⟨r, hrecord, _⟩ := reads_of_ok hp hok
      rw [hrecord, Option.isSome_some]
  | false =>
      rw [record?_eq hp, hok]
      rfl

theorem toInt_next (hp : p.Fits) (remaining : Int64) :
    (p.next remaining).2.toInt = max (remaining.toInt - p.step) (-2 ^ 63) := by
  have hlt := remaining.toInt_lt
  rw [(next_eq hp remaining).2.2, toInt_ofIntClamp_eq]
  omega

theorem exact_of_fits (hp : p.Fits) (remaining : Int64) :
    p.Exact remaining L.lengthWidth L.headerSize where
  ok_iff := ok_iff hp remaining
  isSome_record? := isSome_record? hp remaining
  record := by
    intro r hr
    have hok : p.ok remaining = true := by
      rw [← isSome_record? hp, hr, Option.isSome_some]
    obtain ⟨r', hrecord, hsize, hreads⟩ := reads_of_ok hp hok
    cases hr.symm.trans hrecord
    have hfield : r.size = p.field L.lengthWidth := hsize
    exact ⟨hfield ▸ hreads.record_eq_slice, hfield, hreads⟩
  next := by
    intro passed step
    obtain ⟨hbuffer, hoffset, _⟩ := next_eq hp remaining
    exact ⟨hbuffer, hoffset, toInt_next hp remaining⟩

/-- Whatever offset and count a caller gives, a message or an attribute is found exactly where a
complete one starts by both, and then it is the bytes of its declared length. -/
theorem cursor_exact :
    (∀ (p : Position .message) (remaining : Int64), p.Fits → p.Exact remaining 4 16 ∧
      ∀ m : Message, p.record? remaining = some m →
        Header.read? m.bytes = some m.header ∧ m.header.size.toNat = p.field 4) ∧
      ∀ (p : Position .attr) (remaining : Int64), p.Fits → p.Exact remaining 2 4 ∧
        ∀ a : Attribute, p.record? remaining = some a → (a.bytes.slice 2 2).length = 2 := by
  refine ⟨fun p remaining hp => ⟨exact_of_fits hp remaining, fun m hm => ?_⟩,
    fun p remaining hp => ⟨exact_of_fits hp remaining, fun a ha => ?_⟩⟩
  · have hsize := ((exact_of_fits hp remaining).record m hm).2.1
    refine ⟨if_pos m.headerSize_le, ?_⟩
    rw [Message.header, Header.toNat_size_decode, m.declared_eq]
    exact hsize
  · have hheader : 4 ≤ a.bytes.length := a.headerSize_le
    rw [Bytes.length_slice]
    omega

/-- A message behind four other bytes, with a count that is short by one or far too large; the last
two bytes taken for a length, with the least count there is; and the largest offset. -/
theorem cursor_exact_lying :
    let buffer := [1, 2, 3, 4] ++ Header.encode { size := 17 } ++ [9]
    let whole : Position .message := ⟨buffer, 4⟩
    let beyond : Position .message := ⟨buffer, 18446744073709551615⟩
    let partly : Position .attr := ⟨buffer, 19⟩
    whole.Fits ∧ beyond.Fits ∧ partly.Fits ∧ whole.ok 16 = false ∧
      (∃ m : Message, whole.record? 9223372036854775807 = some m ∧ m.header.size.toNat = 17 ∧
        m.bytes = Header.encode { size := 17 } ++ [9]) ∧
      beyond.ok 9223372036854775807 = false ∧
      (beyond.next 0).1.offset.toNat = 18446744073709551615 ∧
      partly.ok 9223372036854775807 = false ∧
      (partly.next Int64.minValue).1.offset.toNat = 2323 ∧
      (partly.next Int64.minValue).2.toInt = -9223372036854775808 := by
  intro buffer whole beyond partly
  have hlength : buffer.length < 2 ^ 63 := by decide
  have hwhole : whole.Fits := hlength
  have hbeyond : beyond.Fits := hlength
  have hpartly : partly.Fits := hlength
  obtain ⟨hmessage, hattr⟩ := cursor_exact
  have hfound := (hmessage whole 9223372036854775807 hwhole).1
  have hok : whole.ok 9223372036854775807 = true := hfound.ok_iff.mpr (by decide +kernel)
  obtain ⟨m, hm⟩ := Option.isSome_iff_exists.mp (hfound.isSome_record?.trans hok)
  have hsize := ((hmessage whole 9223372036854775807 hwhole).2 m hm).2
  have hbytes := (hfound.record m hm).1
  obtain ⟨_, hstays, _⟩ := (hmessage beyond 0 hbeyond).1.next
  obtain ⟨_, hoffset, hleft⟩ := (hattr partly Int64.minValue hpartly).1.next
  refine ⟨hwhole, hbeyond, hpartly, ?_, ⟨m, hm, ?_, ?_⟩, ?_, ?_, ?_, ?_, ?_⟩
  · rw [← Bool.not_eq_true, (hmessage whole 16 hwhole).1.ok_iff]
    decide +kernel
  · exact hsize.trans (by decide +kernel)
  · exact hbytes.trans (by decide +kernel)
  · rw [← Bool.not_eq_true, (hmessage beyond _ hbeyond).1.ok_iff]
    decide +kernel
  · exact hstays.trans (by decide +kernel)
  · rw [← Bool.not_eq_true, (hattr partly _ hpartly).1.ok_iff]
    decide +kernel
  · exact hoffset.trans (by decide +kernel)
  · exact hleft.trans (by decide +kernel)

end Position

end Netlink
