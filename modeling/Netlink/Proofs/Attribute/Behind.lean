import Netlink.Attribute.Table
import Netlink.Proofs.Attribute.Strict
import Netlink.Proofs.Stream.Cursor

/-!
# Behind an extra header

The attributes of a message may be read in place, by a cursor that starts behind the extra header
with a count of its own, or out of the bytes that are cut off there. Main statement:
`read_behind_header`, by which it makes no difference: every step finds the same attribute and
leaves the same count, and where the header does not fit nothing is found at all.
-/

namespace Netlink

namespace Cursor

variable {L : Layout} {c : Cursor L} {s t : Stream L}

/-- Step by step, the cursor finds the records of the stream and counts what the stream counts. -/
def Mirrors (c : Cursor L) (s : Stream L) : Prop :=
  ∀ n, (c.after n).found = s.records[n]? ∧ (c.after n).remaining.toInt = (s.after n).remaining

theorem Agrees.mirrors {buffer : Bytes} (hbuffer : buffer.length < 2 ^ 63)
    (h : Agrees buffer c s) : Mirrors c s := by
  intro n
  have hagrees := h.after hbuffer n
  rw [Stream.getElem?_records]
  exact ⟨hagrees.found_eq hbuffer, hagrees.remaining⟩

theorem Mirrors.congr (h : Mirrors c s) (hrest : s.rest = t.rest)
    (hcount : s.remaining = t.remaining) : Mirrors c t := by
  intro n
  obtain ⟨hfound, hremaining⟩ := h n
  rw [← Stream.records_congr hrest, ← (Stream.after_congr hrest hcount n).2]
  exact ⟨hfound, hremaining⟩

theorem Mirrors.unique {d : Cursor L} (hc : Mirrors c s) (hd : Mirrors d s) (n : Nat) :
    (c.after n).found = (d.after n).found ∧ (c.after n).remaining = (d.after n).remaining := by
  obtain ⟨hfound, hremaining⟩ := hc n
  obtain ⟨hfound', hremaining'⟩ := hd n
  exact ⟨hfound.trans hfound'.symm, Int64.toInt_inj.mp (hremaining.trans hremaining'.symm)⟩

theorem mirrors_ofBytes {bs : Bytes} (h : bs.length < 2 ^ 63) :
    Mirrors (ofBytes bs : Cursor L) (.ofBytes bs) := (agrees_ofBytes h).mirrors h

/-! ## Cursors with a negative count -/

theorem found_of_neg (h : c.remaining < 0) : c.found = none := by
  have hstop : c.position.ok c.remaining = false := if_pos h
  rw [found, Position.record?, hstop]
  exact if_neg Bool.false_ne_true

theorem after_of_found_none (h : c.found = none) (n : Nat) : c.after n = c := by
  have hstays : c.advance = c := by
    rw [advance, h]
  exact Function.iterate_fixed hstays n

/-- A cursor with a negative count stays where it is and finds nothing. -/
theorem mirrors_of_neg (h : c.remaining < 0) (hrest : s.rest = [])
    (hcount : c.remaining.toInt = s.remaining) : Mirrors c s := by
  intro n
  have hfound := found_of_neg h
  have hnone : Record.first? (L := L) s.rest = none := Record.first?_of_nil hrest
  rw [after_of_found_none hfound, Stream.after_of_none hnone, Stream.records_of_none hnone]
  exact ⟨hfound, hcount⟩

/-! ## Cursors into messages -/

/-- The attributes of `m` behind an extra header of `offset` bytes. Both lengths are cut to signed
words before the difference is taken. -/
def ofMessage (m : Message) (offset : UInt64) : Cursor .attr :=
  let length := Int64.ofIntClamp m.payload.length
  let start := Int64.ofIntClamp (align offset).toNat
  ⟨⟨m.payload, align offset⟩, .ofIntClamp (length.toInt - start.toInt)⟩

end Cursor

namespace Message

theorem length_payload_lt (m : Message) : m.payload.length < 2 ^ 32 := by
  have hsize : m.size < 2 ^ 32 := m.size_lt
  have hpayload : m.payload.length = m.size - 16 := m.length_payload
  omega

theorem length_lt_of_payloadAt? {m : Message} {offset : UInt64} {bs : Bytes}
    (h : m.payloadAt? offset = some bs) : bs.length < 2 ^ 63 := by
  have hlength := m.length_payload_lt
  rw [payloadAt?] at h
  split at h
  · cases h
    rw [List.length_drop]
    omega
  · cases h

end Message

namespace Attributes

theorem remaining_ofMessage (m : Message) (offset : UInt64) :
    (ofMessage m offset).remaining =
      m.payload.length - min (align offset).toNat (2 ^ 63 - 1) := rfl

theorem toInt_remaining_cursor (m : Message) (offset : UInt64) :
    (Cursor.ofMessage m offset).remaining.toInt = (ofMessage m offset).remaining := by
  have hlength := m.length_payload_lt
  have hpayload : (Int64.ofIntClamp m.payload.length).toInt = m.payload.length :=
    toInt_ofIntClamp (by omega) (by omega)
  have hstart := toInt_ofIntClamp_toNat (align offset)
  rw [remaining_ofMessage, Cursor.ofMessage, hpayload, hstart]
  exact toInt_ofIntClamp (by omega) (by omega)

theorem mirrors_ofMessage (m : Message) (offset : UInt64) :
    Cursor.Mirrors (Cursor.ofMessage m offset) (ofMessage m offset) := by
  have hlength := m.length_payload_lt
  have hcount := toInt_remaining_cursor m offset
  have hbegin := remaining_ofMessage m offset
  by_cases hfits : (align offset).toNat ≤ m.payload.length
  · -- The message is read in place, by the stream that skipped the header.
    let s : Attributes := (Stream.ofBytes m.payload).skip (align offset).toNat
    have hs : s.remaining = (m.payload.length : Int) - (align offset).toNat := rfl
    have hagrees : Cursor.Agrees m.payload (Cursor.ofMessage m offset) s := {
      within := {
        aligned := by
          show (0 + (align offset).toNat) % 4 = 0
          rw [Nat.zero_add, align_mod]
        rest := by
          show m.payload.drop (align offset).toNat = m.payload.drop (0 + (align offset).toNat)
          rw [Nat.zero_add]
        total := by
          show ((0 + (align offset).toNat : Nat) : Int) + s.remaining = m.payload.length
          omega
        offset_le := by
          have hup := le_roundUp m.payload.length
          show 0 + (align offset).toNat ≤ roundUp m.payload.length
          omega }
      buffer := rfl
      offset := (Nat.zero_add _).symm
      remaining := by omega }
    exact (hagrees.mirrors (by omega)).congr rfl (by omega)
  · have hnegative : (Cursor.ofMessage m offset).remaining < 0 := by
      rw [Int64.lt_iff_toInt_lt, Int64.toInt_zero]
      omega
    have hempty : (ofMessage m offset).rest = [] := List.drop_eq_nil_of_le (by omega)
    exact Cursor.mirrors_of_neg hnegative hempty hcount

theorem ofMessage_of_payloadAt?_none {m : Message} {offset : UInt64}
    (h : m.payloadAt? offset = none) :
    (ofMessage m offset).rest = [] ∧ (ofMessage m offset).remaining < 0 := by
  have hlength := m.length_payload_lt
  rw [Message.payloadAt?, ite_eq_right_iff] at h
  have hbeyond : ¬(align offset).toNat ≤ m.payload.length := by
    intro hfits
    cases h hfits
  constructor
  · exact List.drop_eq_nil_of_le (by omega)
  · rw [remaining_ofMessage]
    omega

theorem walk_of_none {σ : Type} {s : Attributes}
    (h : Record.first? (L := .attr) s.rest = none) (callback : Callback Attribute σ) (state : σ) :
    s.walk callback state = ⟨.proceed, state, []⟩ := by
  rw [walk, Stream.visit_of_none _ state h]
  rfl

/-- The attributes behind an extra header are those of the bytes that are cut off there: a cursor
into the message and one over the bytes find the same in every step and keep the same count, and so
calls of a callback and tables are the same. Where the header does not fit, the cursor stays on a
negative count, no callback is called and the table is empty. -/
theorem read_behind_header (m : Message) (offset : UInt64) :
    let s := ofMessage m offset
    let c := Cursor.ofMessage m offset
    Cursor.Mirrors c s ∧
      match m.payloadAt? offset with
      | some bs =>
        let cut := (Cursor.ofBytes bs : Cursor .attr)
        Cursor.Mirrors cut (.ofBytes bs) ∧
          (∀ n, (c.after n).found = (cut.after n).found ∧
            (c.after n).remaining = (cut.after n).remaining) ∧
          (∀ {σ : Type} (callback : Callback Attribute σ) (state : σ),
            s.walk callback state = walk callback state (.ofBytes bs)) ∧
          ∀ maxType, Table.ofStream s maxType = .ofStream (.ofBytes bs) maxType
      | none =>
        (∀ n, (c.after n).found = none ∧ (c.after n).remaining < 0) ∧
          (∀ {σ : Type} (callback : Callback Attribute σ) (state : σ),
            s.walk callback state = ⟨.proceed, state, []⟩) ∧
          ∀ maxType, Table.ofStream s maxType = .empty maxType := by
  intro s c
  have hmirrors : Cursor.Mirrors c s := mirrors_ofMessage m offset
  refine ⟨hmirrors, ?_⟩
  cases hpayload : m.payloadAt? offset with
  | some bs =>
      have hsame : s = .ofBytes bs := ofMessage_eq_ofBytes hpayload
      have hcut := Cursor.mirrors_ofBytes (L := .attr) (Message.length_lt_of_payloadAt? hpayload)
      rw [hsame] at hmirrors ⊢
      exact ⟨hcut, hmirrors.unique hcut, fun _ _ => rfl, fun _ => rfl⟩
  | none =>
      obtain ⟨hempty, hnegative⟩ := ofMessage_of_payloadAt?_none hpayload
      have hnone : Record.first? (L := .attr) s.rest = none := Record.first?_of_nil hempty
      refine ⟨fun n => ?_, walk_of_none hnone, fun maxType => ?_⟩
      · obtain ⟨hfound, hremaining⟩ := hmirrors n
        rw [Stream.records_of_none hnone] at hfound
        rw [Stream.after_of_none hnone] at hremaining
        refine ⟨hfound, ?_⟩
        rw [Int64.lt_iff_toInt_lt, Int64.toInt_zero, hremaining]
        exact hnegative
      · rw [Table.ofStream, Stream.records_of_none hnone]
        rfl

end Attributes

end Netlink
