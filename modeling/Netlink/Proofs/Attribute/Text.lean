import Netlink.Proofs.Attribute.Forest
import Netlink.Proofs.Attribute.Validation
import Netlink.Proofs.Draft.Refusal

/-!
# Text attributes

What was appended to a draft is found behind what stood there before. A text is found with the type
and the bytes that it was written with, and it is read up to its first zero character, whether a
zero byte was put behind it or not. Main statement: `putText_read_back`.
-/

namespace Netlink

namespace Draft

def attributesBehind (d : Draft) (offset : Nat) : List Attribute :=
  match d.message? with
  | some m => (Attributes.ofMessage m (.ofNat offset)).records
  | none => []

variable {d e : Draft} {type : UInt16} {payload : Bytes}

theorem toNat_align_payloadSize (d : Draft) :
    (align (.ofNat d.payloadSize)).toNat = d.payload.length := by
  have hsize := d.size_eq
  have hlt := d.size_lt
  have haligned : d.size % 4 = 0 := d.aligned
  have hpayload : d.payloadSize = d.payload.length := by
    rw [payloadSize, Message.headerSize]
    omega
  rw [hpayload, toNat_align_ofNat (by omega), roundUp_of_mod (by omega)]

theorem Appended.attributesBehind_eq (h : Appended d (Attribute.encode type payload).padded e)
    (hfits : 4 + payload.length ≤ maxAttributeSize) :
    e.attributesBehind d.payloadSize = [Attribute.ofPayload type payload hfits] := by
  let s := Attributes.ofMessage (e.toMessage h.synced) (.ofNat d.payloadSize)
  have hrest : s.rest = (Attribute.encode type payload).padded ++ [] := by
    show e.payload.drop _ = _
    rw [d.toNat_align_payloadSize, h.payload, List.append_nil]
    exact List.drop_left
  rw [attributesBehind, e.message?_eq h.synced]
  show s.records = _
  rw [Attributes.records_padded_encode hfits hrest, Attributes.records_of_nil rfl]

end Draft

theorem Leaf.attributesBehind_appendTo {leaf : Leaf} {d e : Draft} (h : leaf.appendTo d = .ok e) :
    ∃ a, e.attributesBehind d.payloadSize = [a] ∧ a.rawType = leaf.rawType ∧
      a.payload = leaf.payload := by
  obtain ⟨hfits, happended⟩ := Leaf.appendTo_ok h
  exact ⟨_, happended.attributesBehind_eq hfits, Attribute.rawType_ofPayload _ hfits,
    Attribute.payload_ofPayload _ hfits⟩

namespace Attribute

variable {a b : Attribute}

theorem isOk_getText_iff :
    a.getText.isOk = true ↔ (⟨a.textBytes.toArray⟩ : ByteArray).IsValidUTF8 := by
  rw [← Bytes.isSome_toText?_iff, getText_eq]
  cases Bytes.toText? a.textBytes with
  | some text => exact Iff.rfl
  | none => exact Iff.rfl

theorem getText_congr {front x y : Bytes} (htype : a.type = b.type)
    (ha : a.payload = front ++ 0 :: x) (hb : b.payload = front ++ 0 :: y) :
    a.getText = b.getText := by
  have hbytes : a.textBytes = b.textBytes := by
    rw [textBytes, textBytes, ha, hb, Bytes.takeWhile_append_zero, Bytes.takeWhile_append_zero]
  rw [getText_eq, getText_eq, hbytes, htype]

theorem validate_nulString {front : Bytes} (h : a.payload = front ++ [0]) :
    a.validate .nulString = .ok () := by
  have hsize : 0 < a.payloadSize := by
    rw [payloadSize_eq, h, List.length_append, List.length_singleton]
    exact Nat.succ_pos _
  have hlast : a.payload.getLast? = some 0 := by
    rw [h, List.getLast?_append, List.getLast?_singleton, Option.some_or]
  apply validateSize_eq_ok_iff.mpr
  exact ⟨Nat.zero_le _, .inl rfl, nofun, fun _ => hsize, fun _ => hlast, nofun⟩

end Attribute

namespace Draft

/-- A text is refused only where it does not fit. Otherwise it is found as it was written, and read
up to its first zero character. Of any attribute, the text that is read has the bytes before the
first zero byte as its encoding; it is read exactly where these are valid, and what stands behind
them has no influence. -/
theorem putText_read_back (d : Draft) (type : UInt16) (text : String) :
    let bytes := Bytes.ofText text
    ((d.putText type text).isOk = true ↔
        4 + bytes.length ≤ maxAttributeSize ∧ d.size + roundUp (4 + bytes.length) ≤ maxSize) ∧
      ((d.putTextZ type text).isOk = true ↔
        5 + bytes.length ≤ maxAttributeSize ∧ d.size + roundUp (5 + bytes.length) ≤ maxSize) ∧
      (∀ e, d.putText type text = .ok e → ∃ a, e.attributesBehind d.payloadSize = [a] ∧
        a.rawType = type ∧ a.payload = bytes ∧ a.getText = .ok (untilZero text)) ∧
      (∀ e, d.putTextZ type text = .ok e → ∃ a, e.attributesBehind d.payloadSize = [a] ∧
        a.rawType = type ∧ a.payload = bytes ++ [0] ∧ a.getText = .ok (untilZero text) ∧
        a.validate .nulString = .ok ()) ∧
      (untilZero text = text ↔ '\x00' ∉ text.toList) ∧
      (∀ a : Attribute,
        (a.getText.isOk = true ↔ (⟨a.textBytes.toArray⟩ : ByteArray).IsValidUTF8) ∧
          ∀ found, a.getText = .ok found ↔ Bytes.ofText found = a.textBytes) ∧
      ∀ (a b : Attribute) (front x y : Bytes), a.type = b.type → a.payload = front ++ 0 :: x →
        b.payload = front ++ 0 :: y → a.getText = b.getText := by
  intro bytes
  have hlength : 4 + (bytes ++ [0]).length = 5 + bytes.length := by
    rw [List.length_append, List.length_singleton]
    omega
  refine ⟨d.isOk_put type bytes, ?_, fun e hput => ?_, fun e hput => ?_, untilZero_eq_self_iff,
    fun a => ⟨Attribute.isOk_getText_iff, fun _ => Attribute.getText_eq_ok_iff⟩,
    fun a b front x y => Attribute.getText_congr⟩
  · rw [← hlength]
    exact d.isOk_put type (bytes ++ [0])
  · obtain ⟨a, hfound, htype, hpayload⟩ :=
      Leaf.attributesBehind_appendTo (show (Leaf.text type text).appendTo d = .ok e from hput)
    exact ⟨a, hfound, htype, hpayload, Attribute.getText_of_payload hpayload⟩
  · obtain ⟨a, hfound, htype, hpayload⟩ :=
      Leaf.attributesBehind_appendTo (show (Leaf.textZ type text).appendTo d = .ok e from hput)
    exact ⟨a, hfound, htype, hpayload, Attribute.getText_of_terminated hpayload,
      Attribute.validate_nulString hpayload⟩

/-- A text of characters of one, two and four bytes with a zero character among them, put with a
zero byte behind it; and a payload that is text only up to its first zero byte. -/
theorem putText_read_back_zero :
    let d := Draft.start [7]
    let broken : Attribute := ⟨[7, 0, 1, 0, 97, 0, 255], by decide, by decide⟩
    let plain : Attribute := ⟨[6, 0, 1, 0, 97, 0], by decide, by decide⟩
    ∃ e a, d.putTextZ 0x8005 "aé\x00𝄞" = .ok e ∧ e.attributesBehind d.payloadSize = [a] ∧
      a.payload = [97, 0xC3, 0xA9, 0, 0xF0, 0x9D, 0x84, 0x9E, 0] ∧ a.getText = .ok "aé" ∧
      a.validate .nulString = .ok () ∧ broken.getText = plain.getText ∧
      plain.getText = .ok "a" := by
  intro d broken plain
  obtain ⟨_, hfits, _, hwritten, _, hread, hbehind⟩ := putText_read_back d 0x8005 "aé\x00𝄞"
  have hok : (d.putTextZ 0x8005 "aé\x00𝄞").isOk = true := hfits.mpr (by decide +kernel)
  obtain ⟨e, hput⟩ := isOk_iff.mp hok
  obtain ⟨a, hfound, _, hpayload, htext, hvalid⟩ := hwritten e hput
  have hcut : untilZero "aé\x00𝄞" = "aé" := by decide +kernel
  have hbytes : Bytes.ofText "aé\x00𝄞" ++ [0] =
      [97, 0xC3, 0xA9, 0, 0xF0, 0x9D, 0x84, 0x9E, 0] := by decide +kernel
  rw [hcut] at htext
  rw [hbytes] at hpayload
  refine ⟨e, a, hput, hfound, hpayload, htext, hvalid, ?_, ?_⟩
  · exact hbehind broken plain [97] [255] [] (by decide) (by decide) (by decide)
  · exact ((hread plain).2 "a").mpr (by decide +kernel)

end Draft

end Netlink
