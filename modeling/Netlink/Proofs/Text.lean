import Mathlib.Data.List.TakeWhile
import Mathlib.Tactic.SplitIfs
import Netlink.Attribute

/-!
# Text and zero bytes

A text is written as UTF-8 and read up to the first zero byte. No character but the zero one has a
zero byte in its encoding, so reading cuts a text where it has that character itself. Main
statements: `takeWhile_ofText`, and `getText_eq_ok_iff` for the text of any attribute.
-/

namespace Netlink

/-- The text before its first zero character, or all of it. -/
def untilZero (text : String) : String := String.ofList (text.toList.takeWhile (· != '\x00'))

theorem untilZero_eq_self_iff {text : String} : untilZero text = text ↔ '\x00' ∉ text.toList := by
  rw [untilZero, ← String.toList_inj, String.toList_ofList, List.takeWhile_eq_self_iff]
  constructor
  · intro h hmem
    exact absurd (h _ hmem) (by decide)
  · intro h c hc
    exact bne_iff_ne.mpr fun heq => h (heq ▸ hc)

namespace Bytes

theorem ofText_eq_flatMap (text : String) :
    ofText text = text.toList.flatMap String.utf8EncodeChar := by
  rw [ofText, String.toUTF8_eq_toByteArray, ← String.utf8Encode_toList, List.utf8Encode,
    List.data_toByteArray]

theorem toText?_eq_some_iff {bs : Bytes} {text : String} :
    toText? bs = some text ↔ ofText text = bs := by
  rw [toText?, String.fromUTF8?, ofText, String.toUTF8_eq_toByteArray]
  constructor
  · intro h
    split at h
    · cases h
      rfl
    · cases h
  · rintro rfl
    exact dif_pos text.isValidUTF8

theorem isSome_toText?_iff {bs : Bytes} :
    (toText? bs).isSome = true ↔ (⟨bs.toArray⟩ : ByteArray).IsValidUTF8 := by
  rw [toText?, String.fromUTF8?]
  split
  · rename_i hvalid
    exact iff_of_true rfl hvalid
  · rename_i hinvalid
    exact iff_of_false Bool.false_ne_true hinvalid

theorem ne_zero_of_mem_utf8EncodeChar {c : Char} (hc : c ≠ '\x00') {b : UInt8}
    (hb : b ∈ String.utf8EncodeChar c) : b ≠ 0 := by
  have hval : c.val.toNat ≠ 0 := by
    intro hzero
    exact hc (Char.toNat_inj.mp hzero)
  have hsmall : ∀ n : Nat, 0 < n % 256 → UInt8.ofNat n ≠ 0 := by
    intro n hpos hzero
    have hmod := congrArg UInt8.toNat hzero
    rw [UInt8.toNat_ofNat', UInt8.toNat_zero] at hmod
    omega
  -- one case for each number of bytes that a character may take
  rw [String.utf8EncodeChar] at hb
  split_ifs at hb <;> simp only [List.mem_cons, List.not_mem_nil, or_false] at hb
  · subst hb
    exact hsmall _ (by omega)
  · rcases hb with rfl | rfl <;> exact hsmall _ (by omega)
  · rcases hb with rfl | rfl | rfl <;> exact hsmall _ (by omega)
  · rcases hb with rfl | rfl | rfl | rfl <;> exact hsmall _ (by omega)

theorem takeWhile_append_zero (front rest : Bytes) :
    (front ++ 0 :: rest).takeWhile (· != 0) = front.takeWhile (· != 0) := by
  rw [List.takeWhile_append]
  split
  · rename_i hall
    have hwhole : front.takeWhile (· != 0) = front :=
      (List.takeWhile_prefix _).eq_of_length hall
    rw [hwhole]
    exact List.append_nil front
  · rfl

/-- The first zero byte of a text is its first zero character. -/
theorem takeWhile_flatMap_utf8EncodeChar (cs : List Char) :
    (cs.flatMap String.utf8EncodeChar).takeWhile (· != 0) =
      (cs.takeWhile (· != '\x00')).flatMap String.utf8EncodeChar := by
  induction cs with
  | nil => rfl
  | cons c cs ih =>
      rw [List.flatMap_cons]
      by_cases hc : c = '\x00'
      · subst hc
        rfl
      · have hbytes : ∀ b ∈ String.utf8EncodeChar c, (b != 0) = true := fun b hb =>
          bne_iff_ne.mpr (ne_zero_of_mem_utf8EncodeChar hc hb)
        have hchar : (c != '\x00') = true := bne_iff_ne.mpr hc
        rw [List.takeWhile_append_of_pos hbytes, ih, List.takeWhile_cons, if_pos hchar,
          List.flatMap_cons]

theorem takeWhile_ofText (text : String) :
    (ofText text).takeWhile (· != 0) = ofText (untilZero text) := by
  rw [ofText_eq_flatMap, ofText_eq_flatMap, takeWhile_flatMap_utf8EncodeChar, untilZero,
    String.toList_ofList]

end Bytes

namespace Attribute

variable {a b : Attribute} {text : String}

def textBytes (a : Attribute) : Bytes := a.payload.takeWhile (· != 0)

theorem getText_eq (a : Attribute) :
    a.getText = match Bytes.toText? a.textBytes with
      | some text => .ok text
      | none => .error (.invalidText a.type) := rfl

theorem getText_eq_ok_iff : a.getText = .ok text ↔ Bytes.ofText text = a.textBytes := by
  rw [← Bytes.toText?_eq_some_iff, getText_eq]
  cases Bytes.toText? a.textBytes with
  | some found => simp
  | none => simp

theorem getText_of_payload (h : a.payload = Bytes.ofText text) :
    a.getText = .ok (untilZero text) := by
  rw [getText_eq_ok_iff, textBytes, h, Bytes.takeWhile_ofText]

theorem getText_of_terminated {rest : Bytes} (h : a.payload = Bytes.ofText text ++ 0 :: rest) :
    a.getText = .ok (untilZero text) := by
  rw [getText_eq_ok_iff, textBytes, h, Bytes.takeWhile_append_zero, Bytes.takeWhile_ofText]

end Attribute

end Netlink
