import Netlink.Proofs.Attribute.Appends
import Netlink.Report

/-!
# What report appends write

A report and its details are appended in several changes, each of which may be refused. The
statements here say what the draft holds where all of them succeed, and what it holds where one
of them is refused after others have been made.
-/

namespace Netlink

namespace Report

@[simp] theorem length_encode_report (r : Report) : r.encode.length = size := by
  simp [encode, size]

end Report

namespace ExtendedAck

def textAttribute : Option String → Bytes
  | none => []
  | some text => (Attribute.encode textType (Bytes.ofText text ++ [0])).padded

def offsetAttribute : Option UInt32 → Bytes
  | none => []
  | some offset => (Attribute.encode offsetType (Bytes.encodeLE 4 offset.toNat)).padded

def attributes (ack : ExtendedAck) : Bytes :=
  textAttribute ack.text ++ offsetAttribute ack.offset

def Fits (text : Option String) : Prop :=
  ∀ t, text = some t → 4 + (Bytes.ofText t ++ [0]).length ≤ Draft.maxAttributeSize

theorem fits_none : Fits none := by
  intro t ht
  cases ht

theorem fits_some {text : String} :
    Fits (some text) ↔ 4 + (Bytes.ofText text ++ [0]).length ≤ Draft.maxAttributeSize := by
  constructor
  · intro h
    exact h text rfl
  · intro h t ht
    cases ht
    exact h

@[simp] theorem length_textAttribute (text : String) :
    (textAttribute (some text)).length = roundUp (4 + (Bytes.ofText text ++ [0]).length) := by
  rw [textAttribute, Bytes.length_padded, Draft.length_encode_attribute]

@[simp] theorem length_offsetAttribute (offset : UInt32) :
    (offsetAttribute (some offset)).length = 8 := by
  rw [offsetAttribute, Bytes.length_padded, Draft.length_encode_attribute, Bytes.length_encodeLE]
  rfl

end ExtendedAck

namespace Draft

variable {d e : Draft}

theorem putReport_ok {r : Report} (h : d.putReport r = (e, .ok ())) :
    Appended (d.setType MessageType.error) r.encode e := by
  rw [putReport] at h
  split at h
  · cases h
  · rename_i region d' hextend
    cases h
    obtain ⟨rfl, happended⟩ := extend_ok_of_le hextend (by decide)
    have hwritten := happended.write_zeros r.encode (by rw [Report.length_encode_report]; decide)
    rw [Report.length_encode_report] at hwritten
    exact (List.append_nil r.encode) ▸ hwritten

theorem putReport_error {r : Report} {cause : DispatchError}
    (h : d.putReport r = (e, .error cause)) : e = d.setType MessageType.error := by
  rw [putReport] at h
  split at h
  · cases h
    rfl
  · cases h

section Details

variable {ack : ExtendedAck}

def appendText (d : Draft) : Option String → Except AttributeError Draft
  | none => .ok d
  | some text => d.putTextZ ExtendedAck.textType text

def appendOffset (d : Draft) : Option UInt32 → Except AttributeError Draft
  | none => .ok d
  | some offset => d.putU32 ExtendedAck.offsetType offset

theorem putExtendedAck_eq (d : Draft) (ack : ExtendedAck) :
    d.putExtendedAck ack =
      match d.appendText ack.text with
      | .error cause => (d, .error (.attr cause))
      | .ok d₁ =>
        match d₁.appendOffset ack.offset with
        | .error cause => (d₁, .error (.attr cause))
        | .ok d₂ => (d₂.setFlags (d₂.header.flags ||| MessageFlag.ackDetails), .ok ()) := rfl

theorem appendText_ok {text : Option String} (hd : d.Synced) (h : d.appendText text = .ok e) :
    ExtendedAck.Fits text ∧ Appended d (ExtendedAck.textAttribute text) e := by
  cases text with
  | none =>
      cases h
      exact ⟨ExtendedAck.fits_none, .refl hd⟩
  | some text =>
      obtain ⟨hfits, happended⟩ := put_ok h
      exact ⟨ExtendedAck.fits_some.mpr hfits, happended⟩

theorem appendOffset_ok {offset : Option UInt32} (hd : d.Synced)
    (h : d.appendOffset offset = .ok e) :
    Appended d (ExtendedAck.offsetAttribute offset) e := by
  cases offset with
  | none => cases h; exact .refl hd
  | some offset => exact (put_ok h).2

theorem putExtendedAck_ok (hd : d.Synced) (h : d.putExtendedAck ack = (e, .ok ())) :
    ExtendedAck.Fits ack.text ∧ ∃ f, Appended d ack.attributes f ∧
      e = f.setFlags (f.header.flags ||| MessageFlag.ackDetails) := by
  rw [putExtendedAck_eq] at h
  split at h
  · cases h
  · rename_i d₁ htext
    obtain ⟨hfits, hfirst⟩ := appendText_ok hd htext
    split at h
    · cases h
    · rename_i d₂ hoffset
      cases h
      have hsecond := appendOffset_ok hfirst.synced hoffset
      exact ⟨hfits, d₂, hfirst.trans hsecond, rfl⟩

/-- Where details are refused, what was appended of them stays. -/
theorem putExtendedAck_error (hd : d.Synced) {cause : DispatchError}
    (h : d.putExtendedAck ack = (e, .error cause)) : ∃ data, Appended d data e := by
  rw [putExtendedAck_eq] at h
  split at h
  · cases h
    exact ⟨[], .refl hd⟩
  · rename_i d₁ htext
    have hfirst := (appendText_ok hd htext).2
    split at h
    · cases h
      exact ⟨_, hfirst⟩
    · cases h

end Details

end Draft

end Netlink
