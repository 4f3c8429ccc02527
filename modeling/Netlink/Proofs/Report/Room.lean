import Netlink.Proofs.Draft.Refusal
import Netlink.Proofs.Report

/-!
# Room for reports

A report and its details are appended in several changes, and a message of nearly 2 ^ 32 bytes may
have room for the first of them alone. Main statements: `isOk_putReport` and
`putExtendedAck_unchanged`, by which these calls are all or nothing where there is room for the
whole, and `exists_partial_report`, by which both leave a part behind where there is not.
-/

namespace Netlink

namespace Draft

variable {d e : Draft}

theorem size_le_maxSize (d : Draft) : d.size ≤ maxSize := d.length_le

/-! ## Reports -/

theorem isOk_putReport (d : Draft) (r : Report) :
    (d.putReport r).2.isOk = true ↔ d.size + Report.size ≤ maxSize := by
  have hextend := (d.setType MessageType.error).isOk_extend (.ofNat Report.size)
  have htwenty : (align (.ofNat Report.size)).toNat = Report.size := by decide
  have hsize : (d.setType MessageType.error).size = d.size := d.size_write _ _
  have hsame : (d.putReport r).2.isOk =
      ((d.setType MessageType.error).extend (.ofNat Report.size)).isOk := by
    unfold putReport
    dsimp only
    split
    · rename_i hresult
      rw [hresult]
      rfl
    · rename_i hresult
      rw [hresult]
      rfl
  rw [hsame, hextend, htwenty, hsize]

theorem putReport_of_room (hroom : d.size + Report.size ≤ maxSize) (r : Report) :
    ∃ e, d.putReport r = (e, .ok ()) ∧ Appended (d.setType MessageType.error) r.encode e := by
  obtain ⟨_, hok⟩ := isOk_iff.mp ((d.isOk_putReport r).mpr hroom)
  have hput : d.putReport r = ((d.putReport r).1, .ok ()) := Prod.ext rfl hok
  exact ⟨_, hput, putReport_ok hput⟩

theorem putReport_of_payload_nil (hd : d.payload = []) (r : Report) :
    ∃ e, d.putReport r = (e, .ok ()) ∧ e.Synced ∧ e.header.type = MessageType.error ∧
      e.payload = r.encode := by
  have hsize : d.size = 16 := by
    rw [d.size_eq, hd, List.length_nil]
  obtain ⟨e, hput, happended⟩ := putReport_of_room (d := d) (by rw [hsize]; decide) r
  refine ⟨e, hput, happended.synced, ?_, ?_⟩
  · rw [happended.header, header_setType]
  · rw [happended.payload, payload_setType, hd, List.nil_append]

/-! ## Details -/

section Details

variable {ack : ExtendedAck}

theorem isOk_appendText (d : Draft) (text : Option String) :
    (d.appendText text).isOk = true ↔
      ExtendedAck.Fits text ∧ d.size + (ExtendedAck.textAttribute text).length ≤ maxSize := by
  cases text with
  | none => exact iff_of_true rfl ⟨ExtendedAck.fits_none, d.size_le_maxSize⟩
  | some text =>
      rw [ExtendedAck.fits_some, ExtendedAck.length_textAttribute]
      exact d.isOk_put ExtendedAck.textType _

theorem isOk_appendOffset (d : Draft) (offset : Option UInt32) :
    (d.appendOffset offset).isOk = true ↔
      d.size + (ExtendedAck.offsetAttribute offset).length ≤ maxSize := by
  cases offset with
  | none => exact iff_of_true rfl d.size_le_maxSize
  | some offset =>
      have hput := d.isOk_put ExtendedAck.offsetType (Bytes.encodeLE 4 offset.toNat)
      rw [Bytes.length_encodeLE] at hput
      rw [ExtendedAck.length_offsetAttribute]
      exact hput.trans (and_iff_right (by decide))

theorem length_attributes (ack : ExtendedAck) :
    ack.attributes.length = (ExtendedAck.textAttribute ack.text).length +
      (ExtendedAck.offsetAttribute ack.offset).length := List.length_append

theorem isOk_putExtendedAck (hd : d.Synced) :
    (d.putExtendedAck ack).2.isOk = true ↔
      ExtendedAck.Fits ack.text ∧ d.size + ack.attributes.length ≤ maxSize := by
  have htext := d.isOk_appendText ack.text
  rw [putExtendedAck_eq, length_attributes]
  cases happend : d.appendText ack.text with
  | error cause =>
      rw [happend] at htext
      exact iff_of_false Bool.false_ne_true
        (fun h => Bool.false_ne_true (htext.mpr ⟨h.1, by omega⟩))
  | ok d₁ =>
      rw [happend] at htext
      have hfits := (htext.mp rfl).1
      have hoffset := d₁.isOk_appendOffset ack.offset
      rw [(appendText_ok hd happend).2.size, Nat.add_assoc] at hoffset
      rw [and_iff_right hfits, ← hoffset]
      cases hlast : d₁.appendOffset ack.offset with
      | error cause => simp only [hlast, isOk_error]
      | ok d₂ => simp only [hlast, isOk_ok]

/-- With room for all of them, details are appended as a whole or not at all. -/
theorem putExtendedAck_unchanged (hd : d.Synced)
    (hroom : d.size + ack.attributes.length ≤ maxSize)
    (hrefused : (d.putExtendedAck ack).2.isOk = false) : (d.putExtendedAck ack).1 = d := by
  have htext := d.isOk_appendText ack.text
  have hlong : ¬ExtendedAck.Fits ack.text := by
    intro hfits
    rw [(isOk_putExtendedAck hd).mpr ⟨hfits, hroom⟩] at hrefused
    cases hrefused
  cases happend : d.appendText ack.text with
  | error cause => rw [putExtendedAck_eq, happend]
  | ok d₁ =>
      rw [happend] at htext
      exact absurd (htext.mp rfl).1 hlong

theorem putExtendedAck_text (hd : d.Synced) (hfits : ExtendedAck.Fits ack.text)
    (htext : d.size + (ExtendedAck.textAttribute ack.text).length ≤ maxSize)
    (hfull : maxSize < d.size + ack.attributes.length) :
    (d.putExtendedAck ack).2.isOk = false ∧
      Appended d (ExtendedAck.textAttribute ack.text) (d.putExtendedAck ack).1 := by
  have hrefused : (d.putExtendedAck ack).2.isOk = false := by
    rw [← Bool.not_eq_true, isOk_putExtendedAck hd]
    exact fun h => Nat.not_lt.mpr h.2 hfull
  refine ⟨hrefused, ?_⟩
  obtain ⟨d₁, happend⟩ := isOk_iff.mp ((d.isOk_appendText ack.text).mpr ⟨hfits, htext⟩)
  simp only [putExtendedAck_eq, happend] at hrefused ⊢
  cases hlast : d₁.appendOffset ack.offset with
  | error cause => exact (appendText_ok hd happend).2
  | ok d₂ =>
      rw [hlast] at hrefused
      cases hrefused

end Details

/-- Eleven bytes below the largest size, a refused report leaves its type behind, and refused
details leave their text. -/
theorem exists_partial_report :
    ∃ d : Draft, d.Synced ∧
      (∀ r, (d.putReport r).2.isOk = false ∧
        (d.putReport r).1.header.type = MessageType.error ∧ d.header.type ≠ MessageType.error) ∧
      ∃ ack, (d.putExtendedAck ack).2.isOk = false ∧
        Appended d (ExtendedAck.textAttribute (some "")) (d.putExtendedAck ack).1 := by
  have hroom : (start []).size + 4294967268 ≤ maxSize := by decide
  have happended := (start []).appended_grow (show 4294967268 % 4 = 0 by decide) hroom
  generalize (start []).grow 4294967268 _ hroom = d at happended
  have hsize : d.size = 4294967284 := by
    rw [happended.size, Bytes.length_zeros]
    rfl
  have hmax : maxSize = 4294967295 := rfl
  have htype : d.header.type = 0 := by
    rw [happended.header, header_start]
  let ack : ExtendedAck := ⟨some "", some 0⟩
  refine ⟨d, happended.synced, fun r => ?_, ack, ?_⟩
  · have hrefused : (d.putReport r).2.isOk = false := by
      rw [← Bool.not_eq_true, isOk_putReport, hsize]
      decide
    refine ⟨hrefused, ?_, by rw [htype]; decide⟩
    cases hreport : d.putReport r with
    | mk e result =>
        rw [hreport] at hrefused
        cases result with
        | ok _ => cases hrefused
        | error cause => rw [putReport_error hreport, header_setType]
  · have hfits : ExtendedAck.Fits ack.text := ExtendedAck.fits_some.mpr (by decide)
    have htext : (ExtendedAck.textAttribute (some "")).length = 8 :=
      ExtendedAck.length_textAttribute ""
    have hwhole : ack.attributes.length = 16 := by
      rw [length_attributes, htext, ExtendedAck.length_offsetAttribute]
    exact putExtendedAck_text happended.synced hfits (by rw [htext]; omega) (by omega)

end Draft

end Netlink
