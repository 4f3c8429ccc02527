import Netlink.Proofs.Draft.Edit
import Netlink.Proofs.Draft.Refusal

/-!
# Effects on the buffer

What each operation on a draft does to the buffer, byte for byte, where it is not refused: which
bytes are appended, overwritten or cut off. No other byte changes, and from this follows which bytes
are left alone by any number of operations, refused or not. Main statement: `buffer_effects`.
-/

namespace Netlink

namespace Draft

variable {d e f : Draft}

/-! ## Single operations -/

def bufferSized (d : Draft) (size : Nat) : Bytes :=
  d.buffer.overwrite d.before.length (Bytes.encodeLE 4 size)

theorem buffer_write (d : Draft) (offset : Nat) (data : Bytes) :
    (d.write offset data).buffer = d.buffer.overwrite (d.before.length + offset) data := by
  have hinside := Bytes.overwrite_append_of_length_le (Nat.le_add_right d.before.length offset)
    d.bytes data
  rw [Nat.add_sub_cancel_left] at hinside
  exact hinside.symm

theorem Appended.buffer {data : Bytes} (h : Appended d data e) :
    e.buffer = d.bufferSized e.size ++ data :=
  calc e.buffer = d.before ++ (d.bytes.overwrite 0 (Bytes.encodeLE 4 e.size) ++ data) := by
        rw [Draft.buffer, h.before, h.bytes]
    _ = (d.write 0 (Bytes.encodeLE 4 e.size)).buffer ++ data := (List.append_assoc ..).symm
    _ = d.bufferSized e.size ++ data := by rw [buffer_write, Nat.add_zero, bufferSized]

theorem Appended.buffer_attribute {type : UInt16} {payload : Bytes}
    (h : Appended d (Attribute.encode type payload).padded e) :
    e.buffer = d.bufferSized e.size ++
      (Bytes.encodeLE 2 (4 + payload.length) ++ Bytes.encodeLE 2 type.toNat ++ payload ++
        Bytes.zeros (roundUp (4 + payload.length) - (4 + payload.length))) := by
  rw [h.buffer, padded_encode, attributeHeader, List.append_assoc _ payload]

theorem filled_eq {count : Nat} {fill : Bytes → Bytes}
    (h : (fill (Bytes.zeros count)).length = count) :
    filled count fill = fill (Bytes.zeros count) := by
  rw [filled, List.take_of_length_le (Nat.le_of_eq h),
    Bytes.overwrite_zero_of_length_eq (h.trans (Bytes.length_zeros count).symm)]

theorem extend_contents {count : UInt64} {region : Region} (h : d.extend count = .ok (region, e)) :
    e.contents region = Bytes.zeros count.toNat := by
  obtain ⟨rfl, hfits, happended⟩ := extend_ok h
  rw [maxSize] at hfits
  have hle := le_toNat_align (n := count) (by omega)
  rw [Bytes.zeros_eq_append hle, ← List.nil_append (Bytes.zeros count.toNat ++ _)] at happended
  have hcontents := happended.contents
  rwa [Bytes.length_zeros] at hcontents

theorem truncate_bytes {count : Nat} (h : d.truncate count = .ok e) :
    e.bytes = Bytes.overwrite (d.bytes.take count) 0 (Bytes.encodeLE 4 count) := by
  unfold truncate at h
  split at h
  · rename_i hcount
    cases h
    have hsize : (d.bytes.take count).length = count := List.length_take_of_le hcount.2.1
    show Bytes.overwrite (d.bytes.take count) 0 (Bytes.encodeLE 4 (d.bytes.take count).length) = _
    rw [hsize]
  · cases h

theorem truncate_buffer {count : Nat} (h : d.truncate count = .ok e) :
    e.buffer = Bytes.overwrite (d.buffer.take (d.before.length + count)) d.before.length
      (Bytes.encodeLE 4 count) := by
  obtain ⟨_, hbefore, _⟩ := truncate_ok h
  rw [Draft.buffer, Draft.buffer, hbefore, truncate_bytes h, List.take_length_add_append,
    Bytes.overwrite_append_of_length_le (Nat.le_refl _), Nat.sub_self]

/-- What the operations on `d` do to the buffer, those that can be refused where they are not. -/
structure Effects (d : Draft) : Prop where
  extend : ∀ {count region e}, d.extend count = .ok (region, e) →
    e.buffer = d.bufferSized e.size ++ Bytes.zeros (align count).toNat ∧
      e.size = d.size + (align count).toNat ∧ region = ⟨d.size, count.toNat⟩ ∧
      e.contents region = Bytes.zeros count.toNat
  /-- The payload is what `fill` leaves in `count` zeros. -/
  putWith : ∀ {type count fill e}, d.putWith type count fill = .ok e →
    let size := 4 + count.toNat
    e.buffer = d.bufferSized e.size ++
        (Bytes.encodeLE 2 size ++ Bytes.encodeLE 2 type.toNat ++ filled count.toNat fill ++
          Bytes.zeros (roundUp size - size)) ∧
      size ≤ 65535 ∧ e.size = d.size + roundUp size ∧
      ((fill (Bytes.zeros count.toNat)).length = count.toNat →
        filled count.toNat fill = fill (Bytes.zeros count.toNat))
  append : ∀ {leaf : Leaf} {e}, leaf.appendTo d = .ok e →
    let size := 4 + leaf.payload.length
    e.buffer = d.bufferSized e.size ++
      (Bytes.encodeLE 2 size ++ Bytes.encodeLE 2 leaf.rawType.toNat ++ leaf.payload ++
        Bytes.zeros (roundUp size - size))
  nestStart : ∀ {type nest e}, d.nestStart type = .ok (nest, e) →
    e.buffer = d.bufferSized e.size ++
        (Bytes.encodeLE 2 0 ++ Bytes.encodeLE 2 (type ||| Attribute.nestedFlag).toNat) ∧
      e.size = d.size + 4 ∧ nest.type = type ∧ nest.offset = d.size
  nestEnd : ∀ {nest e}, d.nestEnd nest = .ok e →
    e.buffer = d.buffer.overwrite (d.before.length + nest.offset)
        (Bytes.encodeLE 2 (d.size - nest.offset)) ∧
      nest.offset + 4 ≤ d.size ∧ d.size - nest.offset ≤ 65535
  patch : ∀ {offset data e}, d.patch offset data = .ok e →
    e.buffer = d.buffer.overwrite (d.before.length + offset) data ∧
      offset + data.length ≤ d.size
  truncate : ∀ {count e}, d.truncate count = .ok e →
    e.buffer = Bytes.overwrite (d.buffer.take (d.before.length + count)) d.before.length
        (Bytes.encodeLE 4 count) ∧
      count ≤ d.size
  nestCancel : ∀ {nest e}, d.nestCancel nest = .ok e → d.truncate nest.offset = .ok e
  write : ∀ offset data,
    (d.write offset data).buffer = d.buffer.overwrite (d.before.length + offset) data
  fill : ∀ region data, (d.fill region data).buffer =
    d.buffer.overwrite (d.before.length + region.offset) (data.take region.size)
  setType : ∀ type : UInt16, (d.setType type).buffer =
    d.buffer.overwrite (d.before.length + 4) (Bytes.encodeLE 2 type.toNat)
  setFlags : ∀ flags : UInt16, (d.setFlags flags).buffer =
    d.buffer.overwrite (d.before.length + 6) (Bytes.encodeLE 2 flags.toNat)
  setSeq : ∀ seq : UInt32, (d.setSeq seq).buffer =
    d.buffer.overwrite (d.before.length + 8) (Bytes.encodeLE 4 seq.toNat)
  setPort : ∀ port : UInt32, (d.setPort port).buffer =
    d.buffer.overwrite (d.before.length + 12) (Bytes.encodeLE 4 port.toNat)

theorem effects (d : Draft) : d.Effects where
  extend h := by
    obtain ⟨hregion, _, happended⟩ := extend_ok h
    refine ⟨happended.buffer, ?_, hregion, extend_contents h⟩
    rw [happended.size, Bytes.length_zeros]
  putWith {type count fill e} h := by
    obtain ⟨hfits, happended⟩ := putWith_ok h
    have hbuffer := happended.buffer_attribute
    rw [length_filled] at hbuffer
    refine ⟨hbuffer, hfits, ?_, filled_eq⟩
    rw [happended.size, Bytes.length_padded, length_encode_attribute, length_filled]
  append h := (Leaf.appendTo_ok h).2.buffer_attribute
  nestStart h := by
    obtain ⟨htype, hoffset, happended⟩ := nestStart_ok h
    refine ⟨happended.buffer, ?_, htype, hoffset⟩
    rw [happended.size, length_attributeHeader]
  nestEnd h := by
    obtain ⟨hreach, hsize, rfl⟩ := nestEnd_ok h
    exact ⟨d.buffer_write _ _, hreach, hsize⟩
  patch h := by
    obtain ⟨hfits, rfl⟩ := patch_ok h
    exact ⟨d.buffer_write _ _, hfits⟩
  truncate h := ⟨truncate_buffer h, (truncate_fits h).2.1⟩
  nestCancel := nestCancel_ok
  write := d.buffer_write
  fill region data := d.buffer_write region.offset (data.take region.size)
  setType _ := d.buffer_write _ _
  setFlags _ := d.buffer_write _ _
  setSeq _ := d.buffer_write _ _
  setPort _ := d.buffer_write _ _

/-! ## What is left alone -/

/-- `e` is `d` with changes in the places `touched` at most, as far as `d` reaches. -/
structure ChangedWithin (touched : Nat → Prop) (d e : Draft) : Prop where
  before : e.before = d.before
  byte : ∀ i < d.size, ¬touched i → e.bytes[i]? = d.bytes[i]?

namespace ChangedWithin

variable {touched more : Nat → Prop}

theorem refl (d : Draft) : ChangedWithin touched d d := ⟨rfl, fun _ _ _ => rfl⟩

theorem mono (h : ChangedWithin touched d e) (hle : ∀ i, touched i → more i) :
    ChangedWithin more d e :=
  ⟨h.before, fun i hi hmore => h.byte i hi fun htouched => hmore (hle i htouched)⟩

theorem lt_size (h : ChangedWithin touched d e) {i : Nat} (hi : i < d.size) (hkept : ¬touched i) :
    i < e.size := by
  have hbyte := h.byte i hi hkept
  rw [List.getElem?_eq_getElem hi] at hbyte
  exact (List.getElem?_eq_some_iff.mp hbyte).1

theorem trans (hfirst : ChangedWithin touched d e) (hsecond : ChangedWithin touched e f) :
    ChangedWithin touched d f := by
  refine ⟨hsecond.before.trans hfirst.before, fun i hi hkept => ?_⟩
  calc f.bytes[i]? = e.bytes[i]? := hsecond.byte i (hfirst.lt_size hi hkept) hkept
    _ = d.bytes[i]? := hfirst.byte i hi hkept

theorem slice (h : ChangedWithin touched d e) {offset count : Nat}
    (hreach : offset + count ≤ d.size)
    (hkept : ∀ i < offset + count, offset ≤ i → ¬touched i) :
    e.bytes.slice offset count = d.bytes.slice offset count := by
  unfold Bytes.slice
  apply List.ext_getElem?
  intro i
  by_cases hi : i < count
  · rw [List.getElem?_take_of_lt hi, List.getElem?_take_of_lt hi, List.getElem?_drop,
      List.getElem?_drop]
    exact h.byte (offset + i) (by omega) (hkept (offset + i) (by omega) (by omega))
  · rw [List.getElem?_take_eq_none (by omega), List.getElem?_take_eq_none (by omega)]

end ChangedWithin

theorem changedWithin_write (d : Draft) (offset : Nat) {data : Bytes} {width : Nat}
    (hdata : data.length = width) :
    ChangedWithin (fun i => offset ≤ i ∧ i < offset + width) d (d.write offset data) := by
  refine ⟨rfl, fun i _ hkept => ?_⟩
  apply Bytes.getElem?_overwrite_of_outside
  omega

theorem Appended.changedWithin {data : Bytes} (h : Appended d data e) :
    ChangedWithin (fun i => i < 4) d e := by
  refine ⟨h.before, fun i hi hkept => ?_⟩
  have hinside : i < (d.bytes.overwrite 0 (Bytes.encodeLE 4 e.size)).length := by
    rw [Bytes.length_overwrite]
    exact hi
  rw [h.bytes, List.getElem?_append_left hinside]
  apply Bytes.getElem?_overwrite_of_outside
  rw [Bytes.length_encodeLE]
  omega

theorem changedWithin_truncate {count : Nat} (h : d.truncate count = .ok e) :
    ChangedWithin (fun i => i < 4 ∨ count ≤ i) d e := by
  obtain ⟨_, hbefore, _⟩ := truncate_ok h
  refine ⟨hbefore, fun i _ hkept => ?_⟩
  have hfield : 0 + (Bytes.encodeLE 4 count).length ≤ i := by
    rw [Bytes.length_encodeLE]
    omega
  rw [truncate_bytes h, Bytes.getElem?_overwrite_of_outside (.inr hfield),
    List.getElem?_take_of_lt (by omega)]

theorem changedWithin_attempt {ε : Type} {touched : Nat → Prop} {cause : ε → DispatchError}
    {result : Except ε Draft} (h : ∀ e, result = .ok e → ChangedWithin touched d e) :
    ChangedWithin touched d (d.attempt cause result).1 := attempt_of (.refl d) h

end Draft

/-- The places that an edit may change, among those that were there before. -/
def Edit.Touches : Edit → Nat → Prop
  | setType _, i => 4 ≤ i ∧ i < 6
  | setFlags _, i => 6 ≤ i ∧ i < 8
  | setSeq _, i => 8 ≤ i ∧ i < 12
  | setPort _, i => 12 ≤ i ∧ i < 16
  | extend _ _, i | put _, i | nestStart _, i => i < 4
  | truncate count, i => i < 4 ∨ count ≤ i
  | patch offset data, i | write offset data, i => 16 + offset ≤ i ∧ i < 16 + offset + data.length
  | nestEnd nest, i => nest.offset ≤ i ∧ i < nest.offset + 2
  | nestCancel nest, i => i < 4 ∨ nest.offset ≤ i
  | putReport _, i => i < 6
  | putExtendedAck _, i => i < 4 ∨ 6 ≤ i ∧ i < 8

instance Edit.decidableTouches (i : Nat) : (edit : Edit) → Decidable (edit.Touches i)
  | setType _ | setFlags _ | setSeq _ | setPort _ | patch _ _ | write _ _ | nestEnd _ =>
    inferInstanceAs (Decidable (_ ∧ _))
  | extend _ _ | put _ | nestStart _ | putReport _ => inferInstanceAs (Decidable (_ < _))
  | truncate _ | nestCancel _ | putExtendedAck _ => inferInstanceAs (Decidable (_ ∨ _))

namespace Draft

variable {d e : Draft}

theorem changedWithin_putReport (d : Draft) (report : Report) :
    ChangedWithin (fun i => i < 6) d (d.putReport report).1 := by
  have htyped : ChangedWithin (fun i => i < 6) d (d.setType MessageType.error) := by
    apply (d.changedWithin_write 4 (Bytes.length_encodeLE 2 _)).mono
    intro i hi
    exact hi.2
  cases hreport : d.putReport report with
  | mk e result =>
      cases result with
      | error cause =>
          rw [putReport_error hreport]
          exact htyped
      | ok _ =>
          apply htyped.trans
          apply (putReport_ok hreport).changedWithin.mono
          intro i hi
          exact Nat.lt_trans hi (by decide)

theorem changedWithin_appendText {text : Option String} (h : d.appendText text = .ok e) :
    ChangedWithin (fun i => i < 4) d e := by
  cases text with
  | none =>
      cases h
      exact .refl d
  | some text => exact (put_ok h).2.changedWithin

theorem changedWithin_appendOffset {offset : Option UInt32} (h : d.appendOffset offset = .ok e) :
    ChangedWithin (fun i => i < 4) d e := by
  cases offset with
  | none =>
      cases h
      exact .refl d
  | some offset => exact (put_ok h).2.changedWithin

theorem changedWithin_putExtendedAck (d : Draft) (ack : ExtendedAck) :
    ChangedWithin (fun i => i < 4 ∨ 6 ≤ i ∧ i < 8) d (d.putExtendedAck ack).1 := by
  rw [putExtendedAck_eq]
  split
  · exact .refl d
  · rename_i d₁ htext
    have hfirst := (changedWithin_appendText htext).mono fun i hi => Or.inl (b := 6 ≤ i ∧ i < 8) hi
    split
    · exact hfirst
    · rename_i d₂ hoffset
      have hsecond :=
        (changedWithin_appendOffset hoffset).mono fun i hi => Or.inl (b := 6 ≤ i ∧ i < 8) hi
      apply (hfirst.trans hsecond).trans
      apply (d₂.changedWithin_write 6 (Bytes.length_encodeLE 2 _)).mono
      intro i hi
      exact .inr hi

end Draft

theorem Edit.changedWithin (d : Draft) (edit : Edit) :
    d.ChangedWithin edit.Touches (edit.apply d).1 := by
  cases edit with
  | setType type => exact d.changedWithin_write 4 (Bytes.length_encodeLE 2 _)
  | setFlags flags => exact d.changedWithin_write 6 (Bytes.length_encodeLE 2 _)
  | setSeq seq => exact d.changedWithin_write 8 (Bytes.length_encodeLE 4 _)
  | setPort port => exact d.changedWithin_write 12 (Bytes.length_encodeLE 4 _)
  | extend count data =>
      apply Draft.changedWithin_attempt
      intro e h
      obtain ⟨_, _, happended⟩ := Draft.extend_fill_ok h
      exact happended.changedWithin
  | truncate count => exact Draft.changedWithin_attempt fun e h => Draft.changedWithin_truncate h
  | patch offset data =>
      apply Draft.changedWithin_attempt
      intro e h
      obtain ⟨_, rfl⟩ := Draft.patch_ok h
      exact d.changedWithin_write (16 + offset) rfl
  | write offset data => exact d.changedWithin_write (16 + offset) rfl
  | put leaf =>
      exact Draft.changedWithin_attempt fun e h => (Leaf.appendTo_ok h).2.changedWithin
  | nestStart type =>
      apply Draft.changedWithin_attempt
      intro e h
      obtain ⟨⟨nest, made⟩, hstart, rfl⟩ := eq_ok_of_map h
      exact (Draft.nestStart_ok hstart).2.2.changedWithin
  | nestEnd nest =>
      apply Draft.changedWithin_attempt
      intro e h
      obtain ⟨_, _, rfl⟩ := Draft.nestEnd_ok h
      exact d.changedWithin_write nest.offset (Bytes.length_encodeLE 2 _)
  | nestCancel nest =>
      exact Draft.changedWithin_attempt fun e h =>
        Draft.changedWithin_truncate (Draft.nestCancel_ok h)
  | putReport report => exact d.changedWithin_putReport report
  | putExtendedAck ack => exact d.changedWithin_putExtendedAck ack

/-! ## Several operations -/

/-- One call on a draft: an edit, or an overwrite at any place of the message, header or not. -/
inductive Operation where
  | edit (change : Edit)
  | patch (offset : Nat) (data : Bytes)
  | write (offset : Nat) (data : Bytes)

namespace Operation

def perform (d : Draft) : Operation → Draft
  | edit change => (change.apply d).1
  | patch offset data => (d.attempt .draft (d.patch offset data)).1
  | write offset data => d.write offset data

def Touches : Operation → Nat → Prop
  | edit change, i => change.Touches i
  | patch offset data, i | write offset data, i => offset ≤ i ∧ i < offset + data.length

instance decidableTouches (i : Nat) : (operation : Operation) → Decidable (operation.Touches i)
  | edit change => inferInstanceAs (Decidable (change.Touches i))
  | patch _ _ | write _ _ => inferInstanceAs (Decidable (_ ∧ _))

theorem changedWithin (d : Draft) (operation : Operation) :
    d.ChangedWithin operation.Touches (operation.perform d) := by
  cases operation with
  | edit change => exact change.changedWithin d
  | patch offset data =>
      apply Draft.changedWithin_attempt
      intro e h
      obtain ⟨_, rfl⟩ := Draft.patch_ok h
      exact d.changedWithin_write offset rfl
  | write offset data => exact d.changedWithin_write offset rfl

end Operation

namespace Draft

def performed (d : Draft) (operations : List Operation) : Draft :=
  operations.foldl Operation.perform d

theorem changedWithin_performed (d : Draft) (operations : List Operation) :
    d.ChangedWithin (fun i => ∃ operation ∈ operations, operation.Touches i)
      (d.performed operations) := by
  induction operations generalizing d with
  | nil => exact .refl d
  | cons operation later ih =>
      have hfirst : d.ChangedWithin (fun i => ∃ other ∈ operation :: later, other.Touches i)
          (operation.perform d) := by
        apply (operation.changedWithin d).mono
        intro i hi
        exact ⟨operation, List.mem_cons_self, hi⟩
      apply hfirst.trans
      apply (ih (operation.perform d)).mono
      rintro i ⟨other, hother, hi⟩
      exact ⟨other, List.mem_cons_of_mem operation hother, hi⟩

/-- An attribute stays as it was appended, padding included, for as long as no operation addresses
it. -/
theorem slice_performed_of_appendTo {d e : Draft} {leaf : Leaf} (h : leaf.appendTo d = .ok e)
    {operations : List Operation}
    (hkept : ∀ operation ∈ operations, ∀ i < e.size, d.size ≤ i → ¬operation.Touches i) :
    (e.performed operations).bytes.slice d.size (e.size - d.size) =
      (Attribute.encode leaf.rawType leaf.payload).padded := by
  have happended := (Leaf.appendTo_ok h).2
  have hsize := happended.size
  have hunchanged : (e.performed operations).bytes.slice d.size (e.size - d.size) =
      e.bytes.slice d.size (e.size - d.size) := by
    apply (e.changedWithin_performed operations).slice (by omega)
    rintro i hi hbehind ⟨operation, hmem, htouches⟩
    exact hkept operation hmem i (by omega) hbehind htouches
  have hwhole :
      d.Appended ([] ++ ((Attribute.encode leaf.rawType leaf.payload).padded ++ [])) e := by
    rw [List.append_nil]
    exact happended
  rw [hunchanged, hsize, Nat.add_sub_cancel_left]
  exact hwhole.contents

/-- The exact effect of every operation on the whole buffer. A draft is put behind the padded
buffer. Any number of operations change no byte before the draft and none in it that they do not
address, so an attribute stays with its padding for as long as no operation addresses it. -/
theorem buffer_effects (d : Draft) :
    d.Effects ∧
      (∀ buffer, (start buffer).buffer = buffer.padded ++ Header.encode { size := 16 }) ∧
      (∀ operations : List Operation,
        (d.performed operations).before = d.before ∧
          ∀ i < d.size, (∀ operation ∈ operations, ¬operation.Touches i) →
            (d.performed operations).bytes[i]? = d.bytes[i]?) ∧
      ∀ (leaf : Leaf) (e : Draft), leaf.appendTo d = .ok e → ∀ operations : List Operation,
        (∀ operation ∈ operations, ∀ i < e.size, d.size ≤ i → ¬operation.Touches i) →
          (e.performed operations).bytes.slice d.size (e.size - d.size) =
            (Attribute.encode leaf.rawType leaf.payload).padded := by
  refine ⟨d.effects, fun _ => rfl, fun operations => ?_, fun leaf e h operations hkept =>
    slice_performed_of_appendTo h hkept⟩
  have hchanged := d.changedWithin_performed operations
  refine ⟨hchanged.before, fun i hi hkept => hchanged.byte i hi ?_⟩
  rintro ⟨operation, hmem, htouches⟩
  exact hkept operation hmem htouches

/-- An attribute that is put where other bytes were cut off has no trace of them. Operations before
and behind it leave it alone. -/
theorem buffer_effects_truncated :
    let d := (start [7]).after [.put (.bytes 3 [1, 2, 3, 4, 5, 6, 7, 8]), .truncate 20]
    let fill : Bytes → Bytes := fun zeros => 9 :: zeros.tail
    let e := d.after [.put (.filled 6 5 fill)]
    let operations : List Operation := [.edit (.setSeq 5), .edit (.put (.u8 1 255)),
      .patch 16 [8, 0], .edit (.extend 3 [255, 255, 255]), .write 12 [1, 1, 1, 1, 1],
      .edit (.truncate 36)]
    d.putWith 6 5 fill = .ok e ∧
      e.buffer = d.bufferSized 32 ++ [9, 0, 6, 0, 9, 0, 0, 0, 0, 0, 0, 0] ∧
      (e.performed operations).bytes.slice 20 12 = [9, 0, 6, 0, 9, 0, 0, 0, 0, 0, 0, 0] ∧
      (e.performed operations).before = [7, 0, 0, 0] := by
  intro d fill e operations
  have hput : d.putWith 6 5 fill = .ok e := rfl
  have hkept : ∀ operation ∈ operations, ∀ i < e.size, d.size ≤ i → ¬operation.Touches i := by
    decide +kernel
  have hd : d.size = 20 := by decide +kernel
  have he : e.size = 32 := by decide +kernel
  have hbytes : (Attribute.encode 6 (filled 5 fill)).padded =
      [9, 0, 6, 0, 9, 0, 0, 0, 0, 0, 0, 0] := by decide +kernel
  obtain ⟨heffects, _, _, hstays⟩ := buffer_effects d
  obtain ⟨_, _, hframe, _⟩ := buffer_effects e
  have hbuffer := (heffects.putWith hput).1
  have hslice := hstays (.filled 6 5 fill) e hput operations hkept
  rw [he, hd] at hslice
  rw [he] at hbuffer
  refine ⟨hput, hbuffer, ?_, (hframe operations).1⟩
  exact hslice.trans hbytes

end Draft

end Netlink
