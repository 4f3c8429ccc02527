import Netlink.Proofs.Draft.Refusal

/-!
# Drafts in storage

A draft is kept at the end of one growable buffer, from a word offset on. `Storage` is this buffer,
and its operations are the changes of a draft taken step by step, on words: every sum, every
difference and every index is checked, and an operation has no answer where one leaves its range.
What was written before a step that refuses stays. `Storage.of` is the storage of a draft; main
statements: `overwrite?_of`, `of_append_zeros` and `of_take`, by which it may be written, grown and
cut like the draft.
-/

namespace Netlink

/-! ## Words -/

def subChecked (a b : UInt64) : Option UInt64 := if b ≤ a then some (a - b) else none

theorem subChecked_eq_some_iff {a b c : UInt64} :
    subChecked a b = some c ↔ a.toNat = b.toNat + c.toNat := by
  have ha := a.toNat_lt
  have hb := b.toNat_lt
  have hc := c.toNat_lt
  simp only [subChecked, UInt64.le_iff_toNat_le]
  split
  · rename_i hle
    have hsub := UInt64.toNat_sub_of_le a b (UInt64.le_iff_toNat_le.mpr hle)
    simp only [Option.some.injEq, ← UInt64.toNat_inj, hsub]
    omega
  · simp only [reduceCtorEq, false_iff]
    omega

theorem toNat_ofNat_of_lt_two_pow_64 {n : Nat} (h : n < 2 ^ 64) : (UInt64.ofNat n).toNat = n :=
  UInt64.toNat_ofNat_of_lt' h

theorem addChecked_eq_some {a b : UInt64} {m n : Nat} (ha : a.toNat = m) (hb : b.toNat = n)
    (h : m + n < 2 ^ 64) : addChecked a b = some (.ofNat (m + n)) := by
  rw [addChecked_eq_some_iff, ha, hb, toNat_ofNat_of_lt_two_pow_64 h]

def Leaf.InMemory : Leaf → Prop
  | bytes _ payload => payload.length < 2 ^ 63
  | text _ value | textZ _ value => (Bytes.ofText value).length < 2 ^ 63
  | _ => True

/-! ## Operations on storage -/

/-- One buffer, the word at which the message under construction starts in it, and what fill
callbacks were shown so far. -/
structure Storage where
  buffer : Bytes
  start : UInt64
  shown : List Bytes

namespace Storage

/-- How an operation ended and what it left. There is none where a sum, a difference or an index
left its range. -/
abbrev Answer (ε α : Type) := Option (Except ε α × Storage)

def length (s : Storage) : UInt64 := .ofNat s.buffer.length

def size? (s : Storage) : Option UInt64 := subChecked s.length s.start

/-- Copies `data` to the buffer at `place`, where it has to end inside the buffer. -/
def overwrite? (s : Storage) (place : UInt64) (data : Bytes) : Option Storage :=
  (addChecked place (.ofNat data.length)).bind fun stop =>
    if stop.toNat ≤ s.buffer.length then
      some { s with buffer := s.buffer.overwrite place.toNat data }
    else
      none

def write? (s : Storage) (offset : UInt64) (data : Bytes) : Option Storage :=
  (addChecked s.start offset).bind fun place => s.overwrite? place data

def setLength? (s : Storage) (size : UInt64) : Option Storage :=
  s.write? 0 (Bytes.encodeLE 4 size.toNat)

def extend? (s : Storage) (count : UInt64) : Answer DraftError UInt64 :=
  let padded := align count
  s.size?.bind fun size =>
    let grown := addSat size padded
    if Draft.maxSize < grown.toNat then
      some (.error (.tooLarge grown.toNat Draft.maxSize), s)
    else
      let place := s.length
      let longer := { s with buffer := s.buffer ++ Bytes.zeros padded.toNat }
      (longer.setLength? grown).bind fun s =>
        (addChecked place count).bind fun stop =>
          if stop.toNat ≤ s.buffer.length then some (.ok place, s) else none

def patch? (s : Storage) (offset : UInt64) (data : Bytes) : Answer DraftError Unit :=
  s.size?.bind fun size =>
    match (addChecked offset (.ofNat data.length)).filter fun stop => stop ≤ size with
    | none => some (.error (.outOfRange offset.toNat size.toNat), s)
    | some stop =>
      -- the bytes that are overwritten are as many as those that are copied
      (subChecked stop offset).bind fun count =>
        if count.toNat = data.length then (s.write? offset data).map fun s => (.ok (), s)
        else none

def truncate? (s : Storage) (count : UInt64) : Answer DraftError Unit :=
  s.size?.bind fun size =>
    if count.toNat < Message.headerSize ∨ size < count ∨ count ≠ align count then
      some (.error (.outOfRange count.toNat size.toNat), s)
    else
      (addChecked s.start count).bind fun stop =>
        let shorter := { s with buffer := s.buffer.take stop.toNat }
        (shorter.setLength? count).map fun s => (.ok (), s)

/-- Shows the `count` bytes at `place` to `fill`, which may fail on its own indices, and copies
back what it leaves there. -/
def fill? (s : Storage) (place count : UInt64) (fill : Bytes → Option Bytes) : Option Storage :=
  (addChecked place count).bind fun stop =>
    if stop.toNat ≤ s.buffer.length then
      let region := s.buffer.slice place.toNat count.toNat
      (fill region).bind fun written =>
        { s with shown := s.shown ++ [region] }.overwrite? place (written.take count.toNat)
    else
      none

def putWith? (s : Storage) (type : UInt16) (count : UInt64) (fill : Bytes → Option Bytes) :
    Answer AttributeError Unit :=
  let size := addSat (.ofNat Attribute.headerSize) count
  if Draft.maxAttributeSize < size.toNat then
    some (.error (.tooLarge type size.toNat Draft.maxAttributeSize), s)
  else
    (s.extend? size).bind fun
      | (.error e, s) => some (.error (.draft e), s)
      | (.ok place, s) =>
        (subChecked size (.ofNat Attribute.headerSize)).bind fun count =>
          (s.overwrite? place (Draft.attributeHeader size.toNat type)).bind fun s =>
            (addChecked place (.ofNat Attribute.headerSize)).bind fun payload =>
              (s.fill? payload count fill).map fun s => (.ok (), s)

def put? (s : Storage) (type : UInt16) (data : Bytes) : Answer AttributeError Unit :=
  s.putWith? type (.ofNat data.length) fun region =>
    if region.length = data.length then some data else none

def putTextZ? (s : Storage) (type : UInt16) (text : Bytes) : Answer AttributeError Unit :=
  (addChecked (.ofNat text.length) 1).bind fun count =>
    s.putWith? type count fun region =>
      if text.length < region.length then
        some ((region.overwrite 0 text).overwrite text.length [0])
      else
        none

def append? (s : Storage) : Leaf → Answer AttributeError Unit
  | .filled type count fill => s.putWith? type count fun region => some (fill region)
  | .textZ type text => s.putTextZ? type (Bytes.ofText text)
  | leaf => s.put? leaf.rawType leaf.payload

def nestStart? (s : Storage) (type : UInt16) : Answer AttributeError UInt64 :=
  s.size?.bind fun offset =>
    (s.extend? (.ofNat Attribute.headerSize)).bind fun
      | (.error e, s) => some (.error (.draft e), s)
      | (.ok place, s) =>
        (s.overwrite? place (Draft.attributeHeader 0 (type ||| Attribute.nestedFlag))).map fun s =>
          (.ok offset, s)

def nestEnd? (s : Storage) (type : UInt16) (offset : UInt64) : Answer AttributeError Unit :=
  s.size?.bind fun tail =>
    match (subChecked tail offset).filter fun size => .ofNat Attribute.headerSize ≤ size with
    | none => some (.error (.draft (.outOfRange offset.toNat tail.toNat)), s)
    | some size =>
      if Draft.maxAttributeSize < size.toNat then
        some (.error (.tooLarge type size.toNat Draft.maxAttributeSize), s)
      else
        (s.patch? offset (Bytes.encodeLE 2 size.toNat)).map fun (result, s) =>
          (result.mapError .draft, s)

def nestCancel? (s : Storage) (offset : UInt64) : Answer AttributeError Unit :=
  (s.truncate? offset).map fun (result, s) => (result.mapError .draft, s)

/-! ## The draft in storage -/

def of (d : Draft) (shown : List Bytes) : Storage := ⟨d.buffer, .ofNat d.before.length, shown⟩

/-- What a change leaves in storage that is refused or goes through, with what fill callbacks were
shown in the second case. -/
def outcome {ε : Type} (s : Storage) (shown : List Bytes) : Except ε Draft → Except ε Unit × Storage
  | .ok e => (.ok (), of e shown)
  | .error cause => (.error cause, s)

section Of

variable {d : Draft} {shown : List Bytes}

theorem length_buffer (d : Draft) : d.buffer.length = d.before.length + d.size := by
  rw [Draft.buffer, List.length_append, Draft.size]

theorem toNat_start (hd : d.buffer.length < 2 ^ 64) (shown : List Bytes) :
    (of d shown).start.toNat = d.before.length := by
  rw [length_buffer] at hd
  exact toNat_ofNat_of_lt_two_pow_64 (by omega)

theorem toNat_length (hd : d.buffer.length < 2 ^ 64) (shown : List Bytes) :
    (of d shown).length.toNat = d.before.length + d.size := by
  rw [← length_buffer]
  exact toNat_ofNat_of_lt_two_pow_64 hd

theorem toNat_size (d : Draft) : (UInt64.ofNat d.size).toNat = d.size :=
  toNat_ofNat_of_lt_two_pow_64 (Nat.lt_trans d.size_lt (by decide))

theorem size?_of (hd : d.buffer.length < 2 ^ 64) : (of d shown).size? = some (.ofNat d.size) := by
  rw [size?, subChecked_eq_some_iff, toNat_length hd, toNat_start hd, toNat_size]

theorem overwrite?_of (hd : d.buffer.length < 2 ^ 64) {place : UInt64} {offset : Nat} {data : Bytes}
    (hplace : place.toNat = d.before.length + offset) (hfits : offset + data.length ≤ d.size) :
    (of d shown).overwrite? place data = some (of (d.write offset data) shown) := by
  have hlength := length_buffer d
  have hdata : (UInt64.ofNat data.length).toNat = data.length :=
    toNat_ofNat_of_lt_two_pow_64 (by omega)
  have hsum := addChecked_eq_some hplace hdata (by omega)
  have hstop : (UInt64.ofNat (d.before.length + offset + data.length)).toNat ≤ d.buffer.length := by
    rw [toNat_ofNat_of_lt_two_pow_64 (by omega)]
    omega
  have hbytes : d.buffer.overwrite place.toNat data = (d.write offset data).buffer := by
    rw [hplace, Draft.buffer, Bytes.overwrite_append_of_length_le (Nat.le_add_right _ _),
      Nat.add_sub_cancel_left]
    rfl
  rw [overwrite?, hsum, Option.bind_some]
  show (if _ ≤ d.buffer.length then _ else _) = _
  rw [if_pos hstop]
  show some (⟨d.buffer.overwrite place.toNat data, _, _⟩ : Storage) = _
  rw [hbytes]
  rfl

theorem write?_of (hd : d.buffer.length < 2 ^ 64) {offset : UInt64} {data : Bytes}
    (hfits : offset.toNat + data.length ≤ d.size) :
    (of d shown).write? offset data = some (of (d.write offset.toNat data) shown) := by
  have hlength := length_buffer d
  have hsum := addChecked_eq_some (b := offset) (toNat_start hd shown) rfl (by omega)
  rw [write?, hsum, Option.bind_some]
  exact overwrite?_of hd (toNat_ofNat_of_lt_two_pow_64 (by omega)) hfits

theorem setLength?_of (hd : d.buffer.length < 2 ^ 64) {size : UInt64}
    (hsize : size.toNat = d.size) :
    (of d shown).setLength? size = some (of d.setLength shown) := by
  have hheader := d.headerSize_le
  rw [setLength?, hsize]
  exact write?_of hd (by rw [Bytes.length_encodeLE]; exact Nat.le_trans (by decide) hheader)

theorem of_append_zeros (d : Draft) (shown : List Bytes) {count : Nat} (haligned : count % 4 = 0)
    (hfits : d.size + count ≤ Draft.maxSize) :
    ∃ e : Draft, { of d shown with buffer := d.buffer ++ Bytes.zeros count } = of e shown ∧
      e.size = d.size + count ∧ e.buffer.length = d.buffer.length + count ∧
      e.setLength = d.grow count haligned hfits := by
  have hheader := d.headerSize_le
  have hmod := d.aligned
  let e : Draft := { d with
    bytes := d.bytes ++ Bytes.zeros count
    headerSize_le := by
      rw [List.length_append]
      omega
    aligned := by
      rw [List.length_append, Bytes.length_zeros]
      omega
    length_le := by
      rw [List.length_append, Bytes.length_zeros]
      exact hfits }
  have hbuffer : d.buffer ++ Bytes.zeros count = e.buffer := List.append_assoc ..
  refine ⟨e, ?_, ?_, ?_, rfl⟩
  · rw [hbuffer]
    rfl
  · show (d.bytes ++ Bytes.zeros count).length = _
    rw [List.length_append, Bytes.length_zeros]
    rfl
  · rw [← hbuffer, List.length_append, Bytes.length_zeros]

theorem of_take (d : Draft) (shown : List Bytes) {count : Nat}
    (hheader : Message.headerSize ≤ count) (hfits : count ≤ d.size) (haligned : count % 4 = 0) :
    ∃ e : Draft,
      { of d shown with buffer := d.buffer.take (d.before.length + count) } = of e shown ∧
      e.size = count ∧ e.buffer.length ≤ d.buffer.length ∧
      e.setLength = d.cut count hheader hfits haligned := by
  have hlength : (d.bytes.take count).length = count := List.length_take_of_le hfits
  let e : Draft := { d with
    bytes := d.bytes.take count
    headerSize_le := hlength.symm ▸ hheader
    aligned := hlength.symm ▸ haligned
    length_le := hlength.symm ▸ Nat.le_trans hfits d.length_le }
  have hbuffer : d.buffer.take (d.before.length + count) = e.buffer := by
    rw [Draft.buffer, List.take_append, List.take_of_length_le (Nat.le_add_right _ _),
      Nat.add_sub_cancel_left]
    rfl
  refine ⟨e, ?_, hlength, ?_, rfl⟩
  · rw [hbuffer]
    rfl
  · rw [← hbuffer]
    exact List.length_take_le' _ _

end Of

end Storage

end Netlink
