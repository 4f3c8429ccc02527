import Netlink.Proofs.Alignment
import Netlink.Proofs.Stream.Iteration
import Netlink.Record.Position

/-!
# Iterations in words

A cursor is an iteration that holds its offset in an unsigned word and the count of bytes left in a
signed one, checks every sum and saturates where a result has no room. Main statement:
`Cursor.agrees_after`, by which none of this shows on a buffer whose length is a signed word: the
cursor finds the records that the stream has, at the same offsets and with the same counts.
-/

namespace Netlink

/-! ## Words -/

theorem toNat_toUInt64 {remaining : Int64} (h : 0 ≤ remaining) :
    (remaining.toUInt64.toNat : Int) = remaining.toInt := by
  rw [Int64.toNat_toUInt64_of_le h, ← Int64.toInt_eq_toNatClampNeg h]

/-- A signed word holds the number that is nearest to the one it is made of. -/
theorem toInt_ofIntClamp_eq (i : Int) :
    (Int64.ofIntClamp i).toInt = max (-2 ^ 63) (min i (2 ^ 63 - 1)) := by
  have hmin : Int64.minValue.toInt = -2 ^ 63 := rfl
  have hmax : Int64.maxValue.toInt = 2 ^ 63 - 1 := rfl
  by_cases hlow : Int64.minValue.toInt ≤ i
  · by_cases hhigh : i ≤ Int64.maxValue.toInt
    · rw [Int64.toInt_ofIntClamp hlow hhigh]
      omega
    · unfold Int64.ofIntClamp
      rw [dif_pos hlow, dif_neg hhigh, hmax]
      omega
  · unfold Int64.ofIntClamp
    rw [dif_neg hlow, hmin]
    omega

theorem toInt_ofIntClamp {i : Int} (hlow : -2 ^ 63 ≤ i) (hhigh : i < 2 ^ 63) :
    (Int64.ofIntClamp i).toInt = i := by
  rw [toInt_ofIntClamp_eq]
  omega

theorem toInt_ofIntClamp_toNat (n : UInt64) :
    (Int64.ofIntClamp n.toNat).toInt = min n.toNat (2 ^ 63 - 1) := by
  rw [toInt_ofIntClamp_eq]
  omega

/-! ## Positions -/

namespace Position

variable {L : Layout} {p : Position L}

def Fits (p : Position L) : Prop := p.buffer.length < 2 ^ 63

def declared (p : Position L) : Nat := L.declared (p.buffer.drop p.offset.toNat)

theorem bytes?_eq (hp : p.Fits) (count : UInt64) :
    p.bytes? count =
      if p.offset.toNat + count.toNat ≤ p.buffer.length then
        some (p.buffer.slice p.offset.toNat count.toNat)
      else
        none := by
  unfold Fits at hp
  rw [bytes?]
  cases hsum : addChecked p.offset count with
  | none =>
      have hwide := addChecked_eq_none_iff.mp hsum
      rw [if_neg (by omega)]
      rfl
  | some stop =>
      rw [addChecked_eq_some_iff.mp hsum]
      rfl

theorem toNat_declared (p : Position L) : (UInt64.ofNat p.declared).toNat = p.declared :=
  toNat_ofNat_of_lt_two_pow_32 (L.declared_lt _)

theorem declared?_eq (hp : p.Fits) :
    p.declared? =
      if p.offset.toNat + L.lengthWidth ≤ p.buffer.length then some (.ofNat p.declared)
      else none := by
  have hwidth : (UInt64.ofNat L.lengthWidth).toNat = L.lengthWidth :=
    toNat_ofNat_of_lt_two_pow_32 (Nat.lt_of_le_of_lt L.lengthWidth_le (by decide))
  rw [declared?, bytes?_eq hp, hwidth]
  split <;> rfl

theorem ok_iff (hp : p.Fits) (remaining : Int64) :
    p.ok remaining = true ↔
      (L.headerSize : Int) ≤ remaining.toInt ∧
        p.offset.toNat + L.lengthWidth ≤ p.buffer.length ∧ L.headerSize ≤ p.declared ∧
        (p.declared : Int) ≤ remaining.toInt ∧
        p.offset.toNat + p.declared ≤ p.buffer.length := by
  have hheader : (UInt64.ofNat L.headerSize).toNat = L.headerSize :=
    toNat_ofNat_of_lt_two_pow_32 (Nat.lt_of_le_of_lt L.headerSize_le (by decide))
  have hdeclared := p.toNat_declared
  have hpos := L.headerSize_pos
  rw [ok]
  by_cases hnegative : remaining < 0
  · have hlt := Int64.lt_iff_toInt_lt.mp hnegative
    rw [Int64.toInt_zero] at hlt
    simp only [if_pos hnegative, Bool.false_eq_true, false_iff]
    omega
  · have hcount := toNat_toUInt64 (Int64.not_lt.mp hnegative)
    rw [if_neg hnegative, declared?_eq hp]
    by_cases hfield : p.offset.toNat + L.lengthWidth ≤ p.buffer.length
    · rw [if_pos hfield]
      simp only [Bool.and_eq_true, decide_eq_true_eq, UInt64.le_iff_toNat_le, hheader, hdeclared,
        bytes?_eq hp, Option.isSome_ite]
      omega
    · simp only [if_neg hfield, Bool.false_eq_true, false_iff]
      omega

theorem record?_eq (hp : p.Fits) (remaining : Int64) :
    (p.record? remaining : Option (Record L)) =
      if p.ok remaining then Record.first? (p.buffer.drop p.offset.toNat) else none := by
  rw [record?]
  by_cases hok : p.ok remaining = true
  · obtain ⟨_, hfield, hheader, _, hfits⟩ := (ok_iff hp remaining).mp hok
    have hlength : (p.buffer.drop p.offset.toNat).length = p.buffer.length - p.offset.toNat :=
      List.length_drop
    rw [if_pos hok, if_pos hok, declared?_eq hp, if_pos hfield, Option.bind_some, bytes?_eq hp,
      toNat_declared, if_pos hfits, Option.bind_some]
    have hfront : (p.buffer.slice p.offset.toNat p.declared).length = p.declared := by
      rw [Bytes.length_slice]
      omega
    have hown : L.declared (p.buffer.slice p.offset.toNat p.declared) = p.declared :=
      Record.declared_take hheader
    let front : Record L := ⟨p.buffer.slice p.offset.toNat p.declared, by omega, by omega⟩
    have hsplit : front.bytes ++ (p.buffer.drop p.offset.toNat).drop p.declared =
        p.buffer.drop p.offset.toNat := List.take_append_drop _ _
    rw [← hsplit, front.first?_append, Record.ofExact?, dif_pos ⟨by omega, by omega⟩]
  · rw [if_neg hok, if_neg hok]

/-- The length that a step passes over: nothing where the length field is not in the buffer. -/
def passed (p : Position L) : Nat :=
  if p.offset.toNat + L.lengthWidth ≤ p.buffer.length then p.declared else 0

def step (p : Position L) : Nat := (align (.ofNat p.passed)).toNat

theorem getD_declared? (hp : p.Fits) : p.declared?.getD 0 = .ofNat p.passed := by
  rw [declared?_eq hp, passed]
  split
  · exact Option.getD_some
  · exact Option.getD_none

theorem step_eq (p : Position L) : p.step = roundUp p.passed := by
  have hdeclared : p.declared < 2 ^ 32 := L.declared_lt _
  have hpassed : p.passed < 2 ^ 32 := by
    rw [passed]
    split <;> omega
  rw [step, toNat_align_ofNat (by omega)]

/-- A step leads on by as much as it takes from the count. Offset and count saturate. -/
theorem next_eq (hp : p.Fits) (remaining : Int64) :
    (p.next remaining).1.buffer = p.buffer ∧
      (p.next remaining).1.offset.toNat = min (p.offset.toNat + p.step) (1 <<< 64 - 1) ∧
      (p.next remaining).2 = .ofIntClamp (remaining.toInt - p.step) := by
  refine ⟨rfl, ?_, ?_⟩
  · show (addSat p.offset (align (p.declared?.getD 0))).toNat = _
    rw [toNat_addSat, getD_declared? hp, step]
  · show Int64.ofIntClamp (remaining.toInt - (align (p.declared?.getD 0)).toNat) = _
    rw [getD_declared? hp, step]

end Position

/-! ## Cursors -/

structure Cursor (L : Layout) where
  position : Position L
  remaining : Int64

namespace Cursor

variable {L : Layout} {c : Cursor L} {s : Stream L}

def ofBytes (bs : Bytes) : Cursor L := ⟨⟨bs, 0⟩, .ofIntClamp bs.length⟩

def found (c : Cursor L) : Option (Record L) := c.position.record? c.remaining

def advance (c : Cursor L) : Cursor L :=
  match c.found with
  | some _ => ⟨(c.position.next c.remaining).1, (c.position.next c.remaining).2⟩
  | none => c

def after (c : Cursor L) (n : Nat) : Cursor L := advance^[n] c

/-- A cursor holds the state of a stream in words. -/
structure Agrees (buffer : Bytes) (c : Cursor L) (s : Stream L) : Prop where
  within : s.Within buffer
  buffer : c.position.buffer = buffer
  offset : c.position.offset.toNat = s.offset
  remaining : c.remaining.toInt = s.remaining

theorem agrees_ofBytes {buffer : Bytes} (hbuffer : buffer.length < 2 ^ 63) :
    Agrees buffer (ofBytes buffer : Cursor L) (.ofBytes buffer) where
  within := Stream.within_ofBytes buffer
  buffer := rfl
  offset := rfl
  remaining := toInt_ofIntClamp (by omega) (by omega)

section Agrees

variable {buffer : Bytes} (hbuffer : buffer.length < 2 ^ 63) (h : Agrees buffer c s)
include hbuffer h

theorem Agrees.fits : c.position.Fits := by
  rw [Position.Fits, h.buffer]
  exact hbuffer

theorem Agrees.found_eq : c.found = Record.first? s.rest := by
  have hp := h.fits hbuffer
  have hrest : c.position.buffer.drop c.position.offset.toNat = s.rest := by
    rw [h.buffer, h.offset, h.within.rest]
  have hwidth := L.lengthWidth_le_headerSize
  have hpos := L.headerSize_pos
  have htotal := h.within.total
  have hlength : s.rest.length = buffer.length - s.offset := by
    rw [h.within.rest, List.length_drop]
  have hok := Position.ok_iff hp c.remaining
  rw [Position.declared, hrest, h.buffer, h.offset, h.remaining] at hok
  rw [found, Position.record?_eq hp, hrest]
  by_cases hcomplete : c.position.ok c.remaining = true
  · rw [if_pos hcomplete]
  · rw [if_neg hcomplete]
    symm
    rw [hok] at hcomplete
    rw [Record.first?_eq_none_iff]
    omega

theorem Agrees.advance : Agrees buffer c.advance s.advance := by
  have hfound := h.found_eq hbuffer
  cases hfirst : Record.first? (L := L) s.rest with
  | none =>
      rw [hfirst] at hfound
      rw [Cursor.advance, hfound, Stream.advance_of_none hfirst]
      exact h
  | some r =>
      have hp := h.fits hbuffer
      have hwidth := L.lengthWidth_le_headerSize
      obtain ⟨_, hsize, hheader, hfits⟩ := h.within.first?_eq_some hfirst
      have hdeclared : c.position.declared = r.size := by
        rw [Position.declared, h.buffer, h.offset, ← h.within.rest, hsize]
      -- the record was found, so its length field is in the buffer and the step is over its length
      have hfield : c.position.offset.toNat + L.lengthWidth ≤ c.position.buffer.length := by
        rw [h.buffer, h.offset]
        omega
      have hstep : c.position.step = roundUp r.size := by
        rw [Position.step_eq, Position.passed, if_pos hfield, hdeclared]
      obtain ⟨hbytes, hoffset, hremaining⟩ := Position.next_eq hp c.remaining
      have htotal := h.within.total
      have hspan : roundUp r.size < r.size + 4 := roundUp_lt r.size
      rw [hfirst] at hfound
      rw [Cursor.advance, hfound, Stream.advance_of_first? hfirst]
      refine ⟨h.within.skip hfirst, hbytes.trans h.buffer, ?_, ?_⟩
      · show (c.position.next c.remaining).1.offset.toNat = s.offset + roundUp r.size
        rw [hoffset, hstep, h.offset]
        omega
      · show (c.position.next c.remaining).2.toInt = s.remaining - roundUp r.size
        rw [hremaining, hstep, h.remaining]
        exact toInt_ofIntClamp (by omega) (by omega)

theorem Agrees.after (n : Nat) : Agrees buffer (c.after n) (s.after n) := by
  induction n with
  | zero => exact h
  | succ n ih =>
      have hstep := ih.advance hbuffer
      rw [Stream.after_succ, Cursor.after, Function.iterate_succ_apply']
      exact hstep

end Agrees

/-- In every state of an iteration, the words hold the offset and the count of the stream. -/
theorem agrees_after {buffer : Bytes} (hbuffer : buffer.length < 2 ^ 63) (n : Nat) :
    Agrees buffer ((ofBytes buffer : Cursor L).after n) ((Stream.ofBytes buffer).after n) :=
  (agrees_ofBytes hbuffer).after hbuffer n

end Cursor

end Netlink
