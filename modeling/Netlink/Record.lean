import Netlink.Align

/-!
# Length-prefixed records

A record is a byte string that begins with its own length. Messages and attributes are records
of two layouts, which differ in the width of the length field and the size of the header.
`Record.first?` reads the record at the front of a byte string; main statements:
`Record.first?_eq_some_iff`, which says when it finds which one, and `Record.first?_append` with
`Record.eq_append_of_first?`, by which it finds a record exactly where one stands in front.
-/

namespace Netlink

structure Layout where
  /-- Bytes in the length field, which opens the header. -/
  lengthWidth : Nat
  headerSize : Nat
  lengthWidth_le : lengthWidth ≤ 4 := by decide
  lengthWidth_le_headerSize : lengthWidth ≤ headerSize := by decide
  headerSize_pos : 0 < headerSize := by decide
  headerSize_le : headerSize ≤ 16 := by decide

namespace Layout

abbrev message : Layout := { lengthWidth := 4, headerSize := 16 }

abbrev attr : Layout := { lengthWidth := 2, headerSize := 4 }

def declared (L : Layout) (bs : Bytes) : Nat := Bytes.decodeLE (bs.take L.lengthWidth)

theorem declared_lt (L : Layout) (bs : Bytes) : L.declared bs < 1 <<< 32 := by
  have hlt := Bytes.decodeLE_lt (bs.take L.lengthWidth)
  have hwidth : 8 * (bs.take L.lengthWidth).length ≤ 32 := by
    have := L.lengthWidth_le
    simp only [List.length_take]
    omega
  have hpow := Nat.pow_le_pow_right (show 0 < 2 by decide) hwidth
  simp only [declared, Nat.one_shiftLeft] at hlt ⊢
  omega

end Layout

/-- A byte string whose declared length is its own and covers its header. -/
@[ext] structure Record (L : Layout) where
  bytes : Bytes
  headerSize_le : L.headerSize ≤ bytes.length
  declared_eq : L.declared bytes = bytes.length
  deriving DecidableEq

namespace Record

variable {L : Layout}

def size (r : Record L) : Nat := r.bytes.length

def payload (r : Record L) : Bytes := r.bytes.drop L.headerSize

def payloadSize (r : Record L) : Nat := r.size - L.headerSize

/-- Distance from the start of the record to where the next one starts. -/
def span (r : Record L) : Nat := roundUp r.size

def ofExact? (bs : Bytes) : Option (Record L) :=
  if h : L.headerSize ≤ bs.length ∧ L.declared bs = bs.length then some ⟨bs, h.1, h.2⟩ else none

theorem declared_take {bs : Bytes} (h : L.headerSize ≤ L.declared bs) :
    L.declared (bs.take (L.declared bs)) = L.declared bs := by
  have hwidth := L.lengthWidth_le_headerSize
  simp only [Layout.declared, List.take_take] at h ⊢
  rw [Nat.min_eq_left (by omega)]

/-- The complete record at the front of `bs`. -/
def first? (bs : Bytes) : Option (Record L) :=
  let front := bs.take (L.declared bs)
  if h : L.headerSize ≤ L.declared bs ∧ front.length = L.declared bs then
    some ⟨front, h.2.symm ▸ h.1, (declared_take h.1).trans h.2.symm⟩
  else
    none

theorem first?_eq_some_iff {bs : Bytes} {r : Record L} :
    first? bs = some r ↔ L.headerSize ≤ L.declared bs ∧ L.declared bs ≤ bs.length ∧
      r.bytes = bs.take (L.declared bs) := by
  have hlength : (bs.take (L.declared bs)).length = L.declared bs ↔
      L.declared bs ≤ bs.length := by
    simp only [List.length_take]
    omega
  simp only [first?]
  split
  · rename_i h
    rw [hlength] at h
    simp only [h, true_and, Option.some.injEq]
    constructor
    · rintro rfl
      rfl
    · intro hbytes
      cases r
      simp_all
  · rename_i h
    rw [hlength] at h
    simp only [reduceCtorEq, false_iff]
    exact fun ⟨hheader, hfits, _⟩ => h ⟨hheader, hfits⟩

theorem first?_append (r : Record L) (rest : Bytes) : first? (r.bytes ++ rest) = some r := by
  have hwidth := L.lengthWidth_le_headerSize
  have hheader := r.headerSize_le
  have hdeclared : L.declared (r.bytes ++ rest) = r.bytes.length := by
    rw [← r.declared_eq]
    simp only [Layout.declared]
    rw [List.take_append_of_le_length (by omega)]
  refine first?_eq_some_iff.mpr ⟨?_, ?_, ?_⟩
  · omega
  · simp only [hdeclared, List.length_append]
    omega
  · rw [hdeclared, List.take_left]

theorem eq_append_of_first? {bs : Bytes} {r : Record L} (h : first? bs = some r) :
    bs = r.bytes ++ bs.drop r.bytes.length := by
  obtain ⟨_, hfits, hbytes⟩ := first?_eq_some_iff.mp h
  have hlength : r.bytes.length = L.declared bs := by
    rw [hbytes, List.length_take]
    omega
  rw [hlength, hbytes, List.take_append_drop]

theorem size_pos (r : Record L) : 0 < r.size :=
  Nat.lt_of_lt_of_le L.headerSize_pos r.headerSize_le

theorem span_pos (r : Record L) : 0 < r.span :=
  Nat.lt_of_lt_of_le r.size_pos (le_roundUp r.size)

theorem length_payload (r : Record L) : r.payload.length = r.payloadSize := by
  simp [payload, payloadSize, size]

theorem size_lt (r : Record L) : r.size < 1 <<< 32 := by
  simp only [size, ← r.declared_eq]
  exact L.declared_lt r.bytes

theorem size_le_of_first? {bs : Bytes} {r : Record L} (h : first? bs = some r) :
    r.size ≤ bs.length := by
  obtain ⟨_, hfits, hbytes⟩ := first?_eq_some_iff.mp h
  simp only [size, hbytes, List.length_take]
  omega

end Record

end Netlink
