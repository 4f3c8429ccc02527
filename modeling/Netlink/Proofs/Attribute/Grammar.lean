import Netlink.Attribute.Policy
import Netlink.Proofs.Attribute.Forest

/-!
# The grammar of attribute streams

A stream is well formed if it is attributes one after another, each padded to the boundary, where
the padding of the last may be cut. `WellFormed` says so by the bytes alone. Main statements:
`records_of_wellFormed` and `wellFormed_of_last`, by which these are the streams that leave nothing
over, and `longestPadded_of_last` for the others.
-/

namespace Netlink

structure Chunk where
  type : UInt16
  payload : Bytes
  deriving DecidableEq

namespace Chunk

def size (c : Chunk) : Nat := 4 + c.payload.length

def encode (c : Chunk) : Bytes :=
  Bytes.encodeLE 2 c.size ++ Bytes.encodeLE 2 c.type.toNat ++ c.payload

def gap (c : Chunk) : Nat := roundUp c.size - c.size

end Chunk

/-- `bs` is the attributes `cs` one after another, each with its whole padding. -/
inductive Padded : List Chunk → Bytes → Prop
  | nil : Padded [] []
  | cons {c : Chunk} {cs : List Chunk} {padding bs : Bytes} (fits : c.size < 2 ^ 16)
      (pads : padding.length = c.gap) (later : Padded cs bs) :
      Padded (c :: cs) (c.encode ++ padding ++ bs)

/-- `bs` is the attributes `cs` one after another, of which the last may lack padding. -/
inductive WellFormed : List Chunk → Bytes → Prop
  | nil : WellFormed [] []
  | last {c : Chunk} {padding : Bytes} (fits : c.size < 2 ^ 16) (pads : padding.length ≤ c.gap) :
      WellFormed [c] (c.encode ++ padding)
  | cons {c : Chunk} {cs : List Chunk} {padding bs : Bytes} (fits : c.size < 2 ^ 16)
      (pads : padding.length = c.gap) (later : WellFormed cs bs) :
      WellFormed (c :: cs) (c.encode ++ padding ++ bs)

/-- `front` is padded attributes, and no longer part of `front ++ back` from the start is. -/
def LongestPadded (cs : List Chunk) (front back : Bytes) : Prop :=
  Padded cs front ∧ ∀ cs' front' back', front ++ back = front' ++ back' → Padded cs' front' →
    front'.length ≤ front.length

/-! ## One attribute -/

def Attribute.chunk (a : Attribute) : Chunk := ⟨a.rawType, a.payload⟩

namespace Chunk

variable {a : Attribute} {c : Chunk}

@[simp] theorem length_encode (c : Chunk) : c.encode.length = c.size := by
  simp only [encode, size, List.length_append, Bytes.length_encodeLE]

theorem size_chunk (a : Attribute) : a.chunk.size = a.size := by
  have hheader : 4 ≤ a.bytes.length := a.headerSize_le
  have hpayload : a.payload.length = a.bytes.length - 4 := a.length_payload
  show 4 + a.payload.length = a.bytes.length
  omega

theorem span_eq_add_gap (a : Attribute) : a.span = a.size + a.chunk.gap := by
  have hup := le_roundUp a.size
  rw [gap, size_chunk]
  show roundUp a.size = _
  omega

theorem fits_chunk (a : Attribute) : a.chunk.size < 2 ^ 16 := by
  have hheader : 4 ≤ a.bytes.length := a.headerSize_le
  have hlt := Bytes.decodeLE_lt (a.bytes.take 2)
  have hfield : (a.bytes.take 2).length = 2 := by
    rw [List.length_take]
    omega
  have hown : Bytes.decodeLE (a.bytes.take 2) = a.bytes.length := a.declared_eq
  rw [hfield, hown] at hlt
  rw [size_chunk]
  exact hlt

theorem encode_chunk (a : Attribute) : a.chunk.encode = a.bytes := by
  have hheader : 4 ≤ a.bytes.length := a.headerSize_le
  have hlength : Bytes.encodeLE 2 a.chunk.size = a.bytes.take 2 := by
    have hfield : (a.bytes.take 2).length = 2 := by
      rw [List.length_take]
      omega
    have hown : Bytes.decodeLE (a.bytes.take 2) = a.size := a.declared_eq
    have hencode := Bytes.encodeLE_decodeLE (a.bytes.take 2)
    rwa [hfield, hown, ← size_chunk] at hencode
  have htype : Bytes.encodeLE 2 a.rawType.toNat = a.bytes.slice 2 2 := by
    have hfield : (a.bytes.slice 2 2).length = 2 := by
      rw [Bytes.length_slice]
      omega
    have hencode := Bytes.encodeLE_decodeLE (a.bytes.slice 2 2)
    rw [hfield] at hencode
    rw [Attribute.rawType, UInt16.toNat_ofNat']
    exact (Bytes.encodeLE_mod 2 _).trans hencode
  calc a.chunk.encode
      = Bytes.encodeLE 2 a.chunk.size ++ Bytes.encodeLE 2 a.rawType.toNat ++ a.payload := rfl
    _ = a.bytes.slice 0 2 ++ a.bytes.slice (0 + 2) 2 ++ a.bytes.drop 4 := by
        rw [hlength, htype]
        rfl
    _ = a.bytes := by
        rw [Bytes.slice_append_slice, Bytes.slice, List.drop_zero, List.take_append_drop]

theorem first?_encode_append (hfits : c.size < 2 ^ 16) (rest : Bytes) :
    ∃ a : Attribute, Record.first? (c.encode ++ rest) = some a ∧ a.chunk = c ∧ a.size = c.size := by
  have hmax : 4 + c.payload.length ≤ Draft.maxAttributeSize := Nat.le_of_lt_succ hfits
  have hchunk : (Attribute.ofPayload c.type c.payload hmax).chunk = c := by
    rw [Attribute.chunk, Attribute.rawType_ofPayload, Attribute.payload_ofPayload]
  refine ⟨_, (Attribute.ofPayload c.type c.payload hmax).first?_append rest, hchunk, ?_⟩
  rw [← size_chunk, hchunk]

end Chunk

/-! ## Streams -/

namespace Attributes

variable {s : Attributes} {a : Attribute} {cs : List Chunk} {bs : Bytes}

theorem rest_eq_of_first? (hfirst : Record.first? s.rest = some a) :
    s.rest =
      a.chunk.encode ++ (s.rest.drop a.size).take a.chunk.gap ++ (s.skip a.span).rest := by
  have hsplit := Record.eq_append_of_first? hfirst
  rw [Stream.rest_skip, Chunk.span_eq_add_gap, ← List.drop_drop, List.append_assoc,
    List.take_append_drop, Chunk.encode_chunk]
  exact hsplit

theorem first?_of_padded {c : Chunk} {padding rest : Bytes} (fits : c.size < 2 ^ 16)
    (pads : padding.length = c.gap) (hrest : s.rest = c.encode ++ padding ++ rest)
    (hcount : s.remaining = s.rest.length) :
    ∃ a : Attribute, Record.first? s.rest = some a ∧ a.chunk = c ∧ (s.skip a.span).rest = rest ∧
      (s.skip a.span).remaining = (s.skip a.span).rest.length := by
  obtain ⟨a, hfirst, hchunk, hsize⟩ := Chunk.first?_encode_append fits (padding ++ rest)
  have hup := le_roundUp c.size
  have hspan : a.span = (c.encode ++ padding).length := by
    rw [Record.span, hsize, List.length_append, Chunk.length_encode, pads, Chunk.gap]
    omega
  rw [← List.append_assoc, ← hrest] at hfirst
  refine ⟨a, hfirst, hchunk, ?_⟩
  rw [hspan]
  exact skip_padded hrest hcount

theorem records_of_wellFormed (h : WellFormed cs bs) (hrest : s.rest = bs)
    (hcount : s.remaining = s.rest.length) :
    s.records.map Attribute.chunk = cs ∧ s.last.remaining ≤ 0 := by
  induction h generalizing s with
  | nil =>
      have hnone := Record.first?_of_nil (L := .attr) hrest
      rw [Stream.records_of_none hnone, Stream.last_of_none hnone, hcount, hrest]
      exact ⟨rfl, Int.le_refl 0⟩
  | @last c padding fits pads =>
      obtain ⟨a, hfirst, hchunk, hsize⟩ := Chunk.first?_encode_append fits padding
      have hup := le_roundUp c.size
      have hspan : a.span = roundUp c.size := congrArg roundUp hsize
      have hlength : s.rest.length = c.size + padding.length := by
        rw [hrest, List.length_append, Chunk.length_encode]
      rw [Chunk.gap] at pads
      have hnone : Record.first? (L := .attr) (s.skip a.span).rest = none := by
        apply Record.first?_eq_none_of_length_lt
        rw [Stream.rest_skip, List.length_drop]
        show _ < 4
        omega
      rw [← hrest] at hfirst
      rw [Stream.records_of_first? hfirst, Stream.last_of_first? hfirst,
        Stream.records_of_none hnone, Stream.last_of_none hnone, Stream.remaining_skip]
      exact ⟨congrArg (· :: []) hchunk, by omega⟩
  | cons fits pads later ih =>
      obtain ⟨a, hfirst, hchunk, hbehind, hleft⟩ := first?_of_padded fits pads hrest hcount
      obtain ⟨hlater, hend⟩ := ih hbehind hleft
      rw [Stream.records_of_first? hfirst, Stream.last_of_first? hfirst, List.map_cons, hchunk,
        hlater]
      exact ⟨rfl, hend⟩

theorem length_rest_last_le (s : Attributes) : s.last.rest.length ≤ s.rest.length := by
  induction s using Stream.walk_induction with
  | stop s hnone =>
      exact Nat.le_of_eq (by rw [Stream.last_of_none hnone])
  | step s a hfirst ih =>
      have hskip : (s.skip a.span).rest.length ≤ s.rest.length := by
        rw [Stream.rest_skip, List.length_drop]
        exact Nat.sub_le _ _
      rw [Stream.last_of_first? hfirst]
      exact Nat.le_trans ih hskip

/-- The records of a stream lead at least as far as any padded attributes at its start. -/
theorem length_last_le_of_padded {front back : Bytes} (h : Padded cs front)
    (hrest : s.rest = front ++ back) (hcount : s.remaining = s.rest.length) :
    s.last.rest.length ≤ back.length := by
  induction h generalizing s with
  | nil =>
      have hlength := length_rest_last_le s
      rwa [hrest] at hlength
  | cons fits pads later ih =>
      rw [List.append_assoc] at hrest
      obtain ⟨a, hfirst, _, hbehind, hleft⟩ := first?_of_padded fits pads hrest hcount
      rw [Stream.last_of_first? hfirst]
      exact ih hbehind hleft

theorem gap_of_first? (hfirst : Record.first? s.rest = some a)
    (hcount : s.remaining = s.rest.length) :
    (((s.rest.drop a.size).take a.chunk.gap).length = a.chunk.gap ∧
        (s.skip a.span).remaining = (s.skip a.span).rest.length) ∨
      (s.skip a.span).rest = [] ∧ (s.skip a.span).remaining < 0 := by
  have hfits := Record.size_le_of_first? hfirst
  have hspan := Chunk.span_eq_add_gap a
  rw [Stream.rest_skip, Stream.remaining_skip, List.length_take, List.length_drop,
    List.length_drop, hcount]
  by_cases hwhole : a.span ≤ s.rest.length
  · left
    omega
  · right
    exact ⟨List.drop_eq_nil_of_le (by omega), by omega⟩

theorem wellFormed_of_last (hcount : s.remaining = s.rest.length) (hlast : s.last.remaining ≤ 0) :
    WellFormed (s.records.map Attribute.chunk) s.rest := by
  induction s using Stream.walk_induction with
  | stop s hnone =>
      rw [Stream.last_of_none hnone] at hlast
      have hempty : s.rest = [] := by
        apply List.eq_nil_of_length_eq_zero
        omega
      rw [Stream.records_of_none hnone, hempty]
      exact .nil
  | step s a hfirst ih =>
      have hsplit := rest_eq_of_first? hfirst
      have hfits := Chunk.fits_chunk a
      rw [Stream.last_of_first? hfirst] at hlast
      rw [Stream.records_of_first? hfirst, List.map_cons]
      rcases gap_of_first? hfirst hcount with ⟨hpads, hleft⟩ | ⟨hempty, _⟩
      · have hcons := WellFormed.cons hfits hpads (ih hleft hlast)
        rwa [← hsplit] at hcons
      · have hnone := Record.first?_of_nil (L := .attr) hempty
        have hpads := List.length_take_le (Attribute.chunk a).gap (s.rest.drop a.size)
        have hcut := WellFormed.last hfits hpads
        rw [hempty, List.append_nil] at hsplit
        rw [Stream.records_of_none hnone]
        rwa [← hsplit] at hcut

theorem padded_of_last (hcount : s.remaining = s.rest.length) (hlast : 0 < s.last.remaining) :
    ∃ front, s.rest = front ++ s.last.rest ∧ Padded (s.records.map Attribute.chunk) front := by
  induction s using Stream.walk_induction with
  | stop s hnone =>
      rw [Stream.records_of_none hnone, Stream.last_of_none hnone]
      exact ⟨[], rfl, .nil⟩
  | step s a hfirst ih =>
      rw [Stream.last_of_first? hfirst] at hlast ⊢
      rw [Stream.records_of_first? hfirst, List.map_cons]
      rcases gap_of_first? hfirst hcount with ⟨hpads, hleft⟩ | ⟨hempty, hnegative⟩
      · obtain ⟨front, hrest, hpadded⟩ := ih hleft hlast
        refine ⟨_, ?_, .cons (Chunk.fits_chunk a) hpads hpadded⟩
        rw [List.append_assoc, ← hrest]
        exact rest_eq_of_first? hfirst
      · have hnone := Record.first?_of_nil (L := .attr) hempty
        rw [Stream.last_of_none hnone] at hlast
        omega

/-- Where a stream leaves bytes over, they stand behind the longest padded part of it. -/
theorem longestPadded_of_last (hcount : s.remaining = s.rest.length)
    (hlast : 0 < s.last.remaining) :
    ∃ front, s.rest = front ++ s.last.rest ∧
      LongestPadded (s.records.map Attribute.chunk) front s.last.rest := by
  obtain ⟨front, hrest, hpadded⟩ := padded_of_last hcount hlast
  refine ⟨front, hrest, hpadded, ?_⟩
  intro cs' front' back' hsame hpadded'
  have hle := length_last_le_of_padded hpadded' (hrest.trans hsame) hcount
  have hlength := congrArg List.length hsame
  rw [List.length_append, List.length_append] at hlength
  omega

end Attributes

end Netlink
