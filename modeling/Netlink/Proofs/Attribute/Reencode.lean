import Netlink.Proofs.Attribute.Grammar
import Netlink.Proofs.Draft.Refusal
import Netlink.Proofs.Stream.Cut

/-!
# Writing again what was read

The attributes that are read from a byte string are put on a new draft one after another. What
comes out is the byte string as far as it was read, with zeros for padding. Main statement:
`reencode_eq_normalized`, by which the bytes between the attributes and behind the last one are all
that is lost, and a second time nothing.
-/

namespace Netlink

namespace Bytes

theorem take_padded (bs : Bytes) {count : Nat} (h : count % 4 = 0) :
    (padded bs).take count = padded (bs.take count) := by
  by_cases hle : count ≤ bs.length
  · have haligned : (bs.take count).length % 4 = 0 := by
      rw [List.length_take, Nat.min_eq_left hle]
      exact h
    rw [padded_of_mod haligned, padded, List.take_append_of_le_length hle]
  · have hup : (padded bs).length ≤ count := by
      rw [length_padded, roundUp]
      omega
    rw [List.take_of_length_le hup, List.take_of_length_le (by omega)]

theorem padded_take_add (bs : Bytes) {front : Nat} (h : front % 4 = 0) (back : Nat) :
    padded (bs.take (front + back)) =
      padded (bs.take front) ++ padded ((bs.drop front).take back) := by
  have hsplit := List.take_append_drop front (padded (bs.take (front + back)))
  rw [take_padded _ h, drop_padded _ h, List.take_take, List.drop_take,
    Nat.min_eq_left (Nat.le_add_right front back), Nat.add_sub_cancel_left] at hsplit
  exact hsplit.symm

theorem getElem?_padded_of_lt {bs : Bytes} {i : Nat} (h : i < bs.length) :
    bs.padded[i]? = bs[i]? := by
  rw [padded, List.getElem?_append_left h]

theorem getElem?_padded_of_le {bs : Bytes} {i : Nat} (hpast : bs.length ≤ i)
    (h : i < roundUp bs.length) : bs.padded[i]? = some 0 := by
  rw [padded, List.getElem?_append_right hpast, zeros, List.getElem?_replicate_of_lt (by omega)]

end Bytes

def Draft.putAll (d : Draft) (attributes : List Attribute) : Except AttributeError Draft :=
  attributes.foldlM (fun d a => d.put a.rawType a.payload) d

namespace Attributes

/-- Whether the byte at offset `i` belongs to an attribute, and not to padding. -/
def covers (s : Attributes) (i : Nat) : Bool :=
  s.placed.any fun place => place.1 ≤ i && i < place.1 + place.2.size

/-- The bytes that are read as attributes and padding. -/
def consumed (s : Attributes) : Bytes := s.rest.take (s.last.offset - s.offset)

/-- The consumed bytes with zeros for padding, up to the boundary. -/
def normalized (s : Attributes) : Bytes :=
  s.consumed.padded.mapIdx fun i b => if s.covers (s.offset + i) then b else 0

/-- Puts the attributes of `bs` on a new draft, and gives the payload of the message. -/
def reencode (buffer bs : Bytes) : Except AttributeError (Option Bytes) :=
  ((Draft.start buffer).putAll (Stream.ofBytes bs : Attributes).records).map fun d =>
    d.message?.map Record.payload

def joined (attributes : List Attribute) : Bytes := attributes.flatMap fun a => a.bytes.padded

variable {s : Attributes} {a : Attribute}

/-! ## Padding made zero -/

theorem covers_of_first? (hfirst : Record.first? s.rest = some a) (i : Nat) :
    s.covers i = ((s.offset ≤ i && i < s.offset + a.size) || covers (s.skip a.span) i) := by
  rw [covers, Stream.placed_of_first? hfirst, List.any_cons, ← covers]

theorem covers_eq_false {i : Nat} (h : i < s.offset) : s.covers i = false := by
  rw [covers, List.any_eq_false]
  intro place hmem
  have hle := Stream.offset_le_of_mem_placed hmem
  simp only [Bool.and_eq_true, decide_eq_true_eq]
  omega

theorem covers_first (hfirst : Record.first? s.rest = some a) {i : Nat} (h : i < a.span) :
    s.covers (s.offset + i) = decide (i < a.size) := by
  have hlater : covers (s.skip a.span) (s.offset + i) = false :=
    covers_eq_false (Nat.add_lt_add_left h s.offset)
  rw [covers_of_first? hfirst, hlater, Bool.or_false, Bool.eq_iff_iff]
  simp only [Bool.and_eq_true, decide_eq_true_eq]
  omega

theorem covers_later (hfirst : Record.first? s.rest = some a) (i : Nat) :
    s.covers (s.offset + (i + a.span)) = covers (s.skip a.span) ((s.skip a.span).offset + i) := by
  have hspan : a.size ≤ a.span := le_roundUp a.size
  have hplace : s.offset + (i + a.span) = (s.skip a.span).offset + i := by
    show _ = s.offset + a.span + i
    omega
  have hbehind : decide (s.offset + (i + a.span) < s.offset + a.size) = false := by
    rw [decide_eq_false_iff_not]
    omega
  rw [covers_of_first? hfirst, hbehind, Bool.and_false, Bool.false_or, hplace]

theorem offset_le_last (s : Attributes) : s.offset ≤ s.last.offset := by
  induction s using Stream.walk_induction with
  | stop s hnone =>
      exact Nat.le_of_eq (by rw [Stream.last_of_none hnone])
  | step s a hfirst ih =>
      rw [Stream.last_of_first? hfirst]
      exact Nat.le_trans (Nat.le_add_right _ _) ih

theorem mapIdx_first (hfirst : Record.first? s.rest = some a) :
    ((Bytes.padded (s.rest.take a.span)).mapIdx fun i b =>
      if s.covers (s.offset + i) then b else 0) = a.bytes.padded := by
  have hfits : a.bytes.length ≤ s.rest.length := Record.size_le_of_first? hfirst
  have hspan : a.span = roundUp a.bytes.length := rfl
  have hle := le_roundUp a.bytes.length
  have hlength : (Bytes.padded (s.rest.take a.span)).length = a.span := by
    rw [Bytes.length_padded, List.length_take, hspan]
    simp only [roundUp]
    omega
  have hfront : (s.rest.take a.span).take a.bytes.length = a.bytes := by
    rw [Record.eq_append_of_first? hfirst, List.take_take, hspan, Nat.min_eq_left hle,
      List.take_left]
  apply List.ext_getElem?
  intro i
  rw [List.getElem?_mapIdx]
  by_cases hpast : a.span ≤ i
  · rw [List.getElem?_eq_none (hlength.symm ▸ hpast),
      List.getElem?_eq_none (by rw [Bytes.length_padded]; exact hpast)]
    rfl
  · have hspanned : i < a.span := Nat.lt_of_not_le hpast
    rw [covers_first hfirst hspanned]
    -- a byte of the attribute stays, one of its padding becomes zero
    by_cases hinside : i < a.size
    · have hown : i < (s.rest.take a.span).length := by
        rw [List.length_take, hspan]
        exact Nat.lt_of_lt_of_le hinside (Nat.le_min.mpr ⟨hle, hfits⟩)
      have hbyte : (s.rest.take a.span)[i]? = a.bytes[i]? := by
        have htake := List.getElem?_take_of_lt (l := s.rest.take a.span) hinside
        exact htake.symm.trans (congrArg (·[i]?) hfront)
      rw [decide_eq_true hinside, Bytes.getElem?_padded_of_lt hown,
        Bytes.getElem?_padded_of_lt hinside, hbyte]
      exact Option.map_id_apply
    · rw [decide_eq_false hinside, List.getElem?_eq_getElem (hlength.symm ▸ hspanned),
        Bytes.getElem?_padded_of_le (Nat.le_of_not_lt hinside) hspanned]
      rfl

theorem normalized_of_first? (hfirst : Record.first? s.rest = some a) :
    s.normalized = a.bytes.padded ++ normalized (s.skip a.span) := by
  have hlast : s.offset + a.span ≤ (s.skip a.span).last.offset := offset_le_last (s.skip a.span)
  have hlength : (s.skip a.span).last.offset - s.offset =
      a.span + ((s.skip a.span).last.offset - (s.skip a.span).offset) := by
    show _ = a.span + ((s.skip a.span).last.offset - (s.offset + a.span))
    omega
  have hfirstLength : (Bytes.padded (s.rest.take a.span)).length = a.span := by
    have hbytes := congrArg List.length (mapIdx_first hfirst)
    rw [List.length_mapIdx, Bytes.length_padded a.bytes] at hbytes
    exact hbytes
  rw [normalized, consumed, Stream.last_of_first? hfirst, hlength,
    Bytes.padded_take_add _ a.span_mod, List.mapIdx_append, mapIdx_first hfirst, hfirstLength]
  simp only [covers_later hfirst]
  rfl

/-- A stream is normalized by padding each of its attributes anew. -/
theorem normalized_eq_joined (s : Attributes) : s.normalized = joined s.records := by
  induction s using Stream.walk_induction with
  | stop s hnone =>
      rw [normalized, consumed, Stream.last_of_none hnone, Stream.records_of_none hnone,
        Nat.sub_self, List.take_zero]
      rfl
  | step s a hfirst ih =>
      rw [normalized_of_first? hfirst, Stream.records_of_first? hfirst, ih]
      rfl

theorem length_normalized_le (s : Attributes) : s.normalized.length ≤ roundUp s.rest.length := by
  rw [normalized, List.length_mapIdx, Bytes.length_padded]
  apply roundUp_le_roundUp
  rw [consumed, List.length_take]
  exact Nat.min_le_right _ _

theorem rest_last (s : Attributes) : s.last.rest = s.rest.drop (s.last.offset - s.offset) := by
  induction s using Stream.walk_induction with
  | stop s hnone =>
      rw [Stream.last_of_none hnone, Nat.sub_self, List.drop_zero]
  | step s a hfirst ih =>
      have hle : s.offset + a.span ≤ (s.skip a.span).last.offset := offset_le_last (s.skip a.span)
      rw [Stream.last_of_first? hfirst, ih, Stream.rest_skip, List.drop_drop]
      congr 1
      show a.span + ((s.skip a.span).last.offset - (s.offset + a.span)) = _
      omega

theorem eq_consumed_append (s : Attributes) : s.rest = s.consumed ++ s.last.rest := by
  rw [consumed, rest_last, List.take_append_drop]

/-! ## Reading the padded attributes -/

theorem records_joined {attributes : List Attribute} (hrest : s.rest = joined attributes)
    (hcount : s.remaining = s.rest.length) :
    s.records = attributes ∧ s.last.remaining = 0 := by
  induction attributes generalizing s with
  | nil =>
      have hnone := Record.first?_of_nil (L := .attr) hrest
      rw [Stream.records_of_none hnone, Stream.last_of_none hnone, hcount, hrest]
      exact ⟨rfl, rfl⟩
  | cons a later ih =>
      have hsplit : s.rest = a.bytes.padded ++ joined later := hrest
      have hfirst : Record.first? s.rest = some a := by
        rw [hsplit, Bytes.padded, List.append_assoc]
        exact a.first?_append _
      have hspan : a.span = a.bytes.padded.length := (Bytes.length_padded a.bytes).symm
      obtain ⟨hbehind, hleft⟩ := skip_padded hsplit hcount
      rw [← hspan] at hbehind hleft
      obtain ⟨hlater, hend⟩ := ih hbehind hleft
      rw [Stream.records_of_first? hfirst, Stream.last_of_first? hfirst, hlater]
      exact ⟨rfl, hend⟩

theorem normalized_normalized (s : Attributes) :
    normalized (Stream.ofBytes s.normalized : Attributes) = s.normalized := by
  obtain ⟨hrecords, _⟩ := records_joined
    (s := (Stream.ofBytes s.normalized : Attributes)) s.normalized_eq_joined rfl
  rw [normalized_eq_joined, hrecords, ← normalized_eq_joined]

/-! ## Putting attributes again -/

theorem put_of_le {d : Draft} (hroom : d.size + a.bytes.padded.length ≤ Draft.maxSize) :
    ∃ e, d.put a.rawType a.payload = .ok e ∧ Draft.Appended d a.bytes.padded e := by
  have hsize : 4 + a.payload.length = a.size := Chunk.size_chunk a
  have hfits : a.chunk.size < 2 ^ 16 := Chunk.fits_chunk a
  have hmax : 4 + a.payload.length ≤ Draft.maxAttributeSize := Nat.le_of_lt_succ hfits
  have hencode : Attribute.encode a.rawType a.payload = a.bytes := Chunk.encode_chunk a
  rw [Bytes.length_padded, ← Record.size, ← hsize] at hroom
  obtain ⟨e, hput, happended, _⟩ := Draft.put_of_le a.rawType hmax hroom
  rw [hencode] at happended
  exact ⟨e, hput, happended⟩

theorem putAll_of_le (attributes : List Attribute) {d : Draft} (hd : d.Synced)
    (hroom : d.size + (joined attributes).length ≤ Draft.maxSize) :
    ∃ e, d.putAll attributes = .ok e ∧ Draft.Appended d (joined attributes) e := by
  induction attributes generalizing d with
  | nil => exact ⟨d, rfl, .refl hd⟩
  | cons a later ih =>
      have hlength : (joined (a :: later)).length =
          a.bytes.padded.length + (joined later).length := List.length_append
      obtain ⟨d', hput, hfirst⟩ := put_of_le (d := d) (a := a) (by omega)
      obtain ⟨e, hlater, hrest⟩ := ih hfirst.synced (by rw [hfirst.size]; omega)
      refine ⟨e, ?_, hfirst.trans hrest⟩
      rw [Draft.putAll, List.foldlM_cons, hput]
      exact hlater

theorem reencode_of_le {bs : Bytes} (h : roundUp bs.length + 16 ≤ Draft.maxSize)
    (buffer : Bytes) :
    reencode buffer bs = .ok (some (normalized (Stream.ofBytes bs))) := by
  have hlength : (normalized (Stream.ofBytes bs)).length ≤ roundUp bs.length :=
    length_normalized_le _
  rw [normalized_eq_joined] at hlength ⊢
  have hsize : (Draft.start buffer).size = 16 := rfl
  obtain ⟨e, hputAll, happended⟩ := putAll_of_le (Stream.ofBytes bs : Attributes).records
    (Draft.synced_start buffer) (by omega)
  have hpayload : (e.toMessage happended.synced).payload = e.payload := rfl
  rw [reencode, hputAll]
  show Except.ok (e.message?.map Record.payload) = _
  rw [e.message?_eq happended.synced, Option.map_some, hpayload, happended.payload,
    Draft.payload_start, List.nil_append]

/-- The attributes of any byte string can be put on a new draft. The payload is then the bytes that
were read, with padding made zero and completed. It is read as the same attributes, leaves nothing
over, and stays as it is when its attributes are put on a new draft in turn. -/
theorem reencode_eq_normalized {bs : Bytes} (h : roundUp bs.length + 16 ≤ Draft.maxSize)
    (buffer other : Bytes) :
    let s : Attributes := .ofBytes bs
    let again : Attributes := .ofBytes s.normalized
    reencode buffer bs = .ok (some s.normalized) ∧
      bs = s.consumed ++ s.last.rest ∧
      again.records = s.records ∧
      again.last.remaining = 0 ∧
      reencode other s.normalized = .ok (some s.normalized) := by
  intro s again
  obtain ⟨hrecords, hend⟩ := records_joined (s := again) s.normalized_eq_joined rfl
  have hlength : s.normalized.length ≤ roundUp bs.length := s.length_normalized_le
  have hagain : roundUp s.normalized.length + 16 ≤ Draft.maxSize := by
    have hup := roundUp_le_roundUp hlength
    rw [roundUp_of_mod (roundUp_mod bs.length)] at hup
    omega
  refine ⟨reencode_of_le h buffer, s.eq_consumed_append, hrecords, hend, ?_⟩
  rw [reencode_of_le hagain, normalized_normalized]

/-- Two attributes, of which the first is flagged and has padding that is not zero, and the second
has none. -/
theorem reencode_eq_normalized_unpadded :
    let bs : Bytes := [5, 0, 1, 0x80, 9, 255, 255, 255, 6, 0, 2, 0, 1, 2]
    let clean : Bytes := [5, 0, 1, 0x80, 9, 0, 0, 0, 6, 0, 2, 0, 1, 2, 0, 0]
    roundUp bs.length + 16 ≤ Draft.maxSize ∧ reencode [] bs = .ok (some clean) ∧
      reencode [7] clean = .ok (some clean) := by
  intro bs clean
  have hroom : roundUp bs.length + 16 ≤ Draft.maxSize := by decide
  obtain ⟨hfirst, _, _, _, hsecond⟩ := reencode_eq_normalized hroom [] [7]
  have hclean : normalized (Stream.ofBytes bs) = clean := by decide +kernel
  rw [hclean] at hfirst hsecond
  exact ⟨hroom, hfirst, hsecond⟩

end Attributes

end Netlink
