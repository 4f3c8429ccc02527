import Netlink.Attribute.Descent
import Netlink.Proofs.Attribute.Appends
import Netlink.Proofs.Stream

/-!
# Forests of attributes

What a stream of attributes stands for: leaves with payloads and nests with forests inside. A
forest is written as bytes by `encode` and as lines by `listing`. Main statements: `listing_inj`,
by which a forest is known by its listing, and `descend_encode`, by which the descent into the
bytes of a forest finds its listing.
-/

namespace Netlink

/-- Attributes in their order, with types as stored. What follows at the same level is `later`. -/
inductive Forest where
  | nil
  | leaf (type : UInt16) (payload : Bytes) (later : Forest)
  | nest (type : UInt16) (inside later : Forest)
  deriving DecidableEq

/-- One line of a listing. The end of a level tells how many bytes remain there. -/
inductive Entry where
  | leaf (depth : Nat) (type : UInt16) (payload : Bytes)
  | nest (depth : Nat) (type : UInt16)
  | ended (depth : Nat) (remaining : Int)
  deriving DecidableEq

def Visit.entry : Visit → Entry
  | found depth a =>
    if a.isNested then .nest depth a.rawType else .leaf depth a.rawType a.payload
  | ended depth remaining => .ended depth remaining

namespace Forest

def append : Forest → Forest → Forest
  | nil, g => g
  | leaf type payload later, g => leaf type payload (later.append g)
  | nest type inside later, g => nest type inside (later.append g)

def encode : Forest → Bytes
  | nil => []
  | leaf type payload later => (Attribute.encode type payload).padded ++ later.encode
  | nest type inside later => (Attribute.encode type inside.encode).padded ++ later.encode

def listing (depth : Nat) : Forest → List Entry
  | nil => [.ended depth 0]
  | leaf type payload later => .leaf depth type payload :: later.listing depth
  | nest type inside later =>
    .nest depth type :: (inside.listing (depth + 1) ++ later.listing depth)

/-- The flag of nests is on nests alone, and every attribute has a size that can be stored. -/
def Fits : Forest → Prop
  | nil => True
  | leaf type payload later =>
    type &&& Attribute.nestedFlag = 0 ∧ 4 + payload.length ≤ Draft.maxAttributeSize ∧ later.Fits
  | nest type inside later =>
    type &&& Attribute.nestedFlag ≠ 0 ∧ 4 + inside.encode.length ≤ Draft.maxAttributeSize ∧
      inside.Fits ∧ later.Fits

theorem encode_append (f g : Forest) : (f.append g).encode = f.encode ++ g.encode := by
  induction f with
  | nil => rfl
  | leaf type payload later ih => rw [append, encode, encode, ih, List.append_assoc]
  | nest type inside later _ ih => rw [append, encode, encode, ih, List.append_assoc]

theorem Fits.append {f g : Forest} (hf : f.Fits) (hg : g.Fits) : (f.append g).Fits := by
  induction f with
  | nil => exact hg
  | leaf type payload later ih =>
      obtain ⟨htype, hsize, hlater⟩ := hf
      exact ⟨htype, hsize, ih hlater⟩
  | nest type inside later _ ih =>
      obtain ⟨htype, hsize, hinside, hlater⟩ := hf
      exact ⟨htype, hsize, hinside, ih hlater⟩

theorem length_encode_mod (f : Forest) : f.encode.length % 4 = 0 := by
  cases f with
  | nil => rfl
  | leaf type payload later =>
      have hlater := later.length_encode_mod
      have hpadded := roundUp_mod (Attribute.encode type payload).length
      rw [encode, List.length_append, Bytes.length_padded]
      omega
  | nest type inside later =>
      have hlater := later.length_encode_mod
      have hpadded := roundUp_mod (Attribute.encode type inside.encode).length
      rw [encode, List.length_append, Bytes.length_padded]
      omega

theorem encode_nest (type : UInt16) (inside later : Forest) :
    (nest type inside later).encode =
      Attribute.encode type inside.encode ++ later.encode := by
  have hinside := inside.length_encode_mod
  rw [encode, Bytes.padded_of_mod]
  rw [Draft.length_encode_attribute]
  omega

theorem listing_append_inj {f g : Forest} {depth : Nat} {xs ys : List Entry}
    (h : f.listing depth ++ xs = g.listing depth ++ ys) : f = g ∧ xs = ys := by
  induction f generalizing g depth xs ys with
  | nil =>
      cases g with
      | nil => exact ⟨rfl, (List.cons.inj h).2⟩
      | leaf type payload later => cases (List.cons.inj h).1
      | nest type inside later => cases (List.cons.inj h).1
  | leaf type payload later ih =>
      cases g with
      | nil => cases (List.cons.inj h).1
      | leaf type' payload' later' =>
          obtain ⟨hentry, htail⟩ := List.cons.inj h
          obtain ⟨rfl, rfl⟩ := ih htail
          cases hentry
          exact ⟨rfl, rfl⟩
      | nest type' inside' later' => cases (List.cons.inj h).1
  | nest type inside later ihinside ihlater =>
      cases g with
      | nil => cases (List.cons.inj h).1
      | leaf type' payload' later' => cases (List.cons.inj h).1
      | nest type' inside' later' =>
          simp only [listing, List.cons_append, List.append_assoc] at h
          obtain ⟨hentry, htail⟩ := List.cons.inj h
          obtain ⟨rfl, hbehind⟩ := ihinside htail
          obtain ⟨rfl, rfl⟩ := ihlater hbehind
          cases hentry
          exact ⟨rfl, rfl⟩

theorem listing_inj {f g : Forest} {depth : Nat} (h : f.listing depth = g.listing depth) :
    f = g := by
  have happended : f.listing depth ++ [] = g.listing depth ++ [] := by rw [h]
  exact (listing_append_inj happended).1

end Forest

/-! ## One attribute -/

namespace Attribute

theorem declared_encode_append {type : UInt16} {payload : Bytes}
    (h : 4 + payload.length ≤ Draft.maxAttributeSize) (rest : Bytes) :
    Layout.attr.declared (encode type payload ++ rest) = 4 + payload.length := by
  rw [Draft.maxAttributeSize] at h
  rw [Layout.declared, encode, Draft.attributeHeader]
  simp only [List.append_assoc]
  rw [List.take_left' (Bytes.length_encodeLE 2 _), Bytes.decodeLE_encodeLE, Nat.one_shiftLeft,
    headerSize]
  omega

theorem declared_encode {type : UInt16} {payload : Bytes}
    (h : 4 + payload.length ≤ Draft.maxAttributeSize) :
    Layout.attr.declared (encode type payload) = (encode type payload).length := by
  rw [← List.append_nil (encode type payload), declared_encode_append h, List.append_nil,
    Draft.length_encode_attribute]

def ofPayload (type : UInt16) (payload : Bytes)
    (h : 4 + payload.length ≤ Draft.maxAttributeSize) : Attribute where
  bytes := encode type payload
  headerSize_le := by
    rw [Draft.length_encode_attribute]
    exact Nat.le_add_right 4 _
  declared_eq := declared_encode h

section OfPayload

variable (type : UInt16) {payload : Bytes} (h : 4 + payload.length ≤ Draft.maxAttributeSize)

@[simp] theorem payload_ofPayload : (ofPayload type payload h).payload = payload :=
  List.drop_left' (Draft.length_attributeHeader _ type)

@[simp] theorem rawType_ofPayload : (ofPayload type payload h).rawType = type := by
  have hlt := type.toNat_lt
  have hfield : (encode type payload).slice 2 2 = Bytes.encodeLE 2 type.toNat := by
    rw [Bytes.slice, encode, Draft.attributeHeader, List.append_assoc,
      List.drop_left' (Bytes.length_encodeLE 2 _), List.take_left' (Bytes.length_encodeLE 2 _)]
  show UInt16.ofNat ((encode type payload).slice 2 2).decodeLE = type
  rw [hfield, Bytes.decodeLE_encodeLE, Nat.one_shiftLeft, Nat.mod_eq_of_lt (by omega),
    UInt16.ofNat_toNat]

theorem type_ofPayload : (ofPayload type payload h).type = type &&& typeMask := by
  rw [Attribute.type, rawType_ofPayload type h]

theorem span_ofPayload :
    (ofPayload type payload h).span = (encode type payload).padded.length :=
  (Bytes.length_padded (encode type payload)).symm

theorem isNested_ofPayload :
    (ofPayload type payload h).isNested = (type &&& nestedFlag != 0) := by
  rw [isNested, rawType_ofPayload type h]

theorem first?_padded_append (rest : Bytes) :
    Record.first? ((encode type payload).padded ++ rest) = some (ofPayload type payload h) := by
  rw [Bytes.padded, List.append_assoc]
  exact (ofPayload type payload h).first?_append _

end OfPayload

end Attribute

/-! ## Descent -/

namespace Attributes

variable {enter : Attribute → Bool} {depth : Nat} {s : Attributes} {a : Attribute}

theorem descend_of_none (h : Record.first? (L := .attr) s.rest = none) :
    s.descend enter depth = [.ended depth s.remaining] := by
  rw [descend]
  split
  · rfl
  · rename_i hnext
    rw [Stream.next?_of_none h] at hnext
    cases hnext

theorem descend_of_first? (h : Record.first? s.rest = some a) :
    s.descend enter depth =
      .found depth a ::
        ((if enter a then a.nested.descend enter (depth + 1) else []) ++
          descend enter depth (s.skip a.span)) := by
  rw [descend]
  split
  · rename_i hnext
    rw [Stream.next?_of_first? h] at hnext
    cases hnext
  · rename_i hnext
    rw [Stream.next?_of_first? h] at hnext
    cases hnext
    rfl

theorem skip_padded {bs rest : Bytes} (hrest : s.rest = bs ++ rest)
    (hremaining : s.remaining = s.rest.length) :
    (s.skip bs.length).rest = rest ∧
      (s.skip bs.length).remaining = (s.skip bs.length).rest.length := by
  have hbehind : (s.skip bs.length).rest = rest := by
    rw [Stream.rest_skip, hrest, List.drop_left]
  refine ⟨hbehind, ?_⟩
  rw [hbehind, Stream.remaining_skip, hremaining, hrest, List.length_append]
  omega

theorem records_padded_encode {s : Attributes} {type : UInt16} {payload rest : Bytes}
    (h : 4 + payload.length ≤ Draft.maxAttributeSize)
    (hrest : s.rest = (Attribute.encode type payload).padded ++ rest) :
    s.records =
      Attribute.ofPayload type payload h :: (Stream.ofBytes rest : Attributes).records := by
  have hfirst : Record.first? s.rest = some (Attribute.ofPayload type payload h) := by
    rw [hrest]
    exact Attribute.first?_padded_append type h rest
  have hbehind : (s.skip (Attribute.ofPayload type payload h).span).rest =
      (Stream.ofBytes rest : Attributes).rest := by
    rw [Stream.rest_skip, hrest, Attribute.span_ofPayload]
    exact List.drop_left
  rw [Stream.records_of_first? hfirst, Stream.records_congr hbehind]

theorem records_of_nil {s : Attributes} (hrest : s.rest = []) : s.records = [] :=
  Stream.records_of_none (Record.first?_of_nil hrest)

end Attributes

/-- The descent into the bytes of a forest that fits enters its nests, and lists it. -/
theorem Forest.descend_encode {f : Forest} (hf : f.Fits) {s : Attributes}
    (hrest : s.rest = f.encode) (hremaining : s.remaining = s.rest.length) (depth : Nat) :
    (s.descend Attribute.isNested depth).map Visit.entry = f.listing depth := by
  -- any stream with these bytes left: the payload of a nest is another one, a level deeper
  induction f generalizing s depth with
  | nil =>
      have hnone : Record.first? (L := .attr) s.rest = none := by
        rw [hrest]
        exact Record.first?_eq_none_of_length_lt (by decide)
      have hzero : s.remaining = 0 := by
        rw [hremaining, hrest]
        rfl
      rw [Attributes.descend_of_none hnone, hzero]
      rfl
  | leaf type payload later ih =>
      obtain ⟨htype, hsize, hlater⟩ := hf
      rw [encode] at hrest
      have hfirst : Record.first? s.rest = some (Attribute.ofPayload type payload hsize) := by
        rw [hrest]
        exact Attribute.first?_padded_append type hsize _
      have hplain : (Attribute.ofPayload type payload hsize).isNested = false := by
        rw [Attribute.isNested_ofPayload, htype]
        rfl
      obtain ⟨hbehind, hcount⟩ := Attributes.skip_padded hrest hremaining
      rw [Attributes.descend_of_first? hfirst, hplain, Attribute.span_ofPayload]
      simp only [Bool.false_eq_true, if_false, List.nil_append, List.map_cons]
      rw [ih hlater hbehind hcount, Visit.entry, hplain, Attribute.rawType_ofPayload,
        Attribute.payload_ofPayload]
      rfl
  | nest type inside later ihinside ihlater =>
      obtain ⟨htype, hsize, hinside, hlater⟩ := hf
      rw [encode] at hrest
      have hfirst :
          Record.first? s.rest = some (Attribute.ofPayload type inside.encode hsize) := by
        rw [hrest]
        exact Attribute.first?_padded_append type hsize _
      have hnested : (Attribute.ofPayload type inside.encode hsize).isNested = true := by
        rw [Attribute.isNested_ofPayload]
        exact bne_iff_ne.mpr htype
      have hwithin : (Attribute.ofPayload type inside.encode hsize).nested.rest =
          inside.encode := Attribute.payload_ofPayload type hsize
      obtain ⟨hbehind, hcount⟩ := Attributes.skip_padded hrest hremaining
      rw [Attributes.descend_of_first? hfirst, hnested, Attribute.span_ofPayload]
      simp only [if_true, List.map_cons, List.map_append]
      rw [ihlater hlater hbehind hcount, ihinside hinside hwithin rfl, Visit.entry, hnested,
        Attribute.rawType_ofPayload]
      rfl

end Netlink
