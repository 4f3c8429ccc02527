import Netlink.Proofs.Attribute.Writing
import Netlink.Proofs.Draft.Refusal

/-!
# Forests that can be written

A forest is written depth first: a leaf is put, and a nest is opened, filled and closed, up to the
first call that is refused. Types are those that the caller passes, so a nest is stored with the
flag of nests added. Main statement: `writeTo_representable`, by which the sizes of the attributes
decide: the forest is written if every one fits its length field, and the first that does not is
refused.
-/

namespace Netlink

namespace Forest

/-! ## Sizes and places -/

def span : Forest → Nat
  | nil => 0
  | leaf _ payload later => roundUp (4 + payload.length) + later.span
  | nest _ inside later => roundUp (4 + inside.span) + later.span

def count : Forest → Nat
  | nil => 0
  | leaf _ _ later => later.count + 1
  | nest _ inside later => inside.count + (later.count + 1)

/-- One attribute: where it starts, the type that is passed for it, and its size without padding. -/
structure Node where
  offset : Nat
  type : UInt16
  size : Nat
  deriving DecidableEq

/-- The attributes in the order in which they are completed, a nest behind all that is inside. -/
def nodes (start : Nat) : Forest → List Node
  | nil => []
  | leaf type payload later =>
    ⟨start, type, 4 + payload.length⟩ :: later.nodes (start + roundUp (4 + payload.length))
  | nest type inside later =>
    inside.nodes (start + 4) ++
      ⟨start, type, 4 + inside.span⟩ :: later.nodes (start + roundUp (4 + inside.span))

def stored : Forest → Forest
  | nil => nil
  | leaf type payload later => leaf type payload later.stored
  | nest type inside later => nest (type ||| Attribute.nestedFlag) inside.stored later.stored

@[simp] theorem length_nodes (start : Nat) (f : Forest) : (f.nodes start).length = f.count := by
  induction f generalizing start with
  | nil => rfl
  | leaf type payload later ih => rw [nodes, count, List.length_cons, ih]
  | nest type inside later ihinside ihlater =>
      rw [nodes, count, List.length_append, List.length_cons, ihinside, ihlater]

@[simp] theorem length_encode_stored (f : Forest) : f.stored.encode.length = f.span := by
  induction f with
  | nil => rfl
  | leaf type payload later ih =>
      rw [stored, encode, List.length_append, Bytes.length_padded, Draft.length_encode_attribute,
        ih, span]
  | nest type inside later ihinside ihlater =>
      rw [stored, encode, List.length_append, Bytes.length_padded, Draft.length_encode_attribute,
        ihinside, ihlater, span]

theorem span_mod (f : Forest) : f.span % 4 = 0 := by
  rw [← f.length_encode_stored]
  exact f.stored.length_encode_mod

/-- What is inside a nest is padded, so the nest has no padding of its own. -/
theorem roundUp_nest (f : Forest) : roundUp (4 + f.span) = 4 + f.span := by
  have hspan := f.span_mod
  apply roundUp_of_mod
  omega

/-! ## Writing -/

inductive Stop where
  /-- A nest is not opened. -/
  | opening (cause : AttributeError)
  /-- The attribute with this number is not put or not closed. -/
  | completing (number : Nat) (cause : AttributeError)

/-- Writes the forest depth first, up to the first refusal. Its attributes are numbered from
`number` on, in the order in which they are completed. -/
def writeTo (d : Draft) (number : Nat) : Forest → Except Stop Draft
  | nil => .ok d
  | leaf type payload later =>
    match d.put type payload with
    | .error cause => .error (.completing number cause)
    | .ok d => later.writeTo d (number + 1)
  | nest type inside later =>
    match d.nestStart type with
    | .error cause => .error (.opening cause)
    | .ok (opened, d) =>
      match inside.writeTo d number with
      | .error stop => .error stop
      | .ok d =>
        match d.nestEnd opened with
        | .error cause => .error (.completing (number + inside.count) cause)
        | .ok d => later.writeTo d (number + inside.count + 1)

def judge (number : Nat) : List Node → Except Stop Unit
  | [] => .ok ()
  | node :: later =>
    if Draft.maxAttributeSize < node.size then
      .error (.completing number (.tooLarge node.type node.size Draft.maxAttributeSize))
    else
      judge (number + 1) later

theorem judge_append {xs : List Node} {number : Nat} (h : judge number xs = .ok ())
    (ys : List Node) : judge number (xs ++ ys) = judge (number + xs.length) ys := by
  induction xs generalizing number with
  | nil => rfl
  | cons x xs ih =>
      rw [List.cons_append, judge]
      rw [judge] at h
      split at h
      · cases h
      · rename_i hfits
        rw [if_neg hfits, ih h, List.length_cons, Nat.add_assoc, Nat.add_comm 1]

theorem judge_append_of_error {xs : List Node} {number : Nat} {stop : Stop}
    (h : judge number xs = .error stop) (ys : List Node) :
    judge number (xs ++ ys) = .error stop := by
  induction xs generalizing number with
  | nil => cases h
  | cons x xs ih =>
      rw [List.cons_append, judge]
      rw [judge] at h
      split at h
      · rename_i hlarge
        rw [if_pos hlarge]
        exact h
      · rename_i hfits
        rw [if_neg hfits]
        exact ih h

theorem judge_eq_ok_iff {xs : List Node} {number : Nat} :
    judge number xs = .ok () ↔ ∀ node ∈ xs, node.size ≤ Draft.maxAttributeSize := by
  induction xs generalizing number with
  | nil => exact iff_of_true rfl (List.forall_mem_nil _)
  | cons x xs ih =>
      rw [judge, List.forall_mem_cons]
      split
      · rename_i hlarge
        exact iff_of_false (nomatch ·) (fun h => Nat.not_lt.mpr h.1 hlarge)
      · rename_i hfits
        rw [ih]
        exact (and_iff_right (Nat.not_lt.mp hfits)).symm

end Forest

namespace Draft

variable {d e e' : Draft}

/-- `e` is `d` with the forest behind it. An empty forest changes nothing, not even a length field
that is wrong. -/
def Written (d : Draft) (f : Forest) (e : Draft) : Prop :=
  (f = .nil ∧ e = d) ∨ Appended d f.stored.encode e

theorem Appended.written {f : Forest} {front : Bytes} (h : Appended d front e)
    (hwritten : Written e f e') : Appended d (front ++ f.stored.encode) e' := by
  rcases hwritten with ⟨rfl, rfl⟩ | happended
  · rw [Forest.stored, Forest.encode, List.append_nil]
    exact h
  · exact h.trans happended

theorem Written.before {f : Forest} (h : Written d f e) : e.before = d.before := by
  rcases h with ⟨_, rfl⟩ | happended
  · rfl
  · exact happended.before

theorem Written.payload {f : Forest} (h : Written d f e) :
    e.payload = d.payload ++ f.stored.encode := by
  rcases h with ⟨rfl, rfl⟩ | happended
  · exact (List.append_nil _).symm
  · exact happended.payload

theorem Written.size {f : Forest} (h : Written d f e) : e.size = d.size + f.span := by
  calc
    e.size = 16 + (d.payload ++ f.stored.encode).length := by rw [e.size_eq, h.payload]
    _ = 16 + d.payload.length + f.span := by
      rw [List.length_append, f.length_encode_stored, Nat.add_assoc]
    _ = d.size + f.span := by rw [← d.size_eq]

end Draft

namespace Forest

variable {d e : Draft} {f : Forest} {number : Nat}

theorem nestEnd_of_le {opened : Nest} {inside : Forest} {d₁ d₂ : Draft} {type : UInt16}
    (hoffset : opened.offset = d.size)
    (hstart : Draft.Appended d (Draft.attributeHeader 0 type) d₁)
    (hinside : Draft.Written d₁ inside d₂) (hsize : d₂.size = d.size + (4 + inside.span))
    (hfits : 4 + inside.span ≤ Draft.maxAttributeSize) :
    ∃ e, d₂.nestEnd opened = .ok e ∧
      Draft.Appended d (Attribute.encode type inside.stored.encode) e ∧
      e.size = d.size + roundUp (4 + inside.span) := by
  have hcloses : (d₂.nestEnd opened).isOk = true := by
    rw [Draft.isOk_nestEnd]
    omega
  obtain ⟨e, hclose⟩ := isOk_iff.mp hcloses
  have hfilled := hstart.written hinside
  rw [← List.nil_append (Draft.attributeHeader 0 type ++ _)] at hfilled
  obtain ⟨_, happended⟩ := hfilled.nestEnd hoffset hclose
  rw [List.nil_append] at happended
  refine ⟨e, hclose, happended, ?_⟩
  rw [happended.size, Draft.length_encode_attribute, length_encode_stored, roundUp_nest]

theorem writeTo_of_fits (number : Nat) (hroom : d.size + f.span ≤ Draft.maxSize)
    (hfits : ∀ node ∈ f.nodes d.size, node.size ≤ Draft.maxAttributeSize) :
    ∃ e, f.writeTo d number = .ok e ∧ Draft.Written d f e := by
  induction f generalizing d number with
  | nil => exact ⟨d, rfl, .inl ⟨rfl, rfl⟩⟩
  | leaf type payload later ih =>
      rw [span] at hroom
      rw [nodes, List.forall_mem_cons] at hfits
      obtain ⟨hleaf, hlater⟩ := hfits
      obtain ⟨d₁, hput, happended, hsize⟩ := Draft.put_of_le (d := d) type hleaf (by omega)
      rw [← hsize] at hlater
      obtain ⟨e, hwrite, hwritten⟩ := ih (number + 1) (by omega) hlater
      refine ⟨e, ?_, .inr (happended.written hwritten)⟩
      simp only [writeTo, hput, hwrite]
  | nest type inside later ihinside ihlater =>
      have hup := roundUp_nest inside
      rw [span] at hroom
      rw [nodes, List.forall_mem_append, List.forall_mem_cons] at hfits
      obtain ⟨hinside, hnest, hlater⟩ := hfits
      obtain ⟨opened, d₁, hstart, _, hoffset, hopened, hsize₁⟩ :=
        Draft.nestStart_of_le (d := d) type (by omega)
      -- `nodes` counts places from the size of the draft, which every call moves on
      rw [← hsize₁] at hinside
      obtain ⟨d₂, hwrite₂, hwritten₂⟩ := ihinside number (by omega) hinside
      have hsize₂ := calc
        d₂.size = d.size + 4 + inside.span := by rw [hwritten₂.size, hsize₁]
        _ = d.size + (4 + inside.span) := Nat.add_assoc _ _ _
      obtain ⟨d₃, hend, hclosed, hsize₃⟩ := nestEnd_of_le hoffset hopened hwritten₂ hsize₂ hnest
      rw [← hsize₃] at hlater
      obtain ⟨e, hwrite, hwritten⟩ :=
        ihlater (number + inside.count + 1) (by omega) hlater
      refine ⟨e, ?_, .inr ?_⟩
      · simp only [writeTo, hstart, hwrite₂, hend, hwrite]
      · rw [stored, encode_nest]
        exact hclosed.written hwritten

/-- Where an attribute does not fit, the first refusal is the one that the sizes tell. -/
theorem writeTo_of_judge (hroom : d.size + f.span ≤ Draft.maxSize) {stop : Stop}
    (hjudge : judge number (f.nodes d.size) = .error stop) :
    f.writeTo d number = .error stop := by
  induction f generalizing d number with
  | nil => cases hjudge
  | leaf type payload later ih =>
      have hup := le_roundUp (4 + payload.length)
      rw [span] at hroom
      have hmax : Draft.maxSize = 4294967295 := rfl
      rw [nodes, judge] at hjudge
      split at hjudge
      · rename_i hlarge
        cases hjudge
        simp only [writeTo, d.put_of_large (by omega) hlarge]
      · rename_i hleaf
        obtain ⟨d₁, hput, _, hsize⟩ :=
          Draft.put_of_le (d := d) type (Nat.not_lt.mp hleaf) (by omega)
        rw [← hsize] at hjudge
        simp only [writeTo, hput]
        exact ih (by omega) hjudge
  | nest type inside later ihinside ihlater =>
      have hup := roundUp_nest inside
      rw [span] at hroom
      obtain ⟨opened, d₁, hstart, htype, hoffset, hopened, hsize₁⟩ :=
        Draft.nestStart_of_le (d := d) type (by omega)
      rw [nodes, ← hsize₁] at hjudge
      cases hinside : judge number (inside.nodes d₁.size) with
      | error cause =>
          rw [judge_append_of_error hinside] at hjudge
          cases hjudge
          simp only [writeTo, hstart, ihinside (by omega) hinside]
      | ok _ =>
          rw [judge_append hinside, length_nodes, judge] at hjudge
          -- all that is inside goes through, so the size of the nest itself is what decides
          obtain ⟨d₂, hwrite₂, hwritten₂⟩ :=
            writeTo_of_fits number (by omega) (judge_eq_ok_iff.mp hinside)
          have hsize₂ := calc
            d₂.size = d.size + 4 + inside.span := by rw [hwritten₂.size, hsize₁]
            _ = d.size + (4 + inside.span) := Nat.add_assoc _ _ _
          have hsize : d₂.size - opened.offset = 4 + inside.span := by omega
          split at hjudge
          · rename_i hlarge
            cases hjudge
            have hend := d₂.nestEnd_of_large opened (hsize ▸ hlarge)
            rw [hsize, htype] at hend
            simp only [writeTo, hstart, hwrite₂, hend]
          · rename_i hnest
            obtain ⟨d₃, hend, _, hsize₃⟩ :=
              nestEnd_of_le hoffset hopened hwritten₂ hsize₂ (Nat.not_lt.mp hnest)
            rw [← hsize₃] at hjudge
            simp only [writeTo, hstart, hwrite₂, hend]
            exact ihlater (by omega) hjudge

/-! ## Length fields -/

theorem declared_of_mem_nodes {bs : Bytes} (rest : Bytes) {start : Nat}
    (hbs : bs.drop start = f.stored.encode ++ rest)
    (hfits : ∀ node ∈ f.nodes start, node.size ≤ Draft.maxAttributeSize) :
    ∀ node ∈ f.nodes start, Layout.attr.declared (bs.drop node.offset) = node.size := by
  induction f generalizing start rest with
  | nil => exact List.forall_mem_nil _
  | leaf type payload later ih =>
      rw [nodes, List.forall_mem_cons] at hfits ⊢
      obtain ⟨hleaf, hlater⟩ := hfits
      rw [stored, encode, List.append_assoc] at hbs
      constructor
      · rw [hbs, Bytes.padded, List.append_assoc]
        exact Attribute.declared_encode_append hleaf _
      · apply ih rest _ hlater
        rw [← List.drop_drop, hbs]
        apply List.drop_left'
        rw [Bytes.length_padded, Draft.length_encode_attribute]
  | nest type inside later ihinside ihlater =>
      rw [nodes, List.forall_mem_append, List.forall_mem_cons] at hfits ⊢
      obtain ⟨hinside, hnest, hlater⟩ := hfits
      rw [stored, encode_nest, List.append_assoc] at hbs
      have hlength := length_encode_stored inside
      refine ⟨?_, ?_, ?_⟩
      · apply ihinside (later.stored.encode ++ rest) _ hinside
        rw [← List.drop_drop, hbs, Attribute.encode, List.append_assoc]
        exact List.drop_left' (Draft.length_attributeHeader _ _)
      · rw [hbs, Attribute.declared_encode_append (hlength.symm ▸ hnest), hlength]
      · apply ihlater rest _ hlater
        rw [← List.drop_drop, hbs]
        apply List.drop_left'
        rw [Draft.length_encode_attribute, hlength, roundUp_nest]

theorem judge_of_first {before later : List Node} {node : Node} {number : Nat}
    (hbefore : ∀ other ∈ before, other.size ≤ Draft.maxAttributeSize)
    (hnode : Draft.maxAttributeSize < node.size) :
    judge number (before ++ node :: later) =
      .error (.completing (number + before.length)
        (.tooLarge node.type node.size Draft.maxAttributeSize)) := by
  rw [judge_append (judge_eq_ok_iff.mpr hbefore)]
  exact if_pos hnode

/-- With room for a forest, exactly the sizes of its attributes decide. If all of them fit a length
field, the forest is written behind what is there, and each attribute declares its size. Otherwise
the call that completes the first one that does not fit is refused, with its type and its size. -/
theorem writeTo_representable (hroom : d.size + f.span ≤ 2 ^ 32 - 1) :
    ((∃ e, f.writeTo d 0 = .ok e) ↔ ∀ node ∈ f.nodes d.size, node.size ≤ 65535) ∧
      (∀ e, f.writeTo d 0 = .ok e →
        e.before = d.before ∧ e.size = d.size + f.span ∧
          e.payload = d.payload ++ f.stored.encode ∧
          ∀ node ∈ f.nodes d.size, (e.bytes.slice node.offset 2).decodeLE = node.size) ∧
      ∀ before node later, f.nodes d.size = before ++ node :: later →
        (∀ other ∈ before, other.size ≤ 65535) → 65535 < node.size →
          f.writeTo d 0 =
            .error (.completing before.length (.tooLarge node.type node.size 65535)) := by
  have hwrites : ∀ e, f.writeTo d 0 = .ok e →
      ∀ node ∈ f.nodes d.size, node.size ≤ Draft.maxAttributeSize := by
    intro e hwrite
    cases hjudge : judge 0 (f.nodes d.size) with
    | ok _ => exact judge_eq_ok_iff.mp hjudge
    | error stop => cases hwrite.symm.trans (writeTo_of_judge hroom hjudge)
  refine ⟨⟨fun ⟨e, hwrite⟩ => hwrites e hwrite, fun hfits => ?_⟩, fun e hwrite => ?_,
    fun before node later hnodes hbefore hnode => ?_⟩
  · obtain ⟨e, hwrite, _⟩ := writeTo_of_fits 0 hroom hfits
    exact ⟨e, hwrite⟩
  · have hfits := hwrites e hwrite
    obtain ⟨e', hwrite', hwritten⟩ := writeTo_of_fits 0 hroom hfits
    cases hwrite.symm.trans hwrite'
    have hbehind : e.bytes.drop d.size = f.stored.encode ++ [] := by
      rw [List.append_nil, e.bytes_eq, hwritten.payload, ← List.append_assoc, d.size_eq]
      apply List.drop_left'
      rw [List.length_append, Header.length_encode]
    exact ⟨hwritten.before, hwritten.size, hwritten.payload, declared_of_mem_nodes [] hbehind hfits⟩
  · apply writeTo_of_judge hroom
    rw [hnodes, judge_of_first hbefore hnode, Nat.zero_add]
    rfl

/-- A leaf of 65533 bytes is written, but not inside a nest, where its padding counts. -/
theorem writeTo_representable_padding :
    ∃ payload : Bytes, payload.length = 65529 ∧
      let d := Draft.start []
      let f := leaf 7 payload .nil
      d.size + (nest 5 f .nil).span ≤ 2 ^ 32 - 1 ∧ (∃ e, f.writeTo d 0 = .ok e) ∧
        (nest 5 f .nil).writeTo d 0 = .error (.completing 1 (.tooLarge 5 65540 65535)) := by
  -- the payload stays opaque, since its length alone counts
  obtain ⟨payload, hlength⟩ : ∃ payload : Bytes, payload.length = 65529 :=
    ⟨Bytes.zeros 65529, Bytes.length_zeros 65529⟩
  refine ⟨payload, hlength, ?_⟩
  intro d f
  have hsize : d.size = 16 := rfl
  have hspan : f.span = 65536 := by
    simp only [f, span, hlength, roundUp]
  have hnodes : f.nodes d.size = [⟨16, 7, 65533⟩] := by
    simp only [f, nodes, hlength, hsize]
  have hroom : d.size + (nest 5 f .nil).span ≤ 2 ^ 32 - 1 := by
    rw [span, hspan, hsize]
    decide
  have hinner : (nest 5 f .nil).nodes d.size = [⟨20, 7, 65533⟩] ++ ⟨16, 5, 65540⟩ :: [] := by
    simp only [f, nodes, span, hlength, hsize, roundUp]
  refine ⟨hroom, (writeTo_representable (by rw [hspan, hsize]; decide)).1.mpr ?_, ?_⟩
  · rw [hnodes]
    decide
  · exact (writeTo_representable hroom).2.2 _ _ _ hinner (by decide) (by decide)

end Forest

end Netlink
