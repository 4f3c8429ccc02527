import Netlink.Proofs.Attribute.Parse
import Netlink.Proofs.Text

/-!
# Validated attributes

What passes the check against a data type, and what a callback of a parse may rely on for it. An
attribute whose type has an entry in the policy is shown only after the check, so the getters for
that data type read its whole payload. Main statement: `parse_shows_typed`.
-/

namespace Netlink

/-! ## Numbers that fill a byte string -/

namespace Bytes

variable {bs : Bytes} {width value : Nat}

theorem encodeLE_of_decodeLE (hwidth : bs.length = width)
    (hvalue : value = bs.decodeLE % 2 ^ (8 * width)) : encodeLE width value = bs := by
  rw [hvalue, ← Nat.one_shiftLeft, encodeLE_mod, ← hwidth, encodeLE_decodeLE]

theorem encodeBE_of_decodeBE (hwidth : bs.length = width)
    (hvalue : value = bs.decodeBE % 2 ^ (8 * width)) : encodeBE width value = bs := by
  have hreversed : encodeLE width value = bs.reverse :=
    encodeLE_of_decodeLE (List.length_reverse.trans hwidth) hvalue
  rw [encodeBE, hreversed, List.reverse_reverse]

end Bytes

namespace Attribute

variable {a b : Attribute} {kind : DataType} {expected : Nat}

/-! ## What passes a check -/

/-- What a check against `kind` and the size `expected` lets through. -/
structure Passes (a : Attribute) (kind : DataType) (expected : Nat) : Prop where
  expected_le : expected ≤ a.payloadSize
  le_expected : expected = 0 ∨ a.payloadSize ≤ expected
  flag : kind = .flag → a.payloadSize = 0
  text : kind = .string ∨ kind = .nulString → 0 < a.payloadSize
  terminated : kind = .nulString → a.payload.getLast? = some 0
  nested : kind = .nested → a.payloadSize = 0 ∨ 4 ≤ a.payloadSize

theorem payloadSize_eq (a : Attribute) : a.payloadSize = a.payload.length :=
  a.length_payload.symm

theorem validateContent_eq_ok_iff (a : Attribute) (kind : DataType) :
    a.validateContent kind = .ok () ↔
      (kind = .flag → a.payloadSize = 0) ∧
      (kind = .string ∨ kind = .nulString → 0 < a.payloadSize) ∧
      (kind = .nulString → a.payload.getLast? = some 0) ∧
      (kind = .nested → a.payloadSize = 0 ∨ 4 ≤ a.payloadSize) := by
  cases kind with
  | flag => simp [validateContent]
  | string => simp [validateContent, Nat.pos_iff_ne_zero]
  | nulString =>
      by_cases hempty : a.payloadSize = 0
      · simp [validateContent, hempty]
      · by_cases hzero : a.payload.getLast? = some 0
        · simp [validateContent, hempty, hzero, Nat.pos_iff_ne_zero]
        · simp [validateContent, hempty, hzero]
  | nested =>
      have hheader : headerSize = 4 := rfl
      by_cases hpartial : 0 < a.payloadSize ∧ a.payloadSize < headerSize
      · have hsize : ¬(a.payloadSize = 0 ∨ 4 ≤ a.payloadSize) := by omega
        simp [validateContent, hpartial, hsize]
      · have hsize : a.payloadSize = 0 ∨ 4 ≤ a.payloadSize := by omega
        simp [validateContent, hpartial, hsize]
  | _ => simp [validateContent]

theorem validateSize_eq_ok_iff :
    a.validateSize kind expected = .ok () ↔ a.Passes kind expected := by
  have hcontent := validateContent_eq_ok_iff a kind
  rw [validateSize]
  by_cases hshort : a.payloadSize < expected
  · simp only [if_pos hshort, reduceCtorEq, false_iff]
    exact fun h => Nat.not_le_of_lt hshort h.expected_le
  · simp only [if_neg hshort]
    cases hresult : a.validateContent kind with
    | error e =>
        simp only [reduceCtorEq, false_iff]
        intro h
        have hok := hcontent.mpr ⟨h.flag, h.text, h.terminated, h.nested⟩
        rw [hresult] at hok
        cases hok
    | ok _ =>
        obtain ⟨hflag, htext, hterminated, hnested⟩ := hcontent.mp hresult
        by_cases hlong : 0 < expected ∧ expected < a.payloadSize
        · simp only [if_pos hlong, reduceCtorEq, false_iff]
          intro h
          have := h.le_expected
          omega
        · simp only [if_neg hlong, true_iff]
          exact ⟨Nat.le_of_not_lt hshort, by omega, hflag, htext, hterminated, hnested⟩

/-! ## Flag bits -/

structure SameButFlags (a b : Attribute) : Prop where
  rawType : (a.rawType ^^^ b.rawType) &&& typeMask = 0
  payload : a.payload = b.payload

theorem and_eq_of_xor_and {x y mask : UInt16} (h : (x ^^^ y) &&& mask = 0) :
    x &&& mask = y &&& mask := by
  have hbits : (x &&& mask) ^^^ (y &&& mask) = 0 := by
    rw [← h]
    apply UInt16.toBitVec_inj.mp
    ext i hi
    simp [Bool.and_xor_distrib_right]
  exact UInt16.xor_eq_zero_iff.mp hbits

theorem SameButFlags.type_eq (h : SameButFlags a b) : a.type = b.type := and_eq_of_xor_and h.rawType

/-- A check reads the type without its flags and the payload, also for its errors. -/
theorem SameButFlags.validateSize_eq (h : SameButFlags a b) (kind : DataType) (expected : Nat) :
    a.validateSize kind expected = b.validateSize kind expected := by
  have hsize : a.payloadSize = b.payloadSize := by
    rw [payloadSize_eq, payloadSize_eq, h.payload]
  have hcontent : a.validateContent kind = b.validateContent kind := by
    simp only [validateContent, h.type_eq, h.payload, hsize]
  simp only [validateSize, h.type_eq, hsize, hcontent]

/-! ## What a passed check is good for -/

/-- What the getters for a data type make of the payload: the whole of it is the number that they
read, in either byte order, and a terminated text ends inside it. -/
def Typed (a : Attribute) : DataType → Prop
  | .u8 => ∃ v, a.getU8 = .ok v ∧ Bytes.encodeLE 1 v.toNat = a.payload
  | .u16 =>
    (∃ v, a.getU16 = .ok v ∧ Bytes.encodeLE 2 v.toNat = a.payload) ∧
      ∃ v, a.getBE16 = .ok v ∧ Bytes.encodeBE 2 v.toNat = a.payload
  | .u32 =>
    (∃ v, a.getU32 = .ok v ∧ Bytes.encodeLE 4 v.toNat = a.payload) ∧
      ∃ v, a.getBE32 = .ok v ∧ Bytes.encodeBE 4 v.toNat = a.payload
  | .u64 | .msecs =>
    (∃ v, a.getU64 = .ok v ∧ Bytes.encodeLE 8 v.toNat = a.payload) ∧
      ∃ v, a.getBE64 = .ok v ∧ Bytes.encodeBE 8 v.toNat = a.payload
  | .nulString =>
    a.textBytes.length < a.payload.length ∧
      a.getText = match Bytes.toText? a.textBytes with
        | some text => .ok text
        | none => .error (.invalidText a.type)
  | .unspec | .string | .flag | .nested | .nestedCompat | .binary => True

theorem front_of_length {width : Nat} (h : a.payload.length = width) :
    a.front width = .ok a.payload := by
  rw [front, if_pos (Nat.le_of_eq h.symm), List.take_of_length_le (Nat.le_of_eq h)]

section Numbers

variable {α : Type} {ofNat : Nat → α} {toNat : α → Nat} {width : Nat}

theorem map_front_decodeLE (hword : ∀ n, toNat (ofNat n) = n % 2 ^ (8 * width))
    (h : a.payload.length = width) :
    ∃ v, ((a.front width).map fun bs => ofNat bs.decodeLE) = .ok v ∧
      Bytes.encodeLE width (toNat v) = a.payload := by
  rw [front_of_length h]
  exact ⟨_, rfl, Bytes.encodeLE_of_decodeLE h (hword _)⟩

theorem map_front_decodeBE (hword : ∀ n, toNat (ofNat n) = n % 2 ^ (8 * width))
    (h : a.payload.length = width) :
    ∃ v, ((a.front width).map fun bs => ofNat bs.decodeBE) = .ok v ∧
      Bytes.encodeBE width (toNat v) = a.payload := by
  rw [front_of_length h]
  exact ⟨_, rfl, Bytes.encodeBE_of_decodeBE h (hword _)⟩

end Numbers

theorem length_textBytes_lt (h : a.payload.getLast? = some 0) :
    a.textBytes.length < a.payload.length := by
  obtain ⟨front, hfront⟩ := List.getLast?_eq_some_iff.mp h
  have hprefix : a.textBytes <+: a.payload := List.takeWhile_prefix _
  apply Nat.lt_of_le_of_ne hprefix.length_le
  intro hlength
  have hall : a.textBytes = a.payload := hprefix.eq_of_length hlength
  have hzero : (0 : UInt8) ∈ a.textBytes := by
    rw [hall, hfront]
    exact List.mem_append_right _ (List.mem_singleton_self 0)
  have hne := List.all_eq_true.mp List.all_takeWhile 0 hzero
  exact absurd hne (by decide)

/-- What a check against a data type lets through can be read as that data type. -/
theorem typed_of_validate (h : a.validate kind = .ok ()) : a.Typed kind := by
  have hpasses : a.Passes kind kind.expectedSize := validateSize_eq_ok_iff.mp h
  have hlength (hfixed : kind.expectedSize ≠ 0) : a.payload.length = kind.expectedSize := by
    have hatLeast := hpasses.expected_le
    have hatMost := hpasses.le_expected.resolve_left hfixed
    rw [← payloadSize_eq]
    omega
  cases kind with
  | u8 => exact map_front_decodeLE (fun _ => UInt8.toNat_ofNat') (hlength (by decide))
  | u16 =>
      exact ⟨map_front_decodeLE (fun _ => UInt16.toNat_ofNat') (hlength (by decide)),
        map_front_decodeBE (fun _ => UInt16.toNat_ofNat') (hlength (by decide))⟩
  | u32 =>
      exact ⟨map_front_decodeLE (fun _ => UInt32.toNat_ofNat') (hlength (by decide)),
        map_front_decodeBE (fun _ => UInt32.toNat_ofNat') (hlength (by decide))⟩
  | u64 | msecs =>
      exact ⟨map_front_decodeLE (fun _ => UInt64.toNat_ofNat') (hlength (by decide)),
        map_front_decodeBE (fun _ => UInt64.toNat_ofNat') (hlength (by decide))⟩
  | nulString => exact ⟨length_textBytes_lt (hpasses.terminated rfl), a.getText_eq⟩
  | _ => trivial

end Attribute

namespace Policy

variable {σ : Type} {p : Policy} {callback : Callback Attribute σ}

/-! ## What a callback is shown -/

def recorded (callback : Callback Attribute σ) : Callback Attribute (σ × List Attribute) :=
  fun (state, shown) a =>
    let answer := callback state a
    ⟨answer.result, (answer.state, shown ++ [a]), answer.events⟩

/-- Recording changes nothing, and what is shown has passed the checks of the policy. -/
theorem parseList_recorded (p : Policy) (callback : Callback Attribute σ) (remaining : Int)
    (state : σ) (shown as : List Attribute) :
    let plain := p.parseList callback remaining state as
    ∃ more, (∀ a ∈ more, a ∈ as ∧ p.exceeded? a = none ∧ p.fault? a = none) ∧
      p.parseList (recorded callback) remaining (state, shown) as =
        ⟨plain.result, (plain.state, shown ++ more), plain.events⟩ := by
  induction as generalizing state shown with
  | nil =>
      refine ⟨[], List.forall_mem_nil _, ?_⟩
      simp only [parseList]
      split <;> rw [List.append_nil]
  | cons a later ih =>
      -- `more` are the attributes that are shown from here on
      have htail {more : List Attribute}
          (hmore : ∀ b ∈ more, b ∈ later ∧ p.exceeded? b = none ∧ p.fault? b = none) :
          ∀ b ∈ more, b ∈ a :: later ∧ p.exceeded? b = none ∧ p.fault? b = none :=
        fun b hb => ⟨List.mem_cons_of_mem a (hmore b hb).1, (hmore b hb).2⟩
      cases hexceeded : p.exceeded? a with
      | some maxType =>
          cases hunsupported : p.unsupported with
          | skip =>
              obtain ⟨more, hmore, hlater⟩ := ih state shown
              refine ⟨more, htail hmore, ?_⟩
              simp only [parseList, hexceeded, hunsupported, hlater]
          | abort =>
              refine ⟨[], List.forall_mem_nil _, ?_⟩
              simp only [parseList, hexceeded, hunsupported, List.append_nil]
      | none =>
          cases hfault : p.fault? a with
          | some e =>
              refine ⟨[], List.forall_mem_nil _, ?_⟩
              simp only [parseList, hexceeded, hfault, List.append_nil]
          | none =>
              have hfirst : a ∈ a :: later ∧ p.exceeded? a = none ∧ p.fault? a = none :=
                ⟨List.mem_cons_self, hexceeded, hfault⟩
              by_cases hanswer : (callback state a).result = .proceed
              · obtain ⟨more, hmore, hlater⟩ := ih (callback state a).state (shown ++ [a])
                refine ⟨a :: more, List.forall_mem_cons.mpr ⟨hfirst, htail hmore⟩, ?_⟩
                simp only [parseList, hexceeded, hfault, recorded, hanswer, if_true] at hlater ⊢
                rw [hlater, List.append_assoc, List.singleton_append]
              · refine ⟨[a], List.forall_mem_singleton.mpr hfirst, ?_⟩
                simp only [parseList, hexceeded, hfault, recorded, hanswer, if_false]

theorem validate_of_fault?_none {a : Attribute} {kind : DataType} (h : p.fault? a = none)
    (hkind : p.kinds[a.type.toNat]? = some (some kind)) : a.validate kind = .ok () := by
  simp only [fault?, hkind] at h
  cases hvalid : a.validate kind with
  | error e =>
      rw [hvalid] at h
      cases h
  | ok _ => rfl

/-- A check passes exactly what `Passes` describes, and the flag bits of the type count for nothing
in it. A parse shows its callback no attribute that its entry in the policy does not pass, so what
is shown can be read as the entry says, whatever the policy, the stream and the callback are. -/
theorem parse_shows_typed (p : Policy) (callback : Callback Attribute σ) (state : σ)
    (s : Attributes) :
    let parsed := p.parse callback state s
    let recording := p.parse (recorded callback) (state, []) s
    (∀ (a : Attribute) (kind : DataType) (expected : Nat),
        a.validateSize kind expected = .ok () ↔ a.Passes kind expected) ∧
      (∀ (a : Attribute) (kind : DataType),
        a.validate kind = a.validateSize kind kind.expectedSize) ∧
      (∀ a b : Attribute, a.SameButFlags b → ∀ (kind : DataType) (expected : Nat),
        a.validateSize kind expected = b.validateSize kind expected ∧
          a.validate kind = b.validate kind) ∧
      recording.result = parsed.result ∧ recording.state.1 = parsed.state ∧
      recording.events = parsed.events ∧
      ∀ a ∈ recording.state.2, ∀ kind, p.kinds[a.type.toNat]? = some (some kind) →
        a.validate kind = .ok () ∧ a.Typed kind := by
  intro parsed recording
  obtain ⟨shown, hshown, hrecording⟩ :=
    parseList_recorded p callback s.last.remaining state [] s.records
  rw [← parse_eq_of_records, ← parse_eq_of_records, List.nil_append] at hrecording
  refine ⟨fun a kind expected => Attribute.validateSize_eq_ok_iff, fun _ _ => rfl, ?_,
    congrArg Outcome.result hrecording, congrArg (·.state.1) hrecording,
    congrArg Outcome.events hrecording, ?_⟩
  · intro a b h kind expected
    exact ⟨h.validateSize_eq kind expected, h.validateSize_eq kind kind.expectedSize⟩
  · intro a ha kind hkind
    have hstate : recording.state.2 = shown := congrArg (·.state.2) hrecording
    rw [hstate] at ha
    have hvalid := validate_of_fault?_none (hshown a ha).2.2 hkind
    exact ⟨hvalid, Attribute.typed_of_validate hvalid⟩

/-- A number with a flag on its type and a terminated text are shown, a number that is too short is
not. -/
theorem parse_shows_typed_short :
    let p : Policy := { kinds := [none, some .u16, some .nulString] }
    let count : Callback Attribute Nat := fun n _ => ⟨.proceed, n + 1, []⟩
    let s : Attributes := .ofBytes
      [6, 0, 1, 0x40, 1, 2, 0, 0, 6, 0, 2, 0, 97, 0, 0, 0, 5, 0, 1, 0, 9]
    let number : Attribute := ⟨[6, 0, 1, 0x40, 1, 2], by decide, by decide⟩
    let plain : Attribute := ⟨[6, 0, 1, 0, 1, 2], by decide, by decide⟩
    let text : Attribute := ⟨[6, 0, 2, 0, 97, 0], by decide, by decide⟩
    let recording := p.parse (recorded count) (0, []) s
    recording.state.2 = [number, text] ∧ p.kinds[number.type.toNat]? = some (some .u16) ∧
      p.kinds[text.type.toNat]? = some (some .nulString) ∧ number.Typed .u16 ∧
      text.Typed .nulString ∧ (p.parse count 0 s).state = 2 ∧ number.SameButFlags plain ∧
      number.validateSize .u32 4 = plain.validateSize .u32 4 := by
  intro p count s number plain text recording
  have hshown : recording.state.2 = [number, text] := by decide +kernel
  have hnumber : p.kinds[number.type.toNat]? = some (some .u16) := by decide +kernel
  have htext : p.kinds[text.type.toNat]? = some (some .nulString) := by decide +kernel
  have hflags : number.SameButFlags plain := ⟨by decide +kernel, rfl⟩
  obtain ⟨_, _, hsame, _, hcount, _, htyped⟩ := parse_shows_typed p count 0 s
  have hfirst : number ∈ recording.state.2 := by simp [hshown]
  have hsecond : text ∈ recording.state.2 := by simp [hshown]
  have htwo : recording.state.1 = 2 := by decide +kernel
  exact ⟨hshown, hnumber, htext, (htyped number hfirst .u16 hnumber).2,
    (htyped text hsecond .nulString htext).2, hcount.symm.trans htwo, hflags,
    (hsame number plain hflags .u32 4).1⟩

end Policy

end Netlink
