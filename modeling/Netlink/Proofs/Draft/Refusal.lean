import Netlink.Proofs.Attribute.Appends

/-!
# When changes are refused

One statement for each operation on drafts: it goes through exactly where the sizes and offsets
that it is given fit. What it leaves behind then is said with the operations. An attribute that is
too large is refused with its type and its size.
-/

namespace Netlink

theorem isOk_iff {ε α : Type} {result : Except ε α} :
    result.isOk = true ↔ ∃ a, result = .ok a := by
  cases result with
  | error e => simp [Except.isOk, Except.toBool]
  | ok a => simp [Except.isOk, Except.toBool]

@[simp] theorem isOk_ok {ε α : Type} (a : α) : (Except.ok a : Except ε α).isOk = true := rfl

@[simp] theorem isOk_error {ε α : Type} (e : ε) : (Except.error e : Except ε α).isOk = false := rfl

@[simp] theorem isOk_map {ε α β : Type} (f : α → β) (result : Except ε α) :
    (result.map f).isOk = result.isOk := by
  cases result <;> rfl

@[simp] theorem isOk_mapError {ε ε' α : Type} (f : ε → ε') (result : Except ε α) :
    (result.mapError f).isOk = result.isOk := by
  cases result <;> rfl

namespace Draft

variable (d : Draft)

theorem isOk_extend (count : UInt64) :
    (d.extend count).isOk = true ↔ d.size + (align count).toNat ≤ maxSize := by
  rw [extend]
  split
  · rename_i hfits
    simpa using hfits
  · rename_i hlong
    simpa using hlong

theorem isOk_patch (offset : Nat) (data : Bytes) :
    (d.patch offset data).isOk = true ↔ offset + data.length ≤ d.size := by
  rw [patch]
  split
  · rename_i hfits
    simpa using hfits
  · rename_i hlong
    simpa using hlong

theorem isOk_truncate (count : Nat) :
    (d.truncate count).isOk = true ↔ 16 ≤ count ∧ count ≤ d.size ∧ count % 4 = 0 := by
  rw [truncate]
  split
  · rename_i hcount
    exact iff_of_true rfl hcount
  · rename_i hcount
    exact iff_of_false Bool.false_ne_true hcount

theorem truncate_fits {d e : Draft} {count : Nat} (h : d.truncate count = .ok e) :
    16 ≤ count ∧ count ≤ d.size ∧ count % 4 = 0 := by
  rw [← isOk_truncate, h, isOk_ok]

theorem isOk_reserve (type : UInt16) (count : UInt64) :
    (d.reserve type count).isOk = true ↔
      4 + count.toNat ≤ maxAttributeSize ∧ d.size + roundUp (4 + count.toNat) ≤ maxSize := by
  have hfour : (UInt64.ofNat Attribute.headerSize).toNat = 4 := rfl
  have hsize := toNat_addSat (.ofNat Attribute.headerSize) count
  rw [hfour] at hsize
  rw [reserve]
  generalize addSat (.ofNat Attribute.headerSize) count = size at hsize ⊢
  by_cases hlarge : maxAttributeSize < size.toNat
  · simp only [if_pos hlarge, isOk_error, Bool.false_eq_true, false_iff]
    omega
  · rw [maxAttributeSize] at hlarge ⊢
    rw [if_neg hlarge]
    have hsize' : size.toNat = 4 + count.toNat := by omega
    have halign : (align size).toNat = roundUp (4 + count.toNat) := by
      rw [toNat_align_of_le (by omega), hsize']
    have hextend := d.isOk_extend size
    rw [halign] at hextend
    cases hresult : d.extend size with
    | error e =>
        rw [hresult] at hextend
        simp only [isOk_error, Bool.false_eq_true, false_iff] at hextend ⊢
        exact fun h => hextend h.2
    | ok extended =>
        rw [hresult] at hextend
        simp only [isOk_ok, true_iff] at hextend ⊢
        exact ⟨by omega, hextend⟩

theorem isOk_putWith (type : UInt16) (count : UInt64) (fill : Bytes → Bytes) :
    (d.putWith type count fill).isOk = true ↔
      4 + count.toNat ≤ maxAttributeSize ∧ d.size + roundUp (4 + count.toNat) ≤ maxSize := by
  rw [putWith, isOk_map, isOk_reserve]

theorem isOk_put (type : UInt16) (payload : Bytes) :
    (d.put type payload).isOk = true ↔
      4 + payload.length ≤ maxAttributeSize ∧ d.size + roundUp (4 + payload.length) ≤ maxSize := by
  rw [put, isOk_putWith, toNat_ofNatClamp]
  -- a payload whose length is no word is too large for an attribute
  by_cases hword : payload.length < 2 ^ 64
  · have hmin : min payload.length (2 ^ 64 - 1) = payload.length := by omega
    rw [hmin]
  · rw [maxAttributeSize]
    omega

theorem isOk_nestStart (type : UInt16) :
    (d.nestStart type).isOk = true ↔ d.size + 4 ≤ maxSize := by
  have hextend := d.isOk_extend (.ofNat Attribute.headerSize)
  have hfour : (align (.ofNat Attribute.headerSize)).toNat = 4 := by decide
  rw [hfour] at hextend
  rw [nestStart, ← hextend]
  cases d.extend (.ofNat Attribute.headerSize) <;> rfl

theorem isOk_nestEnd (nest : Nest) :
    (d.nestEnd nest).isOk = true ↔
      nest.offset + 4 ≤ d.size ∧ d.size - nest.offset ≤ maxAttributeSize := by
  rw [nestEnd, Attribute.headerSize]
  split
  · simp only [isOk_error, Bool.false_eq_true, false_iff]
    omega
  · simp only
    split
    · simp only [isOk_error, Bool.false_eq_true, false_iff]
      omega
    · rw [isOk_mapError, isOk_patch, Bytes.length_encodeLE]
      omega

theorem isOk_nestCancel (nest : Nest) :
    (d.nestCancel nest).isOk = true ↔ nest.offset ≤ d.size := by
  have hheader := nest.headerSize_le
  have haligned := nest.aligned
  rw [nestCancel, isOk_mapError, isOk_truncate]
  omega

/-! ## Attributes that fit -/

section Attributes

variable {d : Draft} (type : UInt16) {payload : Bytes}

theorem put_of_le (hfits : 4 + payload.length ≤ maxAttributeSize)
    (hroom : d.size + roundUp (4 + payload.length) ≤ maxSize) :
    ∃ e, d.put type payload = .ok e ∧ Appended d (Attribute.encode type payload).padded e ∧
      e.size = d.size + roundUp (4 + payload.length) := by
  obtain ⟨e, hput⟩ := isOk_iff.mp ((d.isOk_put type payload).mpr ⟨hfits, hroom⟩)
  obtain ⟨_, happended⟩ := put_ok hput
  refine ⟨e, hput, happended, ?_⟩
  rw [happended.size, Bytes.length_padded, length_encode_attribute]

theorem nestStart_of_le (hroom : d.size + 4 ≤ maxSize) :
    ∃ nest e, d.nestStart type = .ok (nest, e) ∧ nest.type = type ∧ nest.offset = d.size ∧
      Appended d (attributeHeader 0 (type ||| Attribute.nestedFlag)) e ∧ e.size = d.size + 4 := by
  obtain ⟨⟨nest, e⟩, hstart⟩ := isOk_iff.mp ((d.isOk_nestStart type).mpr hroom)
  obtain ⟨htype, hoffset, happended⟩ := nestStart_ok hstart
  refine ⟨nest, e, hstart, htype, hoffset, happended, ?_⟩
  rw [happended.size, length_attributeHeader]

end Attributes

/-! ## Attributes that are too large -/

theorem put_of_large {type : UInt16} {payload : Bytes} (hword : payload.length < 2 ^ 32)
    (h : maxAttributeSize < 4 + payload.length) :
    d.put type payload = .error (.tooLarge type (4 + payload.length) maxAttributeSize) := by
  have hfour : (UInt64.ofNat Attribute.headerSize).toNat = 4 := rfl
  have hsize : (addSat (.ofNat Attribute.headerSize) (.ofNatClamp payload.length)).toNat =
      4 + payload.length := by
    rw [toNat_addSat, hfour, toNat_ofNatClamp]
    omega
  unfold put putWith reserve
  simp only [hsize, if_pos h]
  rfl

theorem nestEnd_of_large (nest : Nest) (h : maxAttributeSize < d.size - nest.offset) :
    d.nestEnd nest = .error (.tooLarge nest.type (d.size - nest.offset) maxAttributeSize) := by
  have hmax : maxAttributeSize = 65535 := rfl
  have hheader : Attribute.headerSize = 4 := rfl
  rw [nestEnd, if_neg (by omega)]
  exact if_pos h

end Draft

theorem Leaf.isOk_appendTo (leaf : Leaf) (d : Draft) :
    (leaf.appendTo d).isOk = true ↔
      4 + leaf.payload.length ≤ Draft.maxAttributeSize ∧
        d.size + roundUp (4 + leaf.payload.length) ≤ Draft.maxSize := by
  cases leaf with
  | filled type count fill =>
      rw [payload, Draft.length_filled]
      exact d.isOk_putWith type count fill
  | _ => exact d.isOk_put _ _

end Netlink
