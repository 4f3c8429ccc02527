import Netlink.Proofs.Draft.Storage

/-!
# Operations on stored drafts

One statement for each operation on the storage of a draft: it has an answer, so no step of it
leaves its range, and what it answers and leaves is the `outcome` of the operation on the draft.
-/

namespace Netlink

namespace Storage

variable {d : Draft} {shown : List Bytes}

/-! ## Changes of the message -/

theorem extend?_of_ok (hd : d.buffer.length < 2 ^ 63) {count : UInt64} {region : Region} {e : Draft}
    (h : d.extend count = .ok (region, e)) :
    (of d shown).extend? count = some (.ok (of d shown).length, of e shown) := by
  have hwords : d.buffer.length < 2 ^ 64 := Nat.lt_trans hd (by decide)
  unfold Draft.extend at h
  split at h
  · rename_i hfits
    cases h
    obtain ⟨longer, hstored, hsize, hbuffer, hgrown⟩ :=
      of_append_zeros d shown (align_mod count) hfits
    have hmax := hfits
    rw [Draft.maxSize] at hmax
    have hle := le_toNat_align (n := count) (by omega)
    have hsum := toNat_addSat (.ofNat d.size) (align count)
    rw [toNat_size] at hsum
    have hnew : (addSat (.ofNat d.size) (align count)).toNat = longer.size := by omega
    have htotal := length_buffer d
    have hplace := (toNat_length hwords shown).trans htotal.symm
    have hgrownLength : (longer.setLength).buffer.length = longer.buffer.length := by
      rw [length_buffer, length_buffer]
      exact congrArg (longer.before.length + ·) (Draft.size_write _ _ _)
    have hstop := addChecked_eq_some (b := count) hplace rfl (by omega)
    rw [extend?, size?_of hwords, Option.bind_some]
    simp only
    rw [if_neg (by rw [hnew, Draft.maxSize]; omega)]
    show (setLength? { of d shown with buffer := d.buffer ++ _ } _).bind _ = _
    rw [hstored, setLength?_of (by omega) hnew, Option.bind_some, hstop, Option.bind_some, ← hgrown]
    rw [if_pos]
    show (UInt64.ofNat (d.buffer.length + count.toNat)).toNat ≤ longer.setLength.buffer.length
    rw [toNat_ofNat_of_lt_two_pow_64 (by omega), hgrownLength, hbuffer]
    omega
  · cases h

theorem extend?_of_error (hd : d.buffer.length < 2 ^ 63) {count : UInt64} {cause : DraftError}
    (h : d.extend count = .error cause) :
    (of d shown).extend? count = some (.error cause, of d shown) := by
  have hwords : d.buffer.length < 2 ^ 64 := Nat.lt_trans hd (by decide)
  unfold Draft.extend at h
  split at h
  · cases h
  · rename_i hlong
    cases h
    have hsum := toNat_addSat (.ofNat d.size) (align count)
    have hsize := d.size_lt
    rw [toNat_size] at hsum
    rw [Draft.maxSize] at hlong
    rw [extend?, size?_of hwords, Option.bind_some]
    simp only
    rw [if_pos (by rw [hsum, Draft.maxSize]; omega), hsum]

theorem patch?_of (hd : d.buffer.length < 2 ^ 63) (offset : UInt64) {data : Bytes}
    (hdata : data.length < 2 ^ 63) :
    (of d shown).patch? offset data =
      some (outcome (of d shown) shown (d.patch offset.toNat data)) := by
  have hwords : d.buffer.length < 2 ^ 64 := Nat.lt_trans hd (by decide)
  have hlength : (UInt64.ofNat data.length).toNat = data.length :=
    toNat_ofNat_of_lt_two_pow_64 (by omega)
  have hsize := d.size_lt
  rw [patch?, size?_of hwords, Option.bind_some, Draft.patch]
  by_cases hfits : offset.toNat + data.length ≤ d.size
  · have hsum := addChecked_eq_some (a := offset) rfl hlength (by omega)
    have hstop : (UInt64.ofNat (offset.toNat + data.length)) ≤ .ofNat d.size := by
      rw [UInt64.le_iff_toNat_le, toNat_size, toNat_ofNat_of_lt_two_pow_64 (by omega)]
      exact hfits
    have hcount : subChecked (.ofNat (offset.toNat + data.length)) offset =
        some (.ofNat data.length) := by
      rw [subChecked_eq_some_iff, hlength, toNat_ofNat_of_lt_two_pow_64 (by omega)]
    rw [hsum, Option.filter_some_pos (by simpa using hstop), if_pos hfits]
    simp only
    rw [hcount, Option.bind_some, if_pos hlength, write?_of hwords hfits]
    rfl
  · have hnone : ((addChecked offset (.ofNat data.length)).filter
        fun stop => stop ≤ .ofNat d.size) = none := by
      cases hsum : addChecked offset (.ofNat data.length) with
      | none => rfl
      | some stop =>
          rw [addChecked_eq_some_iff, hlength] at hsum
          apply Option.filter_some_neg
          rw [decide_eq_false_iff_not, UInt64.le_iff_toNat_le, toNat_size]
          omega
    rw [hnone, if_neg hfits, toNat_size]
    rfl

theorem truncate?_of (hd : d.buffer.length < 2 ^ 63) (count : UInt64) :
    (of d shown).truncate? count = some (outcome (of d shown) shown (d.truncate count.toNat)) := by
  have hwords : d.buffer.length < 2 ^ 64 := Nat.lt_trans hd (by decide)
  have htotal := length_buffer d
  have hlt := count.toNat_lt
  have hround := roundUp_lt count.toNat
  have haligned : count = align count ↔ count.toNat % 4 = 0 := by
    rw [← UInt64.toNat_inj, toNat_align]
    simp only [roundUp]
    omega
  rw [truncate?, size?_of hwords, Option.bind_some, Draft.truncate]
  by_cases hcount : Message.headerSize ≤ count.toNat ∧ count.toNat ≤ d.size ∧ count.toNat % 4 = 0
  · obtain ⟨shorter, hstored, hsize, hbuffer, hcut⟩ :=
      of_take d shown hcount.1 hcount.2.1 hcount.2.2
    have hsum := addChecked_eq_some (b := count) (toNat_start hwords shown) rfl (by omega)
    have hinside : ¬(count.toNat < Message.headerSize ∨ .ofNat d.size < count ∨
        count ≠ align count) := by
      rw [UInt64.lt_iff_toNat_lt, toNat_size, ne_eq, haligned]
      omega
    rw [if_neg hinside, hsum, Option.bind_some, dif_pos hcount]
    simp only
    rw [toNat_ofNat_of_lt_two_pow_64 (by omega)]
    show (setLength? { of d shown with buffer := d.buffer.take _ } _).map _ = _
    rw [hstored, setLength?_of (by omega) hsize.symm, hcut]
    rfl
  · have houtside : count.toNat < Message.headerSize ∨ .ofNat d.size < count ∨
        count ≠ align count := by
      rw [UInt64.lt_iff_toNat_lt, toNat_size, ne_eq, haligned]
      omega
    rw [if_pos houtside, dif_neg hcount, toNat_size]
    rfl

/-- A fill callback that does not fail is shown what the draft holds in the region. -/
theorem fill?_of (hd : d.buffer.length < 2 ^ 64) {place count : UInt64} {offset : Nat}
    {fill : Bytes → Option Bytes} {written : Bytes}
    (hplace : place.toNat = d.before.length + offset) (hfits : offset + count.toNat ≤ d.size)
    (hfill : fill (d.contents ⟨offset, count.toNat⟩) = some written) :
    (of d shown).fill? place count fill =
      some (of (d.fill ⟨offset, count.toNat⟩ written)
        (shown ++ [d.contents ⟨offset, count.toNat⟩])) := by
  have htotal := length_buffer d
  have hsum := addChecked_eq_some (b := count) hplace rfl (by omega)
  have hregion : d.buffer.slice place.toNat count.toNat = d.contents ⟨offset, count.toNat⟩ := by
    rw [Draft.contents, Bytes.slice, Bytes.slice, hplace, Draft.buffer, ← List.drop_drop,
      List.drop_left]
  have hwritten : offset + (written.take count.toNat).length ≤ d.size := by
    rw [List.length_take]
    omega
  rw [fill?, hsum, Option.bind_some, if_pos]
  · show ((fill (d.buffer.slice place.toNat count.toNat)).bind fun written =>
      (of d (shown ++ [d.buffer.slice place.toNat count.toNat])).overwrite? place
        (written.take count.toNat)) = _
    rw [hregion, hfill, Option.bind_some]
    exact overwrite?_of hd hplace hwritten
  · show (UInt64.ofNat (d.before.length + offset + count.toNat)).toNat ≤ d.buffer.length
    rw [toNat_ofNat_of_lt_two_pow_64 (by omega)]
    omega

/-! ## Attributes -/

theorem place_of_extend (hd : d.buffer.length < 2 ^ 63) {count : UInt64} {region : Region}
    {e : Draft} (h : d.extend count = .ok (region, e)) (shown : List Bytes) :
    e.buffer.length < 2 ^ 64 ∧ (of d shown).length.toNat = e.before.length + d.size ∧
      d.size + count.toNat ≤ e.size := by
  obtain ⟨_, hfits, happended⟩ := Draft.extend_ok h
  have hgrown := happended.size
  have htotal := length_buffer d
  rw [Bytes.length_zeros] at hgrown
  rw [Draft.maxSize] at hfits
  have hle := le_toNat_align (n := count) (by omega)
  rw [length_buffer, happended.before, toNat_length (Nat.lt_trans hd (by decide))]
  exact ⟨by omega, rfl, by omega⟩

theorem putWith?_of_error (hd : d.buffer.length < 2 ^ 63) {type : UInt16} {count : UInt64}
    {cause : AttributeError} (h : d.reserve type count = .error cause)
    (fill : Bytes → Option Bytes) :
    (of d shown).putWith? type count fill = some (.error cause, of d shown) := by
  rw [Draft.reserve] at h
  rw [putWith?]
  generalize addSat (.ofNat Attribute.headerSize) count = size at h ⊢
  split at h
  · rename_i hlarge
    cases h
    rw [if_pos hlarge]
  · rename_i hlarge
    rw [if_neg hlarge]
    split at h
    · rename_i refusal hextend
      cases h
      rw [extend?_of_error hd hextend]
      rfl
    · cases h

theorem overwrite?_fill?_of (hd : d.buffer.length < 2 ^ 64) {place count : UInt64} {offset : Nat}
    {header : Bytes} {fill : Bytes → Option Bytes} {written : Bytes}
    (hplace : place.toNat = d.before.length + offset) (hheader : header.length = 4)
    (hfits : offset + (4 + count.toNat) ≤ d.size)
    (hfill : fill ((d.write offset header).contents ⟨offset + 4, count.toNat⟩) = some written) :
    ((of d shown).overwrite? place header).bind (fun s =>
        (addChecked place (.ofNat Attribute.headerSize)).bind fun payload =>
          (s.fill? payload count fill).map fun s => (.ok (), s)) =
      (some (.ok (), of ((d.write offset header).fill ⟨offset + 4, count.toNat⟩ written)
        (shown ++ [(d.write offset header).contents ⟨offset + 4, count.toNat⟩])) :
          Answer AttributeError Unit) := by
  have hfour : (UInt64.ofNat Attribute.headerSize).toNat = 4 := rfl
  have htotal := length_buffer d
  have hwritten : (d.write offset header).size = d.size := Draft.size_write _ _ _
  have hbuffer : (d.write offset header).buffer.length < 2 ^ 64 := by
    rw [length_buffer, hwritten]
    exact htotal ▸ hd
  have hbehind := addChecked_eq_some hplace hfour (by omega)
  rw [Nat.add_assoc] at hbehind
  have hpayload : (UInt64.ofNat (d.before.length + (offset + 4))).toNat =
      d.before.length + (offset + 4) := toNat_ofNat_of_lt_two_pow_64 (by omega)
  rw [overwrite?_of hd hplace (by omega), Option.bind_some, hbehind, Option.bind_some,
    fill?_of hbuffer hpayload (by omega) hfill]
  rfl

theorem putWith?_of_ok (hd : d.buffer.length < 2 ^ 63) {type : UInt16} {count : UInt64}
    {region : Region} {e : Draft} (h : d.reserve type count = .ok (region, e))
    {fill : Bytes → Option Bytes} {written : Bytes}
    (hfill : fill (e.contents region) = some written) :
    (of d shown).putWith? type count fill =
      some (.ok (), of (e.fill region written) (shown ++ [e.contents region])) := by
  have hfour : (UInt64.ofNat Attribute.headerSize).toNat = 4 := rfl
  have hsum := toNat_addSat (.ofNat Attribute.headerSize) count
  rw [hfour] at hsum
  rw [Draft.reserve] at h
  rw [putWith?]
  generalize addSat (.ofNat Attribute.headerSize) count = size at h hsum ⊢
  split at h
  · cases h
  · rename_i hlarge
    rw [if_neg hlarge]
    rw [Draft.maxAttributeSize] at hlarge
    have hsize : size.toNat = 4 + count.toNat := by omega
    split at h
    · cases h
    · rename_i place longer hextend
      cases h
      obtain ⟨hlength, hplace, hinside⟩ := place_of_extend hd hextend shown
      obtain ⟨rfl, _, _⟩ := Draft.extend_ok hextend
      have hrest : subChecked size (.ofNat Attribute.headerSize) = some count := by
        rw [subChecked_eq_some_iff, hfour]
        exact hsize
      rw [extend?_of_ok hd hextend]
      show ((subChecked size _).bind _) = _
      rw [hrest, Option.bind_some]
      exact overwrite?_fill?_of hlength hplace (Draft.length_attributeHeader size.toNat type)
        (hsize ▸ hinside) hfill

theorem putWith?_of (hd : d.buffer.length < 2 ^ 63) (type : UInt16) {count : UInt64}
    (fill : Bytes → Bytes) {fill? : Bytes → Option Bytes}
    (hfill : fill? (Bytes.zeros count.toNat) = some (fill (Bytes.zeros count.toNat))) :
    (of d shown).putWith? type count fill? =
      some (outcome (of d shown) (shown ++ [Bytes.zeros count.toNat])
        (d.putWith type count fill)) := by
  rw [Draft.putWith]
  cases hreserve : d.reserve type count with
  | error cause =>
      rw [putWith?_of_error hd hreserve]
      rfl
  | ok reserved =>
      obtain ⟨region, e⟩ := reserved
      have hzeros : e.contents region = Bytes.zeros count.toNat := by
        obtain ⟨_, rfl, happended⟩ := Draft.reserve_ok hreserve
        rw [Draft.padded_encode, Bytes.length_zeros] at happended
        exact Draft.contents_reserved happended
      rw [← hzeros] at hfill ⊢
      rw [putWith?_of_ok hd hreserve hfill]
      rfl

theorem put?_of (hd : d.buffer.length < 2 ^ 63) (type : UInt16) {data : Bytes}
    (hdata : data.length < 2 ^ 63) :
    (of d shown).put? type data =
      some (outcome (of d shown) (shown ++ [Bytes.zeros data.length]) (d.put type data)) := by
  have hlength : (UInt64.ofNat data.length).toNat = data.length :=
    toNat_ofNat_of_lt_two_pow_64 (by omega)
  have hcount : UInt64.ofNatClamp data.length = .ofNat data.length := by
    rw [← UInt64.toNat_inj, Draft.toNat_ofNatClamp, hlength]
    omega
  rw [put?, putWith?_of hd type fun _ => data, hlength, Draft.put, hcount]
  rw [hlength, Bytes.length_zeros, if_pos rfl]

theorem overwrite_text {text region : Bytes} (h : region.length = text.length + 1) :
    (region.overwrite 0 text).overwrite text.length [0] = text ++ [0] := by
  have hold : text.length = (region.take text.length).length := by
    rw [List.length_take]
    omega
  have hlast : ([0] : Bytes).length = (region.drop text.length).length := by
    rw [List.length_drop, h, Nat.add_sub_cancel_left]
    rfl
  have hfirst := Bytes.overwrite_middle [] (region.take text.length) (region.drop text.length)
    text hold
  have hsecond := Bytes.overwrite_middle text (region.drop text.length) [] [0] hlast
  rw [List.nil_append, List.nil_append, List.take_append_drop] at hfirst
  rw [List.append_nil, List.append_nil] at hsecond
  exact (congrArg (Bytes.overwrite · text.length [0]) hfirst).trans hsecond

theorem putTextZ?_of (hd : d.buffer.length < 2 ^ 63) (type : UInt16) {text : String}
    (htext : (Bytes.ofText text).length < 2 ^ 63) :
    (of d shown).putTextZ? type (Bytes.ofText text) =
      some (outcome (of d shown) (shown ++ [Bytes.zeros ((Bytes.ofText text).length + 1)])
        (d.putTextZ type text)) := by
  have hcount : addChecked (.ofNat (Bytes.ofText text).length) 1 =
      some (.ofNat ((Bytes.ofText text).length + 1)) :=
    addChecked_eq_some (toNat_ofNat_of_lt_two_pow_64 (by omega)) rfl (by omega)
  have hlength : (UInt64.ofNat ((Bytes.ofText text).length + 1)).toNat =
      (Bytes.ofText text).length + 1 := toNat_ofNat_of_lt_two_pow_64 (by omega)
  have hclamp : UInt64.ofNatClamp (Bytes.ofText text ++ [0]).length =
      .ofNat ((Bytes.ofText text).length + 1) := by
    rw [← UInt64.toNat_inj, Draft.toNat_ofNatClamp, hlength, List.length_append]
    simp only [List.length_cons, List.length_nil]
    omega
  have hfilled : (if (Bytes.ofText text).length <
        (Bytes.zeros ((Bytes.ofText text).length + 1)).length
      then some (((Bytes.zeros ((Bytes.ofText text).length + 1)).overwrite 0
        (Bytes.ofText text)).overwrite (Bytes.ofText text).length [0])
      else none) = some (Bytes.ofText text ++ [0]) := by
    rw [Bytes.length_zeros, if_pos (Nat.lt_succ_self _), overwrite_text (Bytes.length_zeros _)]
  rw [putTextZ?, hcount, Option.bind_some, putWith?_of hd type fun _ => Bytes.ofText text ++ [0],
    hlength, Draft.putTextZ, Draft.put, hclamp]
  rw [hlength]
  exact hfilled

theorem append?_of (hd : d.buffer.length < 2 ^ 63) {leaf : Leaf} (hleaf : leaf.InMemory) :
    (of d shown).append? leaf =
      some (outcome (of d shown) (shown ++ [Bytes.zeros leaf.payload.length])
        (leaf.appendTo d)) := by
  cases leaf with
  | bytes type payload => exact put?_of hd type hleaf
  | filled type count fill =>
      rw [append?, putWith?_of hd type fill rfl, Leaf.payload, Draft.length_filled]
      rfl
  | text type value => exact put?_of hd type hleaf
  | textZ type value =>
      rw [append?, putTextZ?_of hd type hleaf, Leaf.payload, List.length_append]
      rfl
  | _ => exact put?_of hd _ (by simp [Leaf.payload])

/-! ## Nests -/

theorem nestStart?_of_ok (hd : d.buffer.length < 2 ^ 63) {type : UInt16} {nest : Nest} {e : Draft}
    (h : d.nestStart type = .ok (nest, e)) :
    (of d shown).nestStart? type = some (.ok (.ofNat nest.offset), of e shown) := by
  rw [Draft.nestStart] at h
  split at h
  · cases h
  · rename_i region longer hextend
    cases h
    obtain ⟨hlength, hplace, hinside⟩ := place_of_extend hd hextend shown
    obtain ⟨rfl, _, _⟩ := Draft.extend_ok hextend
    have hheader : d.size +
        (Draft.attributeHeader 0 (type ||| Attribute.nestedFlag)).length ≤ longer.size := by
      rw [Draft.length_attributeHeader]
      exact hinside
    rw [nestStart?, size?_of (Nat.lt_trans hd (by decide)), Option.bind_some,
      extend?_of_ok hd hextend]
    show ((of longer shown).overwrite? _ _).map _ = _
    rw [overwrite?_of hlength hplace hheader]
    rfl

theorem nestStart?_of_error (hd : d.buffer.length < 2 ^ 63) {type : UInt16}
    {cause : AttributeError} (h : d.nestStart type = .error cause) :
    (of d shown).nestStart? type = some (.error cause, of d shown) := by
  rw [Draft.nestStart] at h
  split at h
  · rename_i refusal hextend
    cases h
    rw [nestStart?, size?_of (Nat.lt_trans hd (by decide)), Option.bind_some,
      extend?_of_error hd hextend]
    rfl
  · cases h

theorem nestEnd?_of (hd : d.buffer.length < 2 ^ 63) {nest : Nest} (hnest : nest.offset < 2 ^ 32) :
    (of d shown).nestEnd? nest.type (.ofNat nest.offset) =
      some (outcome (of d shown) shown (d.nestEnd nest)) := by
  have hwords : d.buffer.length < 2 ^ 64 := Nat.lt_trans hd (by decide)
  have hoffset : (UInt64.ofNat nest.offset).toNat = nest.offset :=
    toNat_ofNat_of_lt_two_pow_64 (by omega)
  have hfour : (UInt64.ofNat Attribute.headerSize).toNat = 4 := rfl
  have hsize := d.size_lt
  rw [nestEnd?, size?_of hwords, Option.bind_some, Draft.nestEnd]
  -- the nest may start behind the end, where the difference fails, or too close to it
  by_cases hshort : d.size < nest.offset + Attribute.headerSize
  · have hnone : ((subChecked (.ofNat d.size) (.ofNat nest.offset)).filter
        fun size => .ofNat Attribute.headerSize ≤ size) = none := by
      rw [Attribute.headerSize] at hshort
      cases hdifference : subChecked (.ofNat d.size) (.ofNat nest.offset) with
      | none => rfl
      | some size =>
          rw [subChecked_eq_some_iff, toNat_size, hoffset] at hdifference
          apply Option.filter_some_neg
          rw [decide_eq_false_iff_not, UInt64.le_iff_toNat_le, hfour]
          omega
    rw [hnone, if_pos hshort, hoffset, toNat_size]
    rfl
  · rw [Attribute.headerSize] at hshort
    have hword : (UInt64.ofNat (d.size - nest.offset)).toNat = d.size - nest.offset :=
      toNat_ofNat_of_lt_two_pow_64 (by omega)
    have hdifference : subChecked (.ofNat d.size) (.ofNat nest.offset) =
        some (.ofNat (d.size - nest.offset)) := by
      rw [subChecked_eq_some_iff, toNat_size, hoffset, hword]
      omega
    have hlarge : .ofNat Attribute.headerSize ≤ UInt64.ofNat (d.size - nest.offset) := by
      rw [UInt64.le_iff_toNat_le, hfour, hword]
      omega
    rw [hdifference, Option.filter_some_pos (by simpa using hlarge), Attribute.headerSize,
      if_neg hshort]
    simp only [hword]
    by_cases hmax : Draft.maxAttributeSize < d.size - nest.offset
    · rw [if_pos hmax, if_pos hmax]
      rfl
    · rw [if_neg hmax, if_neg hmax, patch?_of hd _ (by rw [Bytes.length_encodeLE]; decide),
        hoffset]
      cases d.patch nest.offset (Bytes.encodeLE 2 (d.size - nest.offset)) <;> rfl

theorem nestCancel?_of (hd : d.buffer.length < 2 ^ 63) {nest : Nest}
    (hnest : nest.offset < 2 ^ 32) :
    (of d shown).nestCancel? (.ofNat nest.offset) =
      some (outcome (of d shown) shown (d.nestCancel nest)) := by
  have hoffset : (UInt64.ofNat nest.offset).toNat = nest.offset :=
    toNat_ofNat_of_lt_two_pow_64 (by omega)
  rw [nestCancel?, truncate?_of hd, hoffset, Draft.nestCancel]
  cases d.truncate nest.offset <;> rfl

end Storage

end Netlink
