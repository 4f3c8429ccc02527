import Mathlib.Data.List.Induction
import Netlink.Attribute.Table

/-!
# Looking up attributes

A table answers for a type with the attribute of that type that was inserted last. Main statements:
`get?_ofList`, `mem_toList_ofList` and `pairwise_toList_ofList`, by which listing the table gives
the answers in the order of their types, and `Table.ext_get?`, by which tables are known by their
answers.
-/

namespace Netlink

namespace Table

@[simp] theorem get?_empty (maxType type : UInt16) : (empty maxType).get? type = none := by
  rw [get?, empty, Vector.getElem?_replicate]
  split <;> rfl

theorem get?_insert (t : Table) (a : Attribute) (type : UInt16) :
    (t.insert a).get? type =
      if a.type = type ∧ type ≤ t.maxType then some a else t.get? type := by
  have hbound : type.toNat < t.maxType.toNat + 1 ↔ type ≤ t.maxType := by
    rw [UInt16.le_iff_toNat_le, Nat.lt_succ_iff]
  rw [get?, get?, insert, Vector.getElem?_setIfInBounds]
  by_cases htype : a.type = type
  · subst htype
    by_cases hle : a.type ≤ t.maxType
    · rw [if_pos rfl, if_pos (hbound.mpr hle), if_pos ⟨rfl, hle⟩]
      rfl
    · have hout : ¬a.type.toNat < t.maxType.toNat + 1 := mt hbound.mp hle
      have hnone : t.slots[a.type.toNat]? = none :=
        Vector.getElem?_eq_none_iff.mpr (Nat.le_of_not_lt hout)
      rw [if_pos rfl, if_neg hout, if_neg (fun h => hle h.2), hnone]
  · have hplace : ¬a.type.toNat = type.toNat := mt UInt16.toNat_inj.mp htype
    rw [if_neg hplace, if_neg (fun h => htype h.1)]

theorem maxType_ofList (as : List Attribute) (maxType : UInt16) :
    (ofList as maxType).maxType = maxType := by
  induction as using List.reverseRecOn with
  | nil => rfl
  | append_singleton as a ih =>
      rw [ofList, List.foldl_append]
      exact ih

/-- The last attribute of a type stays, and types above the maximum are left out. -/
theorem get?_ofList (as : List Attribute) (maxType type : UInt16) :
    (ofList as maxType).get? type =
      if type ≤ maxType then as.reverse.find? (·.type == type) else none := by
  induction as using List.reverseRecOn with
  | nil => rw [ofList, List.foldl_nil, get?_empty, List.reverse_nil, List.find?_nil, ite_self]
  | append_singleton as a ih =>
      rw [ofList, List.foldl_append]
      show ((ofList as maxType).insert a).get? type = _
      rw [get?_insert, maxType_ofList, ih, List.reverse_append, List.reverse_singleton,
        List.singleton_append]
      by_cases htype : a.type = type
      · have hfound : (a :: as.reverse).find? (fun a => a.type == type) = some a :=
          List.find?_cons_of_pos (beq_iff_eq.mpr htype)
        rw [hfound]
        simp only [htype, true_and]
        split <;> rfl
      · have hpassed : (a :: as.reverse).find? (fun a => a.type == type) =
            as.reverse.find? fun a => a.type == type :=
          List.find?_cons_of_neg (mt beq_iff_eq.mp htype)
        rw [hpassed, if_neg (fun h => htype h.1)]

theorem ofNat_size_slots (t : Table) : UInt16.ofNat (t.slots.toArray.size - 1) = t.maxType := by
  rw [Vector.size_toArray, Nat.add_sub_cancel, UInt16.ofNat_toNat]

/-! ## Listing a table -/

theorem toNat_ofNat_of_slot {maxType : UInt16} {i : Nat} (h : i < maxType.toNat + 1) :
    (UInt16.ofNat i).toNat = i :=
  UInt16.toNat_ofNat_of_lt' (Nat.lt_of_le_of_lt (Nat.le_of_lt_succ h) maxType.toNat_lt)

theorem get?_of_getElem?_slots {t : Table} {i : Nat} {a : Attribute}
    (h : t.slots[i]? = some (some a)) :
    (UInt16.ofNat i).toNat = i ∧ t.get? (.ofNat i) = some a := by
  have hword := toNat_ofNat_of_slot (Vector.getElem?_eq_some_iff.mp h).1
  refine ⟨hword, ?_⟩
  rw [get?, hword, h]
  rfl

theorem mem_toList_iff {t : Table} {a : Attribute} :
    a ∈ t.toList ↔ ∃ type, t.get? type = some a := by
  have hslots : a ∈ t.toList ↔ ∃ i : Nat, t.slots[i]? = some (some a) := by
    rw [toList, List.mem_filterMap]
    simp only [id_eq, exists_eq_right, List.mem_iff_getElem?, Vector.getElem?_toList]
  rw [hslots]
  constructor
  · rintro ⟨i, hi⟩
    exact ⟨_, (get?_of_getElem?_slots hi).2⟩
  · rintro ⟨type, htype⟩
    exact ⟨_, Option.join_eq_some_iff.mp htype⟩

theorem type_of_get?_ofList {as : List Attribute} {maxType type : UInt16} {a : Attribute}
    (h : (ofList as maxType).get? type = some a) : a.type = type := by
  rw [get?_ofList] at h
  split at h
  · have hfound := List.find?_some h
    exact beq_iff_eq.mp hfound
  · cases h

theorem mem_toList_ofList {as : List Attribute} {maxType : UInt16} {a : Attribute} :
    a ∈ (ofList as maxType).toList ↔ (ofList as maxType).get? a.type = some a := by
  rw [mem_toList_iff]
  constructor
  · rintro ⟨type, htype⟩
    rwa [type_of_get?_ofList htype]
  · intro h
    exact ⟨_, h⟩

theorem pairwise_toList_ofList (as : List Attribute) (maxType : UInt16) :
    ((ofList as maxType).toList.map Attribute.type).Pairwise (· < ·) := by
  have htype {i : Nat} {a : Attribute} (hi : (ofList as maxType).slots[i]? = some (some a)) :
      a.type.toNat = i := by
    obtain ⟨hword, hget⟩ := get?_of_getElem?_slots hi
    rw [type_of_get?_ofList hget, hword]
  rw [List.pairwise_map, toList, List.pairwise_filterMap, List.pairwise_iff_getElem]
  intro i j hi hj hlt a ha b hb
  have hfirst : (ofList as maxType).slots[i]? = some (some a) := by
    rw [← Vector.getElem?_toList, List.getElem?_eq_getElem hi]
    exact congrArg some ha
  have hsecond : (ofList as maxType).slots[j]? = some (some b) := by
    rw [← Vector.getElem?_toList, List.getElem?_eq_getElem hj]
    exact congrArg some hb
  rw [UInt16.lt_iff_toNat_lt, htype hfirst, htype hsecond]
  exact hlt

/-! ## Tables by their answers -/

theorem ext_get? {t u : Table} (hmax : t.maxType = u.maxType)
    (h : ∀ type, type ≤ t.maxType → t.get? type = u.get? type) : t = u := by
  obtain ⟨maxType, slots⟩ := t
  obtain ⟨_, slots'⟩ := u
  cases hmax
  congr 1
  apply Vector.ext
  intro i hi
  have hword := toNat_ofNat_of_slot hi
  have hle : UInt16.ofNat i ≤ maxType := by
    rw [UInt16.le_iff_toNat_le, hword]
    exact Nat.le_of_lt_succ hi
  have hanswer := h (.ofNat i) hle
  rw [get?, get?, hword, Vector.getElem?_eq_getElem hi, Vector.getElem?_eq_getElem hi] at hanswer
  exact hanswer

def ofLookup (maxType : UInt16) (found : UInt16 → Option Attribute) : Table :=
  ⟨maxType, .ofFn fun i => found (.ofNat i.val)⟩

theorem get?_ofLookup {maxType type : UInt16} (h : type ≤ maxType)
    (found : UInt16 → Option Attribute) : (ofLookup maxType found).get? type = found type := by
  have hbound : type.toNat < maxType.toNat + 1 :=
    Nat.lt_succ_of_le (UInt16.le_iff_toNat_le.mp h)
  rw [get?, ofLookup, Vector.getElem?_ofFn, dif_pos hbound, UInt16.ofNat_toNat]
  rfl

end Table

end Netlink
