import Netlink.Proofs.Attribute.Table
import Netlink.Proofs.Attribute.Validation

/-!
# Tables as indexes of streams

A table answers with the last attribute of a type, whatever flags the attributes carry. A parse that
skips the types above a maximum, with a callback that keeps the latest attribute of each type, comes
to the same answers. Main statement: `ofList_indexes`.
-/

namespace Netlink

namespace Attributes

variable {σ : Type} {callback : Callback Attribute σ}

theorem walkList_of_proceed (hproceed : ∀ state a, (callback state a).result = .proceed)
    (state : σ) (as : List Attribute) :
    (walkList callback state as).result = .proceed ∧
      (walkList callback state as).state =
        as.foldl (fun state a => (callback state a).state) state := by
  induction as generalizing state with
  | nil => exact ⟨rfl, rfl⟩
  | cons a later ih =>
      rw [walkList_cons_proceed (hproceed state a)]
      exact ih _

end Attributes

namespace Policy

theorem exceeded?_eq_none_iff {p : Policy} {maxType : UInt16} (h : p.maxType = some maxType)
    (a : Attribute) : p.exceeded? a = none ↔ a.type ≤ maxType := by
  rw [exceeded?, h, Option.filter_eq_none_iff]
  simp [UInt16.not_lt]

end Policy

namespace Table

/-! ## Flags -/

def SameButFlags (t u : Table) : Prop :=
  t.maxType = u.maxType ∧
    ∀ type, Option.Rel Attribute.SameButFlags (t.get? type) (u.get? type)

theorem SameButFlags.insert {t u : Table} {a b : Attribute} (h : t.SameButFlags u)
    (hab : a.SameButFlags b) : (t.insert a).SameButFlags (u.insert b) := by
  refine ⟨h.1, fun type => ?_⟩
  rw [get?_insert, get?_insert, hab.type_eq, h.1]
  split
  · exact .some hab
  · exact h.2 type

theorem sameButFlags_ofList {as bs : List Attribute} (h : List.Forall₂ Attribute.SameButFlags as bs)
    (maxType : UInt16) : (ofList as maxType).SameButFlags (ofList bs maxType) := by
  have hfold {t u : Table} (htu : t.SameButFlags u) :
      (as.foldl Table.insert t).SameButFlags (bs.foldl Table.insert u) := by
    induction h generalizing t u with
    | nil => exact htu
    | cons hab _ ih => exact ih (htu.insert hab)
  refine hfold ⟨rfl, fun type => ?_⟩
  rw [get?_empty]
  exact .none

/-! ## Keeping the latest -/

def latest : Callback Attribute (UInt16 → Option Attribute) := fun found a =>
  ⟨.proceed, fun type => if a.type = type then some a else found type, []⟩

/-- The answers of a table are the latest attributes up to its maximum. -/
theorem get?_ofList_eq_foldl (as : List Attribute) (maxType : UInt16) :
    (ofList as maxType).get? =
      (as.filter fun a => a.type ≤ maxType).foldl (fun found a => (latest found a).state)
        fun _ => none := by
  induction as using List.reverseRecOn with
  | nil =>
      funext type
      exact get?_empty maxType type
  | append_singleton as a ih =>
      funext type
      have hinsert : ofList (as ++ [a]) maxType = (ofList as maxType).insert a := List.foldl_append
      rw [hinsert, get?_insert, maxType_ofList, List.filter_append, List.foldl_append, ← ih]
      by_cases hle : a.type ≤ maxType
      · have hkept : [a].filter (fun a => a.type ≤ maxType) = [a] := by simp [hle]
        rw [hkept]
        show _ = if a.type = type then some a else (ofList as maxType).get? type
        by_cases htype : a.type = type
        · rw [if_pos htype, if_pos ⟨htype, htype ▸ hle⟩]
        · rw [if_neg htype, if_neg (fun h => htype h.1)]
      · have hdropped : [a].filter (fun a => a.type ≤ maxType) = [] := by simp [hle]
        rw [hdropped, if_neg]
        · rfl
        · rintro ⟨rfl, h⟩
          exact hle h

theorem parse_latest (maxType : UInt16) (s : Attributes) :
    let skips : Policy := { maxType := some maxType, unsupported := .skip }
    let parsed := skips.parse latest (fun _ => none) s
    parsed.result = .ok .proceed ∧ parsed.state = (ofStream s maxType).get? := by
  intro skips parsed
  have hkept : s.records.filter (fun a => (skips.exceeded? a).isNone) =
      s.records.filter fun a => Attribute.type a ≤ maxType := by
    refine List.filter_congr fun a _ => ?_
    rw [Bool.eq_iff_iff, Option.isNone_iff_eq_none, Policy.exceeded?_eq_none_iff rfl,
      decide_eq_true_iff]
  have hfault : ∀ a ∈ s.records, skips.fault? a = none := fun _ _ => rfl
  have hproceed : ∀ found a, (latest found a).result = .proceed := fun _ _ => rfl
  obtain ⟨hresult, hstate⟩ := Policy.parseList_of_skipped rfl rfl hfault latest s.last.remaining
    fun _ => none
  obtain ⟨hproceeds, hlatest⟩ := Attributes.walkList_of_proceed hproceed (fun _ => none)
    (s.records.filter fun a => Attribute.type a ≤ maxType)
  rw [← Policy.parse_eq_of_records, hkept] at hresult hstate
  refine ⟨?_, ?_⟩
  · rw [← hproceeds]
    exact hresult
  · rw [ofStream, get?_ofList_eq_foldl, ← hlatest]
    exact hstate

/-- A table answers for a type up to its maximum with the last attribute of the type, for which the
flag bits count for nothing, and lists its answers in the order of the types, one for each. Its
maximum is what its number of places gives. Of a
message it is the table of the latest attributes that a parse shows which skips the types above the
maximum. -/
theorem ofList_indexes (as : List Attribute) (maxType : UInt16) (m : Message) (offset : UInt64) :
    let t := ofList as maxType
    let skips : Policy := { maxType := some maxType, unsupported := .skip }
    let parsed := skips.parse latest (fun _ => none) (.ofMessage m offset)
    (∀ type, t.get? type =
        if type ≤ maxType then
          (as.filter fun a => a.rawType &&& Attribute.typeMask == type).getLast?
        else none) ∧
      (∀ bs, List.Forall₂ Attribute.SameButFlags as bs →
        ∀ type, Option.Rel Attribute.SameButFlags (t.get? type) ((ofList bs maxType).get? type)) ∧
      (∀ type, t.contains type = (t.get? type).isSome) ∧ t.maxType = maxType ∧
      UInt16.ofNat (t.slots.toArray.size - 1) = maxType ∧
      (∀ a, a ∈ t.toList ↔ t.get? a.type = some a) ∧
      (t.toList.map Attribute.type).Pairwise (· < ·) ∧
      parsed.result = .ok .proceed ∧ (ofStream (.ofMessage m offset) maxType).get? = parsed.state ∧
      ofStream (.ofMessage m offset) maxType = ofLookup maxType parsed.state := by
  intro t skips parsed
  obtain ⟨hresult, hstate⟩ := parse_latest maxType (.ofMessage m offset)
  refine ⟨fun type => ?_, fun bs h type => (sameButFlags_ofList h maxType).2 type, fun _ => rfl,
    maxType_ofList as maxType, (ofNat_size_slots t).trans (maxType_ofList as maxType),
    fun _ => mem_toList_ofList, pairwise_toList_ofList as maxType, hresult, hstate.symm, ?_⟩
  · rw [List.getLast?_filter]
    exact get?_ofList as maxType type
  · apply ext_get?
    · exact maxType_ofList _ maxType
    · intro type hle
      have hmax : (ofStream (.ofMessage m offset) maxType).maxType = maxType := maxType_ofList _ _
      rw [hmax] at hle
      rw [get?_ofLookup hle, hstate]

/-- A type that repeats with other flags, and one above the maximum. -/
theorem ofList_indexes_repeated :
    let first : Attribute := ⟨[5, 0, 3, 0x80, 1], by decide, by decide⟩
    let second : Attribute := ⟨[4, 0, 1, 0], by decide, by decide⟩
    let last : Attribute := ⟨[6, 0, 3, 0x40, 2, 3], by decide, by decide⟩
    let plain : Attribute := ⟨[6, 0, 3, 0, 2, 3], by decide, by decide⟩
    let above : Attribute := ⟨[4, 0, 9, 0], by decide, by decide⟩
    let as := [first, second, last, above]
    let bs := [first, second, plain, above]
    List.Forall₂ Attribute.SameButFlags as bs ∧ (ofList as 4).get? 3 = some last ∧
      (ofList bs 4).get? 3 = some plain ∧
      Option.Rel Attribute.SameButFlags ((ofList as 4).get? 3) ((ofList bs 4).get? 3) ∧
      (ofList as 4).toList = [second, last] ∧ (ofList as 4).get? 9 = none := by
  intro first second last plain above as bs
  let m : Message := ⟨Header.encode { size := 16 }, by decide, by decide⟩
  obtain ⟨hget, hflags, _⟩ := ofList_indexes as 4 m 0
  have hsame (a : Attribute) : a.SameButFlags a := ⟨by simp, rfl⟩
  have hpairs : List.Forall₂ Attribute.SameButFlags as bs :=
    .cons (hsame _) (.cons (hsame _) (.cons ⟨by decide, rfl⟩ (.cons (hsame _) .nil)))
  refine ⟨hpairs, ?_, by decide, hflags bs hpairs 3, by decide, ?_⟩
  · rw [hget]
    decide
  · rw [hget]
    decide

end Table

end Netlink
