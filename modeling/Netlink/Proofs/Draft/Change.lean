import Netlink.Proofs.Draft.Stored

/-!
# Changes that are refused

Every change of a draft as callers can make it, with words and nests of any origin, on the draft and
in storage. Main statement: `perform_iff_refused`, by which a change has an answer in every state,
is refused exactly where its sizes and offsets do not fit, and then leaves all as it was.
-/

namespace Netlink

/-- One change of a draft, with the words and byte strings that the caller gives. -/
inductive Change where
  | extend (count : UInt64)
  | patch (offset : UInt64) (data : Bytes)
  | truncate (count : UInt64)
  | put (leaf : Leaf)
  | nestStart (type : UInt16)
  | nestEnd (nest : Nest)
  | nestCancel (nest : Nest)

def Nest.Issued (nest : Nest) : Prop :=
  ∃ (d e : Draft) (type : UInt16), d.nestStart type = .ok (nest, e)

theorem Nest.Issued.offset_lt {nest : Nest} (h : nest.Issued) : nest.offset < 2 ^ 32 := by
  obtain ⟨d, e, type, hstart⟩ := h
  rw [(Draft.nestStart_ok hstart).2.1]
  exact d.size_lt

namespace Change

/-- What callers can give: byte strings that memory holds, and nests that were opened. -/
def Possible : Change → Prop
  | patch _ data => data.length < 2 ^ 63
  | put leaf => leaf.InMemory
  | nestEnd nest | nestCancel nest => nest.Issued
  | _ => True

def apply (d : Draft) : Change → Except AttributeError Draft
  | extend count => ((d.extend count).map Prod.snd).mapError .draft
  | patch offset data => (d.patch offset.toNat data).mapError .draft
  | truncate count => (d.truncate count.toNat).mapError .draft
  | put leaf => leaf.appendTo d
  | nestStart type => (d.nestStart type).map Prod.snd
  | nestEnd nest => d.nestEnd nest
  | nestCancel nest => d.nestCancel nest

def perform (s : Storage) : Change → Storage.Answer AttributeError Unit
  | extend count => (s.extend? count).map fun (result, s) =>
    ((result.map fun _ => ()).mapError .draft, s)
  | patch offset data => (s.patch? offset data).map fun (result, s) => (result.mapError .draft, s)
  | truncate count => (s.truncate? count).map fun (result, s) => (result.mapError .draft, s)
  | put leaf => s.append? leaf
  | nestStart type => (s.nestStart? type).map fun (result, s) => (result.map fun _ => (), s)
  | nestEnd nest => s.nestEnd? nest.type (.ofNat nest.offset)
  | nestCancel nest => s.nestCancel? (.ofNat nest.offset)

def showings : Change → List Bytes
  | put leaf => [Bytes.zeros leaf.payload.length]
  | extend _ | patch _ _ | truncate _ | nestStart _ | nestEnd _ | nestCancel _ => []

def Refused (d : Draft) : Change → Prop
  | extend count => 2 ^ 32 - 1 < (addSat (.ofNat d.size) (align count)).toNat
  | patch offset data => d.size < offset.toNat + data.length
  | truncate count => count.toNat < 16 ∨ d.size < count.toNat ∨ count.toNat % 4 ≠ 0
  | put leaf =>
    65535 < 4 + leaf.payload.length ∨ 2 ^ 32 - 1 < d.size + roundUp (4 + leaf.payload.length)
  | nestStart _ => 2 ^ 32 - 1 < d.size + 4
  | nestEnd nest => d.size < nest.offset + 4 ∨ 65535 < d.size - nest.offset
  | nestCancel nest => d.size < nest.offset

theorem isOk_apply (change : Change) (d : Draft) :
    (change.apply d).isOk = true ↔ ¬change.Refused d := by
  cases change with
  | extend count =>
      have hsum := toNat_addSat (.ofNat d.size) (align count)
      rw [Storage.toNat_size] at hsum
      rw [apply, isOk_mapError, isOk_map, Draft.isOk_extend, Refused, hsum, Draft.maxSize]
      omega
  | patch offset data =>
      rw [apply, isOk_mapError, Draft.isOk_patch, Refused, Nat.not_lt]
  | truncate count =>
      rw [apply, isOk_mapError, Draft.isOk_truncate, Refused]
      omega
  | put leaf =>
      rw [apply, Leaf.isOk_appendTo, Refused, Draft.maxAttributeSize, Draft.maxSize]
      omega
  | nestStart type =>
      rw [apply, isOk_map, Draft.isOk_nestStart, Refused, Draft.maxSize]
      omega
  | nestEnd nest =>
      rw [apply, Draft.isOk_nestEnd, Refused, Draft.maxAttributeSize]
      omega
  | nestCancel nest =>
      rw [apply, Draft.isOk_nestCancel, Refused, Nat.not_lt]

/-- Storage makes the change that the draft makes, and no step of it leaves its range. -/
theorem perform_of {d : Draft} (hd : d.buffer.length < 2 ^ 63) {change : Change}
    (hchange : change.Possible) (shown : List Bytes) :
    change.perform (.of d shown) =
      some (Storage.outcome (.of d shown) (shown ++ change.showings) (change.apply d)) := by
  cases change with
  | extend count =>
      rw [perform, apply, showings, List.append_nil]
      cases hextend : d.extend count with
      | error cause =>
          rw [Storage.extend?_of_error hd hextend]
          rfl
      | ok extended =>
          rw [Storage.extend?_of_ok hd hextend]
          rfl
  | patch offset data =>
      rw [perform, apply, showings, List.append_nil, Storage.patch?_of hd offset hchange]
      cases d.patch offset.toNat data <;> rfl
  | truncate count =>
      rw [perform, apply, showings, List.append_nil, Storage.truncate?_of hd count]
      cases d.truncate count.toNat <;> rfl
  | put leaf => exact Storage.append?_of hd hchange
  | nestStart type =>
      rw [perform, apply, showings, List.append_nil]
      cases hstart : d.nestStart type with
      | error cause =>
          rw [Storage.nestStart?_of_error hd hstart]
          rfl
      | ok started =>
          rw [Storage.nestStart?_of_ok hd hstart]
          rfl
  | nestEnd nest =>
      rw [showings, List.append_nil]
      exact Storage.nestEnd?_of hd hchange.offset_lt
  | nestCancel nest =>
      rw [showings, List.append_nil]
      exact Storage.nestCancel?_of hd hchange.offset_lt

/-- A change has an answer in every state: no index, sum or difference leaves its range. It is
refused exactly where its sizes and offsets do not fit; buffer and start are then as they were and
no fill callback was called. Otherwise storage holds the changed draft. -/
theorem perform_iff_refused {d : Draft} (hd : d.buffer.length < 2 ^ 63) {change : Change}
    (hchange : change.Possible) (shown : List Bytes) :
    let before := Storage.of d shown
    (change.Refused d → ∃ cause, change.apply d = .error cause ∧
        change.perform before = some (.error cause, before)) ∧
      (¬change.Refused d → ∃ e, change.apply d = .ok e ∧
        change.perform before = some (.ok (), .of e (shown ++ change.showings))) := by
  intro before
  have hok := change.isOk_apply d
  have hperform := perform_of hd hchange shown
  cases happly : change.apply d with
  | error cause =>
      rw [happly] at hok hperform
      simp only [isOk_error, Bool.false_eq_true, false_iff, Classical.not_not] at hok
      exact ⟨fun _ => ⟨cause, rfl, hperform⟩, fun hfits => absurd hok hfits⟩
  | ok e =>
      rw [happly] at hok hperform
      simp only [isOk_ok, true_iff] at hok
      exact ⟨fun hrefused => absurd hrefused hok, fun _ => ⟨e, rfl, hperform⟩⟩

/-- A nest of a longer draft, whose place a new draft behind three bytes does not have. -/
theorem perform_iff_refused_foreign :
    let d := Draft.start [1, 2, 3]
    let nest : Nest := ⟨7, 20, by decide, by decide⟩
    nest.Issued ∧ d.buffer.length < 2 ^ 63 ∧ (nestCancel nest).Refused d ∧
      (nestCancel nest).perform (.of d [[5]]) =
        some (.error (.draft (.outOfRange 20 16)), .of d [[5]]) := by
  intro d nest
  have hissued : (nestCancel nest).Possible :=
    ⟨(Draft.start []).grow 4 (by decide) (by decide), _, 7, rfl⟩
  have hbuffer : d.buffer.length < 2 ^ 63 := by decide
  have hrefused : (nestCancel nest).Refused d := by
    show d.size < 20
    decide
  obtain ⟨cause, happly, hperform⟩ :=
    (perform_iff_refused hbuffer hissued [[5]]).1 hrefused
  cases happly
  exact ⟨hissued, hbuffer, hrefused, hperform⟩

end Change

end Netlink
