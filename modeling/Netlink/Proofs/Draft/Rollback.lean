import Netlink.Proofs.Attribute.Writing
import Netlink.Proofs.Draft.Edit
import Netlink.Proofs.Draft.Refusal

/-!
# Dropping a nest

Between opening a nest and dropping it, a caller appends, cuts the draft back as far as the nest and
closes or drops nests that were opened meanwhile, some of which may have been cut off. Main
statement: `nestCancel_after`, by which none of this leaves a trace: the nest can be dropped in the
end, and the draft is the one on which it was opened.
-/

namespace Netlink

/-! ## Edits behind a place -/

namespace Edit

def opened (d : Draft) : Edit → List Nest
  | nestStart type =>
    match d.nestStart type with
    | .ok (nest, _) => [nest]
    | .error _ => []
  | _ => []

theorem nestStart_of_ok {d e : Draft} {type : UInt16} {nest : Nest}
    (h : d.nestStart type = .ok (nest, e)) :
    (nestStart type).opened d = [nest] ∧ ((nestStart type).apply d).1 = e := by
  constructor
  · simp only [opened, h]
  · simp only [apply, h]
    rfl

theorem nestStart_of_error {d : Draft} {type : UInt16} {refusal : AttributeError}
    (h : d.nestStart type = .error refusal) :
    (nestStart type).opened d = [] ∧ ((nestStart type).apply d).1 = d := by
  constructor
  · simp only [opened, h]
  · simp only [apply, h]
    rfl

/-- The edit appends, cuts the draft to `floor` bytes or more, or closes or drops one of `nests`. -/
def Behind (floor : Nat) (nests : List Nest) : Edit → Prop
  | extend _ _ | put _ | nestStart _ => True
  | truncate count => floor ≤ count
  | nestEnd nest | nestCancel nest => nest ∈ nests
  | setType _ | setFlags _ | setSeq _ | setPort _ | patch _ _ | write _ _ | putReport _
  | putExtendedAck _ => False

instance (floor : Nat) (nests : List Nest) : (edit : Edit) → Decidable (edit.Behind floor nests)
  | extend _ _ | put _ | nestStart _ => inferInstanceAs (Decidable True)
  | truncate count => inferInstanceAs (Decidable (floor ≤ count))
  | nestEnd nest | nestCancel nest => inferInstanceAs (Decidable (nest ∈ nests))
  | setType _ | setFlags _ | setSeq _ | setPort _ | patch _ _ | write _ _ | putReport _
  | putExtendedAck _ => inferInstanceAs (Decidable False)

end Edit

namespace Draft

/-- Each of the edits stays behind `floor`. Nests may be closed and dropped in any order and any
number of times, once they were opened. -/
def EditsBehind (floor : Nat) (d : Draft) (nests : List Nest) : List Edit → Prop
  | [] => True
  | edit :: later =>
    edit.Behind floor nests ∧ (edit.apply d).1.EditsBehind floor (edit.opened d ++ nests) later

instance decidableEditsBehind (floor : Nat) (d : Draft) (nests : List Nest) :
    (edits : List Edit) → Decidable (d.EditsBehind floor nests edits)
  | [] => inferInstanceAs (Decidable True)
  | edit :: later =>
    have := decidableEditsBehind floor (edit.apply d).1 (edit.opened d ++ nests) later
    inferInstanceAs (Decidable (edit.Behind floor nests ∧ _))

variable {d e f : Draft}

/-! ## Changes behind a draft -/

theorem Appended.write_behind {back : Bytes} (h : Appended d back e) {offset : Nat}
    (hoffset : d.size ≤ offset) (data : Bytes) :
    Appended d (back.overwrite (offset - d.size) data) (e.write offset data) := by
  have hsize := d.size_eq
  have hheader : 16 ≤ offset := by omega
  have hplace : offset - 16 - d.payload.length = offset - d.size := by omega
  refine ⟨h.before, ?_, ?_⟩
  · rw [header_write e hheader, size_write]
    exact h.header
  · rw [payload_write e hheader, h.payload, Bytes.overwrite_append_of_length_le (by omega), hplace]

theorem Appended.truncate_behind {back : Bytes} (h : Appended d back e) {count : Nat}
    (hcount : d.size ≤ count) (hf : e.truncate count = .ok f) :
    Appended d (back.take (count - d.size)) f := by
  have hfits := truncate_fits hf
  have hsize := h.size
  rw [← List.take_append_drop (count - d.size) back] at h
  apply h.truncate _ hf
  rw [List.length_take]
  omega

theorem Appended.eq_of_nil (hd : d.Synced) (h : Appended d [] e) : e = d := by
  have hsize : e.size = d.size := h.size
  have hheader : e.header = d.header := by
    rw [h.header, hsize, ← hd.header_size]
  have hpayload : e.payload = d.payload := by
    rw [h.payload, List.append_nil]
  apply Draft.ext h.before
  rw [e.bytes_eq, d.bytes_eq, hheader, hpayload]

/-- `e` is `d` with bytes appended, and the nests start behind `d`, if not beyond the end of `e`. -/
structure Kept (d : Draft) (nests : List Nest) (e : Draft) : Prop where
  appended : ∃ back, Appended d back e
  size_le_offset : ∀ nest ∈ nests, d.size ≤ nest.offset

variable {nests : List Nest}

theorem Kept.attempt {ε : Type} {cause : ε → DispatchError} {result : Except ε Draft}
    (h : Kept d nests e) (hok : ∀ f, result = .ok f → ∃ back, Appended d back f) :
    Kept d nests (e.attempt cause result).1 :=
  attempt_of h fun f hf => ⟨hok f hf, h.size_le_offset⟩

theorem Kept.append (h : Kept d nests e) {data : Bytes} (hf : Appended e data f) :
    ∃ back, Appended d back f := by
  obtain ⟨back, happended⟩ := h.appended
  exact ⟨_, happended.trans hf⟩

theorem Kept.truncate (h : Kept d nests e) {count : Nat} (hcount : d.size ≤ count)
    (hf : e.truncate count = .ok f) : ∃ back, Appended d back f := by
  obtain ⟨back, happended⟩ := h.appended
  exact ⟨_, happended.truncate_behind hcount hf⟩

theorem Kept.size_le (h : Kept d nests e) : d.size ≤ e.size := by
  obtain ⟨back, happended⟩ := h.appended
  rw [happended.size]
  exact Nat.le_add_right _ _

theorem Kept.nestStart (h : Kept d nests e) (type : UInt16) :
    Kept d ((Edit.nestStart type).opened e ++ nests) ((Edit.nestStart type).apply e).1 := by
  cases hstart : e.nestStart type with
  | error refusal =>
      obtain ⟨hopened, hleft⟩ := Edit.nestStart_of_error hstart
      rw [hopened, hleft]
      exact h
  | ok started =>
      obtain ⟨nest, f⟩ := started
      obtain ⟨hopened, hleft⟩ := Edit.nestStart_of_ok hstart
      obtain ⟨_, hoffset, happended⟩ := nestStart_ok hstart
      rw [hopened, hleft]
      refine ⟨h.append happended, ?_⟩
      intro other hother
      rcases List.mem_cons.mp hother with rfl | hother
      · exact hoffset ▸ h.size_le
      · exact h.size_le_offset other hother

/-- What one edit preserves. -/
theorem Kept.apply (h : Kept d nests e) {edit : Edit} (hedit : edit.Behind d.size nests) :
    Kept d (edit.opened e ++ nests) (edit.apply e).1 := by
  cases edit with
  | nestStart type => exact h.nestStart type
  | extend count data =>
      apply h.attempt
      intro f hf
      obtain ⟨_, _, happended⟩ := extend_fill_ok hf
      exact h.append happended
  | put leaf => exact h.attempt fun f hf => h.append (Leaf.appendTo_ok hf).2
  | truncate count => exact h.attempt fun f hf => h.truncate hedit hf
  | nestEnd nest =>
      apply h.attempt
      intro f hf
      obtain ⟨back, happended⟩ := h.appended
      obtain ⟨_, _, rfl⟩ := nestEnd_ok hf
      exact ⟨_, happended.write_behind (h.size_le_offset nest hedit) _⟩
  | nestCancel nest =>
      apply h.attempt
      intro f hf
      exact h.truncate (h.size_le_offset nest hedit) (nestCancel_ok hf)
  | _ => exact hedit.elim

theorem Kept.after {edits : List Edit} (h : Kept d nests e)
    (hedits : e.EditsBehind d.size nests edits) : ∃ later, Kept d later (e.after edits) := by
  induction edits generalizing e nests with
  | nil => exact ⟨nests, h⟩
  | cons edit edits ih => exact ih (h.apply hedits.1) hedits.2

/-- A nest that was opened on `d` can be dropped after any edits behind its place, and `d` is what
is left. -/
theorem nestCancel_after (hd : d.Synced) {type : UInt16} {nest : Nest}
    (hstart : d.nestStart type = .ok (nest, e)) {edits : List Edit}
    (hedits : e.EditsBehind nest.offset [] edits) :
    (e.after edits).nestCancel nest = .ok d := by
  obtain ⟨_, hoffset, hopened⟩ := nestStart_ok hstart
  rw [hoffset] at hedits
  have hkept : Kept d [] e := ⟨⟨_, hopened⟩, List.forall_mem_nil _⟩
  obtain ⟨later, hlater⟩ := hkept.after hedits
  have hreach : nest.offset ≤ (e.after edits).size := hoffset ▸ hlater.size_le
  obtain ⟨f, hf⟩ := nestCancel_of_le hreach
  obtain ⟨back, happended⟩ := hlater.appended
  have hcut := happended.truncate_behind (Nat.le_of_eq hoffset.symm) (nestCancel_ok hf)
  rw [hoffset, Nat.sub_self, List.take_zero] at hcut
  rw [hf, hcut.eq_of_nil hd]

/-- The nest at 40 is cut off while it is open: closing it is refused, and later it is dropped
where other bytes end. One append is too large. -/
theorem nestCancel_after_cut :
    let d := (start [7]).after [.setType 16, .put (.u8 3 1)]
    let e := d.after [.nestStart 1]
    let nest : Nest := ⟨1, 24, by decide, by decide⟩
    let inner : Nest := ⟨2, 28, by decide, by decide⟩
    let lost : Nest := ⟨4, 40, by decide, by decide⟩
    let edits : List Edit := [.nestStart 2, .put (.u16 3 5), .nestStart 4, .truncate 32,
      .nestEnd lost, .extend (-1) [], .put (.text 3 "a"), .nestCancel lost, .nestEnd inner]
    d.Synced ∧ d.nestStart 1 = .ok (nest, e) ∧ e.EditsBehind 24 [] edits ∧
      (e.after edits).size = 40 ∧ (e.after edits).nestCancel nest = .ok d := by
  intro d e nest inner lost edits
  have hd : d.Synced := by
    show d.header.size.toNat = d.size
    decide +kernel
  have hstart : d.nestStart 1 = .ok (nest, e) := rfl
  have hedits : e.EditsBehind 24 [] edits := by decide +kernel
  exact ⟨hd, hstart, hedits, by decide +kernel, nestCancel_after hd hstart hedits⟩

end Draft

end Netlink
