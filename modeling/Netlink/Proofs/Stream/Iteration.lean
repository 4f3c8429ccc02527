import Mathlib.Logic.Function.Iterate
import Netlink.Proofs.Stream

/-!
# Iterations over streams

An iteration asks a stream for one record after the other; where there is none, it stays. Its
states keep offset, count and bytes in step with the byte string that it began with, which `Within`
says. Main statements: `within_after`, and `getElem?_records`, by which the record that a step
finds is the one with the number of the step.
-/

namespace Netlink

theorem Record.first?_eq_none_iff {L : Layout} {bs : Bytes} :
    Record.first? (L := L) bs = none ↔
      L.declared bs < L.headerSize ∨ bs.length < L.declared bs := by
  rw [Record.first?]
  split
  · rename_i hcomplete
    have hfits := hcomplete.2
    rw [List.length_take] at hfits
    simp only [reduceCtorEq, false_iff]
    omega
  · rename_i hpartial
    rw [List.length_take] at hpartial
    simp only [true_iff]
    omega

namespace Stream

variable {L : Layout} {s t : Stream L} {r : Record L} {buffer : Bytes}

def advance (s : Stream L) : Stream L :=
  match s.next? with
  | some (_, t) => t
  | none => s

def after (s : Stream L) (n : Nat) : Stream L := advance^[n] s

theorem advance_of_first? (h : Record.first? s.rest = some r) : s.advance = s.skip r.span := by
  rw [advance, next?_of_first? h]

theorem advance_of_none (h : Record.first? (L := L) s.rest = none) : s.advance = s := by
  rw [advance, next?_of_none h]

@[simp] theorem after_zero (s : Stream L) : s.after 0 = s := rfl

theorem after_succ (s : Stream L) (n : Nat) : s.after (n + 1) = (s.after n).advance :=
  Function.iterate_succ_apply' advance n s

theorem after_succ' (s : Stream L) (n : Nat) : s.after (n + 1) = s.advance.after n :=
  Function.iterate_succ_apply advance n s

theorem after_of_none (h : Record.first? (L := L) s.rest = none) (n : Nat) : s.after n = s :=
  Function.iterate_fixed (advance_of_none h) n

theorem after_add (s : Stream L) (m n : Nat) : s.after (m + n) = (s.after m).after n := by
  rw [after, Nat.add_comm m n, Function.iterate_add_apply]
  rfl

theorem after_congr (hrest : s.rest = t.rest) (hcount : s.remaining = t.remaining) (n : Nat) :
    (s.after n).rest = (t.after n).rest ∧ (s.after n).remaining = (t.after n).remaining := by
  induction n with
  | zero => exact ⟨hrest, hcount⟩
  | succ n ih =>
      obtain ⟨hrests, hcounts⟩ := ih
      rw [after_succ, after_succ]
      cases hfirst : Record.first? (L := L) (s.after n).rest with
      | none =>
          rw [advance_of_none hfirst, advance_of_none (hrests ▸ hfirst)]
          exact ⟨hrests, hcounts⟩
      | some r =>
          rw [advance_of_first? hfirst, advance_of_first? (hrests ▸ hfirst)]
          constructor
          · rw [rest_skip, rest_skip, hrests]
          · rw [remaining_skip, remaining_skip, hcounts]

/-! ## States and the byte string -/

/-- `s` stands at a multiple of the boundary in `buffer`, at most its padding beyond the end. -/
structure Within (buffer : Bytes) (s : Stream L) : Prop where
  aligned : s.offset % 4 = 0
  rest : s.rest = buffer.drop s.offset
  total : s.offset + s.remaining = buffer.length
  offset_le : s.offset ≤ roundUp buffer.length

theorem within_ofBytes (buffer : Bytes) : Within buffer (ofBytes buffer : Stream L) where
  aligned := rfl
  rest := rfl
  total := Int.zero_add _
  offset_le := Nat.zero_le _

theorem Within.skip (h : Within buffer s) (hfirst : Record.first? s.rest = some r) :
    Within buffer (s.skip r.span) where
  aligned := by
    have haligned := h.aligned
    have hspan := r.span_mod
    show (s.offset + r.span) % 4 = 0
    omega
  rest := by
    show s.rest.drop r.span = buffer.drop (s.offset + r.span)
    rw [h.rest, List.drop_drop]
  total := by
    have htotal := h.total
    show ((s.offset + r.span : Nat) : Int) + (s.remaining - r.span) = buffer.length
    omega
  offset_le := by
    have hfits := Record.size_le_of_first? hfirst
    have haligned := h.aligned
    have hpos := r.size_pos
    rw [h.rest, List.length_drop] at hfits
    show s.offset + roundUp r.size ≤ roundUp buffer.length
    simp only [roundUp]
    omega

theorem Within.advance (h : Within buffer s) : Within buffer s.advance := by
  cases hfirst : Record.first? (L := L) s.rest with
  | none =>
      rw [advance_of_none hfirst]
      exact h
  | some r =>
      rw [advance_of_first? hfirst]
      exact h.skip hfirst

theorem within_after (buffer : Bytes) (n : Nat) :
    Within buffer ((ofBytes buffer : Stream L).after n) := by
  induction n with
  | zero => exact within_ofBytes buffer
  | succ n ih =>
      rw [after_succ]
      exact ih.advance

theorem Within.last (h : Within buffer s) : Within buffer s.last := by
  induction s using walk_induction with
  | stop s hnone =>
      rw [last_of_none hnone]
      exact h
  | step s r hfirst ih =>
      rw [last_of_first? hfirst]
      exact ih (h.skip hfirst)

/-- Where the record that comes next stands in the byte string, and when there is none. -/
theorem Within.first?_eq_some (h : Within buffer s) (hfirst : Record.first? s.rest = some r) :
    r.bytes = buffer.slice s.offset (L.declared s.rest) ∧ r.size = L.declared s.rest ∧
      L.headerSize ≤ L.declared s.rest ∧ s.offset + L.declared s.rest ≤ buffer.length := by
  obtain ⟨hheader, hfits, hbytes⟩ := Record.first?_eq_some_iff.mp hfirst
  have hpos := L.headerSize_pos
  have hlength : s.rest.length = buffer.length - s.offset := by
    rw [h.rest, List.length_drop]
  refine ⟨?_, ?_, hheader, by omega⟩
  · rw [hbytes, Bytes.slice, ← h.rest]
  · rw [Record.size, hbytes, List.length_take]
    exact Nat.min_eq_left hfits

theorem Within.first?_eq_none_iff (h : Within buffer s) :
    Record.first? (L := L) s.rest = none ↔
      buffer.length < s.offset + L.headerSize ∨ L.declared s.rest < L.headerSize ∨
        buffer.length < s.offset + L.declared s.rest := by
  have hpos := L.headerSize_pos
  have hlength : s.rest.length = buffer.length - s.offset := by
    rw [h.rest, List.length_drop]
  rw [Record.first?_eq_none_iff]
  omega

/-! ## Steps and records -/

theorem getElem?_records (s : Stream L) (n : Nat) :
    s.records[n]? = Record.first? (s.after n).rest := by
  induction n generalizing s with
  | zero =>
      cases hfirst : Record.first? (L := L) s.rest with
      | none => rw [records_of_none hfirst, after_zero, hfirst]; rfl
      | some r => rw [records_of_first? hfirst, after_zero, hfirst]; rfl
  | succ n ih =>
      rw [after_succ']
      cases hfirst : Record.first? (L := L) s.rest with
      | none =>
          rw [advance_of_none hfirst, after_of_none hfirst, records_of_none hfirst, hfirst]
          rfl
      | some r =>
          rw [advance_of_first? hfirst, records_of_first? hfirst, List.getElem?_cons_succ]
          exact ih (s.skip r.span)

theorem records_after (s : Stream L) (n : Nat) : (s.after n).records = s.records.drop n := by
  apply List.ext_getElem?
  intro i
  rw [List.getElem?_drop, getElem?_records, getElem?_records, after_add]

theorem length_records_le (s : Stream L) :
    L.headerSize * s.records.length ≤ s.rest.length := by
  induction s using walk_induction with
  | stop s hnone =>
      rw [records_of_none hnone]
      exact Nat.zero_le _
  | step s r hfirst ih =>
      have hheader : L.headerSize ≤ r.size := r.headerSize_le
      have hspan := le_roundUp r.size
      have hfits := Record.size_le_of_first? hfirst
      have hrest : (s.skip r.span).rest.length ≤ s.rest.length - r.size := by
        show (s.rest.drop (roundUp r.size)).length ≤ s.rest.length - r.size
        rw [List.length_drop]
        omega
      rw [records_of_first? hfirst, List.length_cons, Nat.mul_succ]
      omega

end Stream

end Netlink
