import Netlink.Message
import Netlink.Proofs.Stream.Cursor

/-!
# Framing of arbitrary bytes

What an iteration over messages does on any buffer. `Framed` says of one state where it stands,
which message comes next and when there is none; it mentions nothing but the buffer, the offset and
the count of bytes left. Main statement: `iteration_framed`, for every state of every iteration.
-/

namespace Netlink

namespace Messages

def after (buffer : Bytes) (n : Nat) : Messages :=
  (fun s : Messages => s.next.state)^[n] (.ofBytes buffer)

def declaredAt (buffer : Bytes) (offset : Nat) : Nat := Bytes.decodeLE (buffer.slice offset 4)

/-- A state of an iteration over `buffer`, and what the next call does there. -/
structure Framed (buffer : Bytes) (s : Messages) : Prop where
  aligned : s.offset % 4 = 0
  total : s.offset + s.remaining = buffer.length
  remaining_ge : -3 ≤ s.remaining
  /-- The message is the bytes of the declared length, the next one starts behind its padding. -/
  found : ∀ m, s.next.result = some m →
    let size := declaredAt buffer s.offset
    m.bytes = buffer.slice s.offset size ∧ 16 ≤ size ∧ s.offset + size ≤ buffer.length ∧
      s.next.state.offset = s.offset + (align (.ofNat size)).toNat
  ended : s.next.result = none ↔
    buffer.length < s.offset + 16 ∨ declaredAt buffer s.offset < 16 ∨
      buffer.length < s.offset + declaredAt buffer s.offset

theorem next_result (s : Messages) : s.next.result = Record.first? s.rest := by
  cases hfirst : Record.first? (L := .message) s.rest with
  | none => rw [next, Stream.next?_of_none hfirst]
  | some m => rw [next, Stream.next?_of_first? hfirst]

theorem next_state (s : Messages) : s.next.state = Stream.advance s := by
  rw [next, Stream.advance]
  cases Stream.next? s <;> rfl

theorem after_eq (buffer : Bytes) (n : Nat) :
    after buffer n = Stream.after (.ofBytes buffer) n := by
  have hstep : (fun s : Messages => s.next.state) = Stream.advance := funext next_state
  rw [after, hstep]
  rfl

theorem next_result_after (buffer : Bytes) (n : Nat) :
    (after buffer n).next.result = (Stream.ofBytes buffer : Messages).records[n]? := by
  rw [next_result, Stream.getElem?_records, after_eq]

theorem framed_of_within {buffer : Bytes} {s : Messages} (h : Stream.Within buffer s) :
    Framed buffer s where
  aligned := h.aligned
  total := h.total
  remaining_ge := by
    have htotal := h.total
    have hle := h.offset_le
    have hlt := roundUp_lt buffer.length
    omega
  found := by
    intro m hm size
    rw [next_result] at hm
    have hsize : Layout.message.declared s.rest = size := by
      rw [h.rest]
      rfl
    obtain ⟨hbytes, hown, hheader, hfits⟩ := h.first?_eq_some hm
    rw [hsize] at hbytes hown hheader hfits
    refine ⟨hbytes, hheader, hfits, ?_⟩
    have hlt : size < 2 ^ 32 := by
      rw [← hown]
      exact m.size_lt
    have hspan : (align (.ofNat size)).toNat = m.span := by
      rw [toNat_align_ofNat (by omega), Record.span, hown]
    rw [next_state, Stream.advance_of_first? hm, hspan]
    rfl
  ended := by
    have hsize : Layout.message.declared s.rest = declaredAt buffer s.offset := by
      rw [h.rest]
      rfl
    rw [next_result, h.first?_eq_none_iff, hsize]

theorem length_records_ofBytes_le (buffer : Bytes) :
    (Stream.ofBytes buffer : Messages).records.length ≤ buffer.length / 16 := by
  have hle := Stream.length_records_le (Stream.ofBytes buffer : Messages)
  have hcount : 16 * (Stream.ofBytes buffer : Messages).records.length ≤ buffer.length := hle
  omega

theorem after_add_of_none {buffer : Bytes} {n : Nat}
    (h : (after buffer n).next.result = none) (k : Nat) :
    after buffer (n + k) = after buffer n := by
  rw [next_result, after_eq] at h
  rw [after_eq, after_eq, Stream.after_add, Stream.after_of_none h]

/-- Every iteration finds at most one message for sixteen bytes, is framed in every state, and once
it found none it stays. In words, where the length of the buffer is a signed word, it finds the
same messages at the same offsets with the same counts. -/
theorem iteration_framed (buffer : Bytes) :
    let messages := (Stream.ofBytes buffer : Messages).records
    messages.length ≤ buffer.length / 16 ∧
      (after buffer 0).offset = 0 ∧
      (∀ n, Framed buffer (after buffer n) ∧ (after buffer n).next.result = messages[n]?) ∧
      (∀ n, (after buffer n).next.result = none → ∀ k,
        (after buffer (n + k)).next.result = none ∧ after buffer (n + k) = after buffer n) ∧
      (buffer.length < 2 ^ 63 → ∀ n,
        let cursor := (Cursor.ofBytes buffer : Cursor .message).after n
        cursor.found = messages[n]? ∧
          cursor.position.offset.toNat = (after buffer n).offset ∧
          cursor.remaining.toInt = (after buffer n).remaining) := by
  intro messages
  refine ⟨length_records_ofBytes_le buffer, rfl, fun n => ?_, fun n hnone k => ?_,
    fun hbuffer n => ?_⟩
  · refine ⟨?_, next_result_after buffer n⟩
    rw [after_eq]
    exact framed_of_within (Stream.within_after buffer n)
  · have hstays := after_add_of_none hnone k
    exact ⟨by rw [hstays]; exact hnone, hstays⟩
  · have hagrees := Cursor.agrees_after (L := .message) hbuffer n
    have hresult := next_result_after buffer n
    rw [next_result] at hresult
    rw [after_eq] at hresult ⊢
    exact ⟨(hagrees.found_eq hbuffer).trans hresult, hagrees.offset, hagrees.remaining⟩

/-- Two messages, the second without its padding: the iteration ends two bytes behind the buffer
and stays there. -/
theorem iteration_framed_unpadded :
    let buffer := Header.encode { size := 17 } ++ [7, 0, 0, 0] ++ Header.encode { size := 18 } ++
      [8, 9]
    let cursor := (Cursor.ofBytes buffer : Cursor .message).after 2
    (after buffer 2).next.result = none ∧ after buffer (2 + 3) = after buffer 2 ∧
      buffer.length < 2 ^ 63 ∧ cursor.found = none ∧ cursor.position.offset.toNat = 40 ∧
      cursor.remaining.toInt = -2 := by
  intro buffer cursor
  obtain ⟨_, _, hsteps, hstays, hwords⟩ := iteration_framed buffer
  have hnone : (after buffer 2).next.result = none := by decide +kernel
  have hlength : buffer.length < 2 ^ 63 := by decide
  obtain ⟨hfound, hoffset, hremaining⟩ := hwords hlength 2
  refine ⟨hnone, (hstays 2 hnone 3).2, hlength, ?_, ?_, ?_⟩
  · exact hfound.trans ((hsteps 2).2.symm.trans hnone)
  · exact hoffset.trans (by decide +kernel)
  · exact hremaining.trans (by decide +kernel)

end Messages

end Netlink
