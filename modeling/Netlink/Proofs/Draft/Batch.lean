import Netlink.Proofs.Draft.Edit
import Netlink.Proofs.Stream

/-!
# Batches of messages

Several drafts made one after another in one buffer. The drafts are written by their sizes and
padding alone, and the stream of the buffer is read by the declared lengths alone; main statement:
`records_batch`, by which the reader finds the messages that were there before and then the drafts.
-/

namespace Netlink

/-- The drafts that stand behind `buffer` one after another, each made by its list of edits. -/
def batch (buffer : Bytes) : List (List Edit) → List Draft
  | [] => []
  | edits :: later =>
    let d := (Session.run buffer (edits.map .edit)).draft
    d :: batch d.buffer later

def batchBuffer (buffer : Bytes) (batches : List (List Edit)) : Bytes :=
  ((batch buffer batches).getLast?.map Draft.buffer).getD buffer

namespace Draft

theorem span_toMessage {d : Draft} (hd : d.Synced) : (d.toMessage hd).span = d.size :=
  roundUp_of_mod d.aligned

theorem records_bytes {d : Draft} (hd : d.Synced) :
    (Stream.ofBytes d.bytes : Messages).records = [d.toMessage hd] ∧
      (Stream.ofBytes d.bytes : Messages).last.remaining = 0 := by
  have hfirst : Record.first? (Stream.ofBytes d.bytes : Messages).rest = some (d.toMessage hd) :=
    d.message?_eq hd
  have hend : ((Stream.ofBytes d.bytes : Messages).skip (d.toMessage hd).span).rest = [] := by
    rw [Stream.rest_skip, span_toMessage]
    exact List.drop_length
  have hnone : Record.first? (L := .message)
      ((Stream.ofBytes d.bytes : Messages).skip (d.toMessage hd).span).rest = none := by
    rw [hend]
    exact Record.first?_eq_none_of_length_lt (by decide)
  constructor
  · rw [Stream.records_of_first? hfirst, Stream.records_of_none hnone]
  · rw [Stream.last_of_first? hfirst, Stream.last_of_none hnone, Stream.remaining_skip,
      span_toMessage]
    exact Int.sub_self _

/-- A draft adds its message to those of a buffer that was read to its end. -/
theorem records_buffer {d : Draft} (hd : d.Synced) {buffer : Bytes}
    (hbefore : d.before = buffer.padded)
    (hclean : (Stream.ofBytes buffer : Messages).last.remaining ≤ 0) :
    (Stream.ofBytes d.buffer : Messages).records =
        (Stream.ofBytes buffer : Messages).records ++ [d.toMessage hd] ∧
      (Stream.ofBytes d.buffer : Messages).last.remaining = 0 := by
  obtain ⟨hrecords, hremaining⟩ := records_bytes hd
  have hrest : (Stream.ofBytes d.buffer : Messages).rest =
      (Stream.ofBytes buffer : Messages).rest.padded ++ d.bytes := by
    show d.before ++ d.bytes = buffer.padded ++ d.bytes
    rw [hbefore]
  constructor
  · rw [Stream.records_padded_append hclean hrest, hrecords]
  · have hlast := Stream.last_remaining_padded_append hclean hrest
    rw [hremaining] at hlast
    have hstart : (Stream.ofBytes d.buffer : Messages).remaining =
        (Stream.ofBytes d.buffer : Messages).rest.length := rfl
    omega

end Draft

theorem before_run (buffer : Bytes) (edits : List Edit) :
    (Session.run buffer (edits.map .edit)).draft.before = buffer.padded :=
  Session.before_foldl_edit (Session.tracked_start buffer) edits

theorem batchBuffer_nil (buffer : Bytes) : batchBuffer buffer [] = buffer := rfl

theorem batchBuffer_cons (buffer : Bytes) (edits : List Edit) (later : List (List Edit)) :
    batchBuffer buffer (edits :: later) =
      batchBuffer (Session.run buffer (edits.map .edit)).draft.buffer later := by
  rw [batchBuffer, batchBuffer, batch]
  cases hlater : batch (Session.run buffer (edits.map .edit)).draft.buffer later with
  | nil => rfl
  | cons d ds => rw [List.getLast?_cons_cons, List.getLast?_cons]; rfl

theorem batch_append (buffer : Bytes) (first second : List (List Edit)) :
    batch buffer (first ++ second) =
      batch buffer first ++ batch (batchBuffer buffer first) second := by
  induction first generalizing buffer with
  | nil => rfl
  | cons edits first ih =>
      rw [List.cons_append, batch, ih, batchBuffer_cons]
      rfl

theorem batchBuffer_append (buffer : Bytes) (first second : List (List Edit)) :
    batchBuffer buffer (first ++ second) = batchBuffer (batchBuffer buffer first) second := by
  induction first generalizing buffer with
  | nil => rfl
  | cons edits first ih => rw [List.cons_append, batchBuffer_cons, ih, batchBuffer_cons]

theorem map_bytes_batchBuffer {buffer : Bytes}
    (hclean : (Stream.ofBytes buffer : Messages).last.remaining ≤ 0) (edits : List Edit)
    (later : List (List Edit)) :
    (Stream.ofBytes (batchBuffer buffer (edits :: later)) : Messages).records.map Record.bytes =
        (Stream.ofBytes buffer : Messages).records.map Record.bytes ++
          (batch buffer (edits :: later)).map Draft.bytes ∧
      (Stream.ofBytes (batchBuffer buffer (edits :: later)) : Messages).last.remaining = 0 := by
  induction later generalizing buffer edits with
  | nil =>
      have hd := (Session.tracked_run buffer (edits.map .edit)).synced
      obtain ⟨hrecords, hremaining⟩ := Draft.records_buffer hd (before_run buffer edits) hclean
      refine ⟨?_, by rw [batchBuffer_cons, batchBuffer_nil]; exact hremaining⟩
      rw [batchBuffer_cons, batchBuffer_nil, hrecords, List.map_append]
      rfl
  | cons next later ih =>
      have hd := (Session.tracked_run buffer (edits.map .edit)).synced
      obtain ⟨hrecords, hremaining⟩ := Draft.records_buffer hd (before_run buffer edits) hclean
      obtain ⟨hlater, hend⟩ := ih (Int.le_of_eq hremaining) next
      rw [batchBuffer_cons]
      refine ⟨?_, hend⟩
      rw [hlater, hrecords, batch, List.map_append, List.append_assoc]
      rfl

theorem map_bytes_batch (batches : List (List Edit)) :
    (Stream.ofBytes (batchBuffer [] batches) : Messages).records.map Record.bytes =
        (batch [] batches).map Draft.bytes ∧
      (Stream.ofBytes (batchBuffer [] batches) : Messages).last.remaining = 0 := by
  have hnone : Record.first? (L := .message) (Stream.ofBytes [] : Messages).rest = none :=
    Record.first?_of_nil rfl
  have hrecords := Stream.records_of_none hnone
  have hremaining : (Stream.ofBytes [] : Messages).last.remaining = 0 := by
    rw [Stream.last_of_none hnone]
    rfl
  cases batches with
  | nil => exact ⟨congrArg (List.map Record.bytes) hrecords, hremaining⟩
  | cons edits later =>
      obtain ⟨hbytes, hend⟩ := map_bytes_batchBuffer (Int.le_of_eq hremaining) edits later
      rw [hrecords] at hbytes
      exact ⟨hbytes, hend⟩

theorem records_draft_append {buffer : Bytes}
    (hclean : (Stream.ofBytes buffer : Messages).last.remaining = 0) (edits : List Edit)
    (tail : Bytes) :
    ∃ m : Message, m.bytes = (Session.run buffer (edits.map .edit)).draft.bytes ∧
      (Stream.ofBytes ((Session.run buffer (edits.map .edit)).draft.buffer ++ tail) :
          Messages).records =
        (Stream.ofBytes buffer : Messages).records ++
          m :: (Stream.ofBytes tail : Messages).records := by
  have htracked := Session.tracked_run buffer (edits.map .edit)
  let d := (Session.run buffer (edits.map .edit)).draft
  obtain ⟨hrecords, hend⟩ := Draft.records_buffer htracked.synced (before_run buffer edits)
    (Int.le_of_eq hclean)
  have hpadded : (Stream.ofBytes (d.buffer ++ tail) : Messages).rest =
      (Stream.ofBytes d.buffer : Messages).rest.padded ++ tail := by
    show d.buffer ++ tail = d.buffer.padded ++ tail
    rw [Bytes.padded_of_mod htracked.consistent.buffer_aligned]
  refine ⟨d.toMessage htracked.synced, rfl, ?_⟩
  rw [Stream.records_padded_append (Int.le_of_eq hend) hpadded, hrecords, List.append_assoc]
  rfl

theorem length_batch (buffer : Bytes) (batches : List (List Edit)) :
    (batch buffer batches).length = batches.length := by
  induction batches generalizing buffer with
  | nil => rfl
  | cons edits later ih => rw [batch, List.length_cons, List.length_cons, ih]

/-- A batch of one draft or more, behind a buffer whose messages leave no bytes over, is read as
those messages and then the drafts, each with its bytes and its header, and nothing is left over. -/
theorem records_batch {buffer : Bytes}
    (hclean : (Stream.ofBytes buffer : Messages).last.remaining ≤ 0) (edits : List Edit)
    (later : List (List Edit)) :
    let drafts := batch buffer (edits :: later)
    let messages : Messages := .ofBytes (batchBuffer buffer (edits :: later))
    let earlier : Messages := .ofBytes buffer
    drafts.length = (edits :: later).length ∧
      messages.records.map Record.bytes =
        earlier.records.map Record.bytes ++ drafts.map Draft.bytes ∧
      messages.records.map Message.header =
        earlier.records.map Message.header ++ drafts.map Draft.header ∧
      messages.last.remaining = 0 := by
  intro drafts messages earlier
  obtain ⟨hbytes, hremaining⟩ := map_bytes_batchBuffer hclean edits later
  have hheaders := congrArg (List.map Header.decode) hbytes
  simp only [List.map_append, List.map_map] at hheaders
  exact ⟨length_batch buffer (edits :: later), hbytes, hheaders, hremaining⟩

/-- Behind an unpadded message, a draft whose nest is dropped and one whose patch is refused. -/
theorem records_batch_two :
    let unpadded := Header.encode { size := 17 } ++ [7]
    let first : List Edit :=
      [.setSeq 5, .nestStart 1, .put (.u8 2 9), .nestCancel ⟨1, 16, by decide, by decide⟩]
    let second : List Edit := [.extend 3 [1, 2, 3], .patch 4 [8]]
    let messages : Messages := .ofBytes (batchBuffer unpadded [first, second])
    (Stream.ofBytes unpadded : Messages).last.remaining ≤ 0 ∧
      messages.records.map Message.header =
        [{ size := 17 }, { size := 16, seq := 5 }, { size := 20 }] ∧
      messages.last.remaining = 0 := by
  intro unpadded first second messages
  let message : Message := ⟨unpadded, by decide, by decide⟩
  have hfirst : Record.first? (Stream.ofBytes unpadded : Messages).rest = some message := rfl
  have hnone : Record.first? (L := .message)
      ((Stream.ofBytes unpadded : Messages).skip message.span).rest = none :=
    Record.first?_eq_none_of_length_lt (by decide)
  have hclean : (Stream.ofBytes unpadded : Messages).last.remaining ≤ 0 := by
    rw [Stream.last_of_first? hfirst, Stream.last_of_none hnone]
    decide
  obtain ⟨_, _, hheaders, hremaining⟩ := records_batch hclean first [second]
  rw [Stream.records_of_first? hfirst, Stream.records_of_none hnone] at hheaders
  exact ⟨hclean, hheaders.trans (by decide +kernel), hremaining⟩

end Netlink
