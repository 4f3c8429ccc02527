import Netlink.Proofs.Report

/-!
# Editing drafts

An `Edit` is one call that changes a draft, with its arguments; `Edit.apply` makes the call and
keeps what a refused call leaves. A `Session` is a buffer with a draft at its end, on which drafts
are started and edited in any order. Main statement: `run_consistent`, by which every draft of
every session is a complete message whose header holds what was set last.
-/

namespace Netlink

/-- One call that changes a draft. Offsets of overwritten bytes count from the payload, so that no
edit overwrites the header. -/
inductive Edit where
  | setType (type : UInt16)
  | setFlags (flags : UInt16)
  | setSeq (seq : UInt32)
  | setPort (port : UInt32)
  /-- Appends `count` zeros and copies `data` to the front of them. -/
  | extend (count : UInt64) (data : Bytes)
  | truncate (count : Nat)
  | patch (offset : Nat) (data : Bytes)
  | write (offset : Nat) (data : Bytes)
  | put (leaf : Leaf)
  | nestStart (type : UInt16)
  | nestEnd (nest : Nest)
  | nestCancel (nest : Nest)
  | putReport (report : Report)
  | putExtendedAck (ack : ExtendedAck)

namespace Draft

def attempt {ε : Type} (d : Draft) (cause : ε → DispatchError) :
    Except ε Draft → Draft × Except DispatchError Unit
  | .ok e => (e, .ok ())
  | .error refusal => (d, .error (cause refusal))

end Draft

namespace Edit

def apply (d : Draft) : Edit → Draft × Except DispatchError Unit
  | setType type => (d.setType type, .ok ())
  | setFlags flags => (d.setFlags flags, .ok ())
  | setSeq seq => (d.setSeq seq, .ok ())
  | setPort port => (d.setPort port, .ok ())
  | extend count data =>
    d.attempt .draft ((d.extend count).map fun (region, e) => e.fill region data)
  | truncate count => d.attempt .draft (d.truncate count)
  | patch offset data => d.attempt .draft (d.patch (Message.headerSize + offset) data)
  | write offset data => (d.writePayload offset data, .ok ())
  | put leaf => d.attempt .attr (leaf.appendTo d)
  | nestStart type => d.attempt .attr ((d.nestStart type).map (·.2))
  | nestEnd nest => d.attempt .attr (d.nestEnd nest)
  | nestCancel nest => d.attempt .attr (d.nestCancel nest)
  | putReport report => d.putReport report
  | putExtendedAck ack => d.putExtendedAck ack

/-- The header fields after an edit of a draft with the fields `h`. The size counts for nothing
here. -/
def fields (succeeded : Bool) (h : Header) : Edit → Header
  | setType type => { h with type }
  | setFlags flags => { h with flags }
  | setSeq seq => { h with seq }
  | setPort port => { h with port }
  | putReport _ => { h with type := MessageType.error }
  | putExtendedAck _ =>
    if succeeded then { h with flags := h.flags ||| MessageFlag.ackDetails } else h
  | _ => h

end Edit

/-! ## One edit -/

/-- What every edit of a draft `d` with a true length field does: the bytes before the draft stay,
and the header is the one with the fields `h` and the new size. -/
structure Draft.Edited (d : Draft) (h : Header) (e : Draft) : Prop where
  before : e.before = d.before
  header : e.header = { h with size := .ofNat e.size }

namespace Draft

variable {d e : Draft}

theorem Edited.synced {h : Header} (hedited : Edited d h e) : e.Synced := by
  rw [Synced, hedited.header]
  exact e.toNat_ofNat_size

theorem Edited.refl (hd : d.Synced) : Edited d d.header d := by
  refine ⟨rfl, ?_⟩
  rw [← hd.header_size]

theorem Appended.edited {data : Bytes} (h : Appended d data e) : Edited d d.header e :=
  ⟨h.before, h.header⟩

theorem Edited.trans {f : Draft} {h : Header} (hfirst : Edited d h e)
    (hsecond : Edited e e.header f) : Edited d h f := by
  refine ⟨hsecond.before.trans hfirst.before, ?_⟩
  rw [hsecond.header, hfirst.header]

theorem edited_write_of_header (hd : d.Synced) {offset : Nat} {data : Bytes} {h : Header}
    (hheader : (d.write offset data).header = h) (hsize : h.size = d.header.size) :
    Edited d h (d.write offset data) := by
  refine ⟨rfl, ?_⟩
  rw [hheader, size_write, ← hd.header_size, ← hsize]

theorem edited_write (hd : d.Synced) {offset : Nat} (hoffset : 16 ≤ offset) (data : Bytes) :
    Edited d d.header (d.write offset data) :=
  edited_write_of_header hd (d.header_write hoffset) rfl

theorem edited_truncate {count : Nat} (h : d.truncate count = .ok e) : Edited d d.header e := by
  obtain ⟨_, hbefore, hheader, _⟩ := truncate_ok h
  exact ⟨hbefore, hheader⟩

theorem attempt_of {ε : Type} {motive : Draft → Prop} {cause : ε → DispatchError}
    {result : Except ε Draft} (hrefused : motive d) (hmade : ∀ e, result = .ok e → motive e) :
    motive (d.attempt cause result).1 := by
  cases result with
  | error refusal => exact hrefused
  | ok e => exact hmade e rfl

theorem edited_attempt {ε : Type} {cause : ε → DispatchError} {result : Except ε Draft}
    (hd : d.Synced) (h : ∀ e, result = .ok e → Edited d d.header e) :
    Edited d d.header (d.attempt cause result).1 := attempt_of (.refl hd) h

theorem edited_putReport (hd : d.Synced) (report : Report) :
    Edited d { d.header with type := MessageType.error } (d.putReport report).1 := by
  have htyped : Edited d { d.header with type := MessageType.error }
      (d.setType MessageType.error) :=
    edited_write_of_header hd (d.header_setType MessageType.error) rfl
  cases hreport : d.putReport report with
  | mk e result =>
      cases result with
      | ok _ => exact htyped.trans (putReport_ok hreport).edited
      | error cause =>
          rw [putReport_error hreport]
          exact htyped

theorem edited_putExtendedAck (hd : d.Synced) (ack : ExtendedAck) :
    Edited d ((Edit.putExtendedAck ack).fields (d.putExtendedAck ack).2.isOk d.header)
      (d.putExtendedAck ack).1 := by
  cases hack : d.putExtendedAck ack with
  | mk e result =>
      cases result with
      | error cause =>
          obtain ⟨data, happended⟩ := putExtendedAck_error hd hack
          exact happended.edited
      | ok _ =>
          obtain ⟨_, f, happended, rfl⟩ := putExtendedAck_ok hd hack
          have hflagged := edited_write_of_header happended.synced
            (f.header_setFlags (f.header.flags ||| MessageFlag.ackDetails)) rfl
          refine ⟨hflagged.before.trans happended.before, hflagged.header.trans ?_⟩
          rw [happended.header]
          rfl

end Draft

theorem Edit.edited {d : Draft} (hd : d.Synced) (edit : Edit) :
    d.Edited (edit.fields (edit.apply d).2.isOk d.header) (edit.apply d).1 := by
  cases edit with
  | setType type => exact Draft.edited_write_of_header hd (d.header_setType type) rfl
  | setFlags flags => exact Draft.edited_write_of_header hd (d.header_setFlags flags) rfl
  | setSeq seq => exact Draft.edited_write_of_header hd (d.header_setSeq seq) rfl
  | setPort port => exact Draft.edited_write_of_header hd (d.header_setPort port) rfl
  | extend count data =>
      apply Draft.edited_attempt hd
      intro e h
      obtain ⟨_, _, happended⟩ := Draft.extend_fill_ok h
      exact happended.edited
  | truncate count => exact Draft.edited_attempt hd fun e h => Draft.edited_truncate h
  | patch offset data =>
      apply Draft.edited_attempt hd
      intro e h
      obtain ⟨_, rfl⟩ := Draft.patch_ok h
      exact Draft.edited_write hd (Nat.le_add_right 16 offset) data
  | write offset data => exact Draft.edited_write hd (Nat.le_add_right 16 offset) data
  | put leaf => exact Draft.edited_attempt hd fun e h => (Leaf.appendTo_ok h).2.edited
  | nestStart type =>
      apply Draft.edited_attempt hd
      intro e h
      obtain ⟨⟨nest, made⟩, hstart, rfl⟩ := eq_ok_of_map h
      exact (Draft.nestStart_ok hstart).2.2.edited
  | nestEnd nest =>
      apply Draft.edited_attempt hd
      intro e h
      obtain ⟨_, _, rfl⟩ := Draft.nestEnd_ok h
      exact Draft.edited_write hd nest.headerSize_le _
  | nestCancel nest =>
      exact Draft.edited_attempt hd fun e h => Draft.edited_truncate (Draft.nestCancel_ok h)
  | putReport report => exact Draft.edited_putReport hd report
  | putExtendedAck ack => exact Draft.edited_putExtendedAck hd ack

/-! ## Several edits -/

namespace Draft

def after (d : Draft) (edits : List Edit) : Draft :=
  edits.foldl (fun d edit => (edit.apply d).1) d

theorem after_append (d : Draft) (first second : List Edit) :
    d.after (first ++ second) = (d.after first).after second := List.foldl_append

end Draft

/-! ## Sessions -/

/-- A buffer with a draft at its end, and what was done to the draft since it was started. -/
structure Session where
  draft : Draft
  edits : List (Edit × Bool)

inductive Action where
  | start
  | edit (edit : Edit)

namespace Session

def start (buffer : Bytes) : Session := ⟨Draft.start buffer, []⟩

def act (s : Session) : Action → Session
  | .start => start s.draft.buffer
  | .edit edit =>
    let (draft, result) := edit.apply s.draft
    ⟨draft, s.edits ++ [(edit, result.isOk)]⟩

def run (buffer : Bytes) (actions : List Action) : Session := actions.foldl act (start buffer)

def fields (s : Session) : Header :=
  s.edits.foldl (fun h (edit, succeeded) => edit.fields succeeded h) {}

/-- The draft of a session is a complete message that holds the fields as they were set last. -/
structure Consistent (s : Session) : Prop where
  start_aligned : s.draft.before.length % 4 = 0
  buffer_aligned : s.draft.buffer.length % 4 = 0
  headerSize_le : 16 ≤ s.draft.size
  size_le : s.draft.size ≤ 2 ^ 32 - 1
  length : s.draft.header.size.toNat = s.draft.size
  fields : s.draft.header = { s.fields with size := s.draft.header.size }
  message : ∃ m, s.draft.message? = some m ∧ m.bytes = s.draft.bytes

/-- What one action preserves. The rest of `Consistent` follows from it for every draft. -/
structure Tracked (s : Session) : Prop where
  synced : s.draft.Synced
  fields : s.draft.header = { s.fields with size := .ofNat s.draft.size }

theorem tracked_start (buffer : Bytes) : (start buffer).Tracked := by
  constructor
  · show (Draft.start buffer).header.size.toNat = (Draft.start buffer).size
    rw [Draft.header_start]
    rfl
  · show (Draft.start buffer).header = _
    rw [Draft.header_start]
    rfl

theorem fields_act_edit (s : Session) (edit : Edit) :
    (s.act (.edit edit)).fields = edit.fields (edit.apply s.draft).2.isOk s.fields := by
  simp only [act, fields, List.foldl_append, List.foldl_cons, List.foldl_nil]

end Session

theorem Edit.fields_size (edit : Edit) (succeeded : Bool) (h : Header) (size size' : UInt32) :
    { edit.fields succeeded { h with size } with size := size' } =
      { edit.fields succeeded h with size := size' } := by
  cases edit with
  | putExtendedAck ack => cases succeeded <;> rfl
  | _ => rfl

namespace Session

variable {s : Session}

theorem Tracked.act (hs : s.Tracked) (action : Action) : (s.act action).Tracked := by
  cases action with
  | start => exact tracked_start s.draft.buffer
  | edit edit =>
      have hedited := edit.edited hs.synced
      refine ⟨hedited.synced, ?_⟩
      rw [fields_act_edit]
      show (edit.apply s.draft).1.header = _
      rw [hedited.header, hs.fields, Edit.fields_size]
      rfl

theorem tracked_foldl (hs : s.Tracked) (actions : List Action) :
    (actions.foldl Session.act s).Tracked := by
  induction actions generalizing s with
  | nil => exact hs
  | cons action actions ih => exact ih (hs.act action)

theorem tracked_run (buffer : Bytes) (actions : List Action) : (run buffer actions).Tracked :=
  tracked_foldl (tracked_start buffer) actions

theorem Tracked.consistent (hs : s.Tracked) : s.Consistent where
  start_aligned := s.draft.before_aligned
  buffer_aligned := by
    have hbefore := s.draft.before_aligned
    have hbytes := s.draft.aligned
    rw [Draft.buffer, List.length_append]
    omega
  headerSize_le := s.draft.headerSize_le
  size_le := s.draft.length_le
  length := hs.synced
  fields := by
    rw [hs.synced.header_size]
    exact hs.fields
  message := ⟨s.draft.toMessage hs.synced, s.draft.message?_eq hs.synced, rfl⟩

theorem before_foldl_edit (hs : s.Tracked) (edits : List Edit) :
    ((edits.map Action.edit).foldl Session.act s).draft.before = s.draft.before := by
  induction edits generalizing s with
  | nil => rfl
  | cons edit edits ih =>
      rw [List.map_cons, List.foldl_cons, ih (hs.act (.edit edit))]
      exact (edit.edited hs.synced).before

/-- In every state of every session the draft is a complete message with the fields as they were
set last; its edits leave the bytes before it alone, and a new draft leaves the whole buffer. -/
theorem run_consistent (buffer : Bytes) (actions : List Action) :
    (run buffer actions).Consistent ∧
      (∀ edits : List Edit, (run buffer (actions ++ edits.map .edit)).draft.before =
        (run buffer actions).draft.before) ∧
      (run buffer (actions ++ [.start])).draft.before = (run buffer actions).draft.buffer ∧
      (run buffer []).draft.before = buffer.padded := by
  have htracked := tracked_run buffer actions
  have hconsistent := htracked.consistent
  refine ⟨hconsistent, fun edits => ?_, ?_, rfl⟩
  · rw [run, List.foldl_append]
    exact before_foldl_edit htracked edits
  · rw [run, List.foldl_append]
    exact Bytes.padded_of_mod hconsistent.buffer_aligned

end Session

end Netlink
