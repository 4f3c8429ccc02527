import Netlink.Proofs.Dispatcher.Cut
import Netlink.Proofs.Draft.Batch
import Netlink.Proofs.Report.Answer
import Netlink.Proofs.Report.Room

/-!
# Exchanges

A peer writes replies into one buffer and closes them with a message that tells how it went, and a
dispatcher with the built-in handling alone runs over the buffer. Main statement:
`observe_exchange`, by which the run shows the data messages as they were built, ends as the
closing message tells and does not come to what stands behind it.
-/

namespace Netlink

/-! ## Closing messages -/

namespace Edit

def SetsField : Edit → Prop
  | setType _ | setFlags _ | setSeq _ | setPort _ => True
  | _ => False

/-- Sets another field than the type, or appends to the payload. -/
def KeepsReport : Edit → Prop
  | setFlags _ | setSeq _ | setPort _ | extend _ _ | put _ | putExtendedAck _ => True
  | _ => False

end Edit

/-- A draft behind `buffer` made by these edits closes an exchange with this ending: it is a `done`
message, or it is a report, put on a draft of which only fields were set, with anything appended
to it or nothing. -/
inductive Closes (buffer : Bytes) : List Edit → Dispatcher.Ending → Prop
  | done {edits : List Edit}
      (htype : (Session.run buffer (edits.map .edit)).draft.header.type = MessageType.done) :
      Closes buffer edits (.ok .stopped)
  | report (r : Report) {fields extras : List Edit} (hfields : ∀ edit ∈ fields, edit.SetsField)
      (hextras : ∀ edit ∈ extras, edit.KeepsReport) :
      Closes buffer (fields ++ .putReport r :: extras)
        (if r.error = 0 then .ok .stopped
        else .error (.remote (.ofNat r.error.toInt.natAbs)))

namespace Draft

theorem payload_after_setsField {d : Draft} {edits : List Edit}
    (h : ∀ edit ∈ edits, edit.SetsField) : (d.after edits).payload = d.payload := by
  induction edits generalizing d with
  | nil => rfl
  | cons edit edits ih =>
      rw [List.forall_mem_cons] at h
      refine (ih (d := (edit.apply d).1) h.2).trans ?_
      cases edit with
      | setType type => exact d.payload_setType type
      | setFlags flags => exact d.payload_setFlags flags
      | setSeq seq => exact d.payload_setSeq seq
      | setPort port => exact d.payload_setPort port
      | _ => exact h.1.elim

theorem Appended.isPrefix {d e : Draft} {data : Bytes} (h : Appended d data e) :
    d.payload <+: e.payload := ⟨data, h.payload.symm⟩

theorem isPrefix_attempt {ε : Type} {d : Draft} {cause : ε → DispatchError}
    {result : Except ε Draft} (h : ∀ e, result = .ok e → d.payload <+: e.payload) :
    d.payload <+: (d.attempt cause result).1.payload :=
  attempt_of (List.prefix_refl d.payload) h

end Draft

theorem Edit.isPrefix_of_keepsReport {d : Draft} (hd : d.Synced) {edit : Edit}
    (h : edit.KeepsReport) : d.payload <+: (edit.apply d).1.payload := by
  cases edit with
  | setFlags flags => exact (d.payload_setFlags flags) ▸ List.prefix_refl _
  | setSeq seq => exact (d.payload_setSeq seq) ▸ List.prefix_refl _
  | setPort port => exact (d.payload_setPort port) ▸ List.prefix_refl _
  | extend count data =>
      apply Draft.isPrefix_attempt
      intro e hextend
      obtain ⟨_, _, happended⟩ := Draft.extend_fill_ok hextend
      exact happended.isPrefix
  | put leaf =>
      exact Draft.isPrefix_attempt fun e happend => (Leaf.appendTo_ok happend).2.isPrefix
  | putExtendedAck ack =>
      show d.payload <+: (d.putExtendedAck ack).1.payload
      cases hack : d.putExtendedAck ack with
      | mk e result =>
          cases result with
          | error cause =>
              obtain ⟨_, happended⟩ := Draft.putExtendedAck_error hd hack
              exact happended.isPrefix
          | ok _ =>
              obtain ⟨_, f, happended, rfl⟩ := Draft.putExtendedAck_ok hd hack
              rw [Draft.payload_setFlags]
              exact happended.isPrefix
  | _ => exact h.elim

theorem Edit.type_of_keepsReport {d : Draft} (hd : d.Synced) {edit : Edit}
    (h : edit.KeepsReport) : (edit.apply d).1.header.type = d.header.type := by
  rw [(edit.edited hd).header]
  cases edit with
  | setFlags flags => rfl
  | setSeq seq => rfl
  | setPort port => rfl
  | extend count data => rfl
  | put leaf => rfl
  | putExtendedAck ack =>
      show ((Edit.putExtendedAck ack).fields _ d.header).type = d.header.type
      rw [Edit.fields]
      split <;> rfl
  | _ => exact h.elim

namespace Draft

theorem after_keepsReport {d : Draft} (hd : d.Synced) {edits : List Edit}
    (h : ∀ edit ∈ edits, edit.KeepsReport) :
    (d.after edits).header.type = d.header.type ∧ d.payload <+: (d.after edits).payload := by
  induction edits generalizing d with
  | nil => exact ⟨rfl, List.prefix_refl _⟩
  | cons edit edits ih =>
      rw [List.forall_mem_cons] at h
      obtain ⟨htype, hpayload⟩ := ih (edit.edited hd).synced h.2
      exact ⟨htype.trans (edit.type_of_keepsReport hd h.1),
        (edit.isPrefix_of_keepsReport hd h.1).trans hpayload⟩

theorem after_report (buffer : Bytes) (r : Report) {fields extras : List Edit}
    (hfields : ∀ edit ∈ fields, edit.SetsField) (hextras : ∀ edit ∈ extras, edit.KeepsReport) :
    let d := (start buffer).after (fields ++ .putReport r :: extras)
    d.header.type = MessageType.error ∧ r.encode <+: d.payload := by
  intro d
  have hempty : ((start buffer).after fields).payload = [] :=
    (payload_after_setsField hfields).trans (payload_start buffer)
  obtain ⟨e, hput, hsynced, hreport, hencoded⟩ := putReport_of_payload_nil hempty r
  have hafter : d = e.after extras := by
    show (start buffer).after (fields ++ .putReport r :: extras) = _
    rw [after_append]
    show (((start buffer).after fields).putReport r).1.after extras = _
    rw [hput]
  obtain ⟨htype, hprefix⟩ := after_keepsReport hsynced hextras
  rw [hafter, ← hencoded]
  exact ⟨htype.trans hreport, hprefix⟩

end Draft

theorem Session.draft_run_edits (buffer : Bytes) (edits : List Edit) :
    (run buffer (edits.map .edit)).draft = (Draft.start buffer).after edits := by
  have hfrom (s : Session) :
      ((edits.map Action.edit).foldl act s).draft = s.draft.after edits := by
    induction edits generalizing s with
    | nil => rfl
    | cons edit edits ih => exact ih (s.act (.edit edit))
  exact hfrom (start buffer)

namespace Course

theorem unhandled_of_report {m : Message} {r : Report} (htype : m.header.type = MessageType.error)
    (hreport : Report.ofMessage? m = some r) :
    unhandled m = some (if r.error = 0 then .ok .stopped
      else .error (.remote (.ofNat r.error.toInt.natAbs))) := by
  have hreported : (Dispatcher.builtIn () m).result = some (Dispatcher.reported m).1 := by
    have herror : m.type = MessageType.error := htype
    rw [Dispatcher.builtIn, if_pos herror]
  rw [← (Dispatcher.builtIn_eq_unhandled () m).1, hreported, Dispatcher.reported, hreport]
  by_cases hzero : r.error = 0
  · have hack : r.isAck = true := beq_iff_eq.mpr hzero
    simp only [if_pos hack, if_pos hzero]
  · have hack : ¬r.isAck = true := mt beq_iff_eq.mp hzero
    simp only [if_neg hack, if_neg hzero]
    rfl

end Course

/-- A closing message is not for the data callback, and the built-in handling ends as it tells. -/
theorem Closes.unhandled {buffer : Bytes} {edits : List Edit} {ending : Dispatcher.Ending}
    (h : Closes buffer edits ending) {m : Message}
    (hm : m.bytes = (Session.run buffer (edits.map .edit)).draft.bytes) :
    m.header.type.toNat < 16 ∧ Course.unhandled m = some ending := by
  have hheader : m.header = (Session.run buffer (edits.map .edit)).draft.header :=
    congrArg Header.decode hm
  have hpayload : m.payload = (Session.run buffer (edits.map .edit)).draft.payload :=
    congrArg (List.drop 16) hm
  cases h with
  | done htype =>
      rw [← hheader] at htype
      refine ⟨htype ▸ by decide, ?_⟩
      have hthree : m.header.type = 3 := htype
      rw [Course.unhandled, if_pos hthree]
  | report r hfields hextras =>
      obtain ⟨htype, rest, hrest⟩ := Draft.after_report buffer r hfields hextras
      rw [← Session.draft_run_edits, ← hheader] at htype
      rw [← Session.draft_run_edits, ← hpayload] at hrest
      have hreport := Report.ofMessage?_of_payload hrest.symm
      exact ⟨htype ▸ by decide, Course.unhandled_of_report htype hreport⟩

/-! ## Replies -/

namespace Course

variable {σ : Type} {expected : Correlation} {data : Callback Message σ}

def Expects (expected : Correlation) (h : Header) : Prop :=
  Agree expected.seq h.seq ∧ Agree expected.port h.port

instance (expected : Correlation) (h : Header) : Decidable (Expects expected h) :=
  inferInstanceAs (Decidable (_ ∧ _))

theorem judge_of_expects {rs : List (Registration σ)} {state : σ} {m : Message}
    (h : Expects expected m.header) :
    judge expected rs data state m = handed rs data state m := by
  rw [judge, if_neg (not_not_intro h.2), if_neg (not_not_intro h.1)]

theorem judge_reply (hproceed : ∀ state m, (data state m).result = .proceed) (state : σ)
    {m : Message} (hexpects : Expects expected m.header)
    (herror : m.header.type ≠ MessageType.error) (hdone : m.header.type ≠ MessageType.done) :
    (judge expected [] data state m).ending = none ∧
      (judge expected [] data state m).calls =
        if 16 ≤ m.header.type.toNat then [(.data, m)] else [] := by
  rw [judge_of_expects hexpects, handed]
  by_cases hdata : 16 ≤ m.header.type.toNat
  · rw [if_pos hdata, if_pos hdata, shown, hproceed]
    exact ⟨rfl, rfl⟩
  · have hthree : ¬m.header.type = 3 := hdone
    have htwo : ¬m.header.type = 2 := herror
    have hignored : unhandled m = none := by
      rw [unhandled, if_neg hthree, if_neg htwo]
    rw [if_neg hdata, if_neg hdata]
    exact ⟨hignored, rfl⟩

theorem of_replies (hproceed : ∀ state m, (data state m).result = .proceed) (state : σ)
    {messages : List Message}
    (h : ∀ m ∈ messages, Expects expected m.header ∧ m.header.type ≠ MessageType.error ∧
      m.header.type ≠ MessageType.done) :
    (of expected [] data state messages).ending = .ok .drained ∧
      (of expected [] data state messages).calls =
        (messages.filter fun m => 16 ≤ m.header.type.toNat).map fun m => (.data, m) := by
  induction messages generalizing state with
  | nil => exact ⟨rfl, rfl⟩
  | cons m later ih =>
      rw [List.forall_mem_cons] at h
      obtain ⟨⟨hexpects, herror, hdone⟩, hlater⟩ := h
      obtain ⟨hnone, hshown⟩ := judge_reply hproceed state hexpects herror hdone
      obtain ⟨hending, hcalls⟩ := ih (judge expected [] data state m).state hlater
      rw [of_cons_none hnone]
      refine ⟨hending, ?_⟩
      show _ ++ (of expected [] data (judge expected [] data state m).state later).calls = _
      rw [hshown, hcalls, List.filter_cons]
      by_cases hdata : 16 ≤ m.header.type.toNat
      · rw [if_pos hdata, if_pos (decide_eq_true hdata)]
        rfl
      · rw [if_neg hdata, if_neg (by simpa using hdata)]
        rfl

/-- The message behind the replies that the built-in handling ends at is the last one. -/
theorem of_closed (hproceed : ∀ state m, (data state m).result = .proceed) (state : σ)
    {messages : List Message}
    (h : ∀ m ∈ messages, Expects expected m.header ∧ m.header.type ≠ MessageType.error ∧
      m.header.type ≠ MessageType.done)
    {m : Message} {ending : Dispatcher.Ending} (hexpects : Expects expected m.header)
    (hcontrol : m.header.type.toNat < 16) (hends : unhandled m = some ending)
    (later : List Message) :
    (of expected [] data state (messages ++ m :: later)).ending = ending ∧
      (of expected [] data state (messages ++ m :: later)).calls =
        (messages.filter fun m => 16 ≤ m.header.type.toNat).map fun m => (.data, m) := by
  obtain ⟨hdrained, hcalls⟩ := of_replies hproceed state h
  let before := of expected [] data state messages
  have hjudge : judge expected [] data before.state m = ⟨some ending, before.state, []⟩ := by
    rw [judge_of_expects hexpects, handed, if_neg (Nat.not_le_of_lt hcontrol)]
    show (⟨unhandled m, before.state, []⟩ : Judgement σ) = _
    rw [hends]
  rw [of_append_cons_some hdrained hjudge]
  exact ⟨rfl, (List.append_nil _).trans hcalls⟩

end Course

/-! ## The run -/

def shownData (messages : List Bytes) : List (Callee × Header × Bytes) :=
  (messages.filter fun bs => 16 ≤ (Header.decode bs).type.toNat).map fun bs =>
    (.data, Header.decode bs, bs.drop 16)

theorem shownData_map {α : Type} (bytes : α → Bytes) (xs : List α) :
    shownData (xs.map bytes) =
      (xs.filter fun x => 16 ≤ (Header.decode (bytes x)).type.toNat).map fun x =>
        (.data, Header.decode (bytes x), (bytes x).drop 16) := by
  rw [shownData, List.filter_map, List.map_map]
  rfl

namespace Dispatcher

variable {σ : Type} {data : Callback Message σ}

/-- A run over replies that a peer built, a closing message and anything behind it shows the data
callback the data messages, with their headers and payloads, in the order in which they were
built, and nothing else to anyone. It ends as the closing message tells. -/
theorem observe_exchange (expected : Correlation) {earlier : List (List Edit)}
    {closing : List Edit} {ending : Ending} (hproceed : ∀ state m, (data state m).result = .proceed)
    (hexpects : ∀ d ∈ batch [] (earlier ++ [closing]), Course.Expects expected d.header)
    (hearlier : ∀ d ∈ batch [] earlier,
      d.header.type ≠ MessageType.error ∧ d.header.type ≠ MessageType.done)
    (hclosing : Closes (batchBuffer [] earlier) closing ending) (state : σ) (tail : Bytes) :
    let seen := observe expected [] data state (batchBuffer [] (earlier ++ [closing]) ++ tail)
    let replies := (batch [] earlier).filter fun d => 16 ≤ d.header.type.toNat
    seen.ending = ending ∧
      seen.calls.map (fun call => (call.1, call.2.header, call.2.payload)) =
        replies.map fun d => (Callee.data, d.header, d.payload) := by
  intro seen replies
  rw [batch_append, List.forall_mem_append] at hexpects
  obtain ⟨hbytes, hclean⟩ := map_bytes_batch earlier
  obtain ⟨m, hm, hrecords⟩ := records_draft_append hclean closing tail
  let messages : List Message := (Stream.ofBytes (batchBuffer [] earlier) : Messages).records
  -- what is known of the drafts is known of the messages, which have the same bytes
  have hreplies : ∀ m ∈ messages, Course.Expects expected m.header ∧
      m.header.type ≠ MessageType.error ∧ m.header.type ≠ MessageType.done := by
    intro m hmem
    have hshared : m.bytes ∈ (batch [] earlier).map Draft.bytes :=
      hbytes ▸ List.mem_map_of_mem hmem
    obtain ⟨d, hd, hsame⟩ := List.mem_map.mp hshared
    have hheader : d.header = m.header := congrArg Header.decode hsame
    exact hheader ▸ ⟨hexpects.1 d hd, hearlier d hd⟩
  have hlast : Course.Expects expected m.header := by
    rw [show m.header = _ from congrArg Header.decode hm]
    exact hexpects.2 _ (List.mem_singleton.mpr rfl)
  have hseen : seen = Course.of expected [] data state
      (messages ++ m :: (Stream.ofBytes tail : Messages).records) := by
    show observe expected [] data state _ = _
    rw [observe_eq_of, batchBuffer_append, batchBuffer_cons, batchBuffer_nil, hrecords]
  obtain ⟨hcontrol, hunhandled⟩ := hclosing.unhandled hm
  obtain ⟨hending, hcalls⟩ := Course.of_closed hproceed state hreplies hlast hcontrol hunhandled
    (Stream.ofBytes tail : Messages).records
  rw [← hseen] at hending hcalls
  refine ⟨hending, ?_⟩
  calc seen.calls.map (fun call => (call.1, call.2.header, call.2.payload))
      = shownData (messages.map Record.bytes) := by
        rw [hcalls, List.map_map, shownData_map]
        rfl
    _ = shownData ((batch [] earlier).map Draft.bytes) := by rw [hbytes]
    _ = replies.map fun d => (Callee.data, d.header, d.payload) :=
        shownData_map Draft.bytes (batch [] earlier)

/-- A refusal with an echo and details, behind a data message and one without meaning. What follows
in the buffer looks like another data message. -/
theorem observe_exchange_refused :
    let expected : Correlation := { seq := 7, port := 9 }
    let data : Callback Message Nat := fun count _ => ⟨.proceed, count + 1, []⟩
    let earlier : List (List Edit) :=
      [[.setType 16, .setSeq 7, .extend 2 [1, 2], .put (.u8 3 4)], [.setType 4, .setPort 9]]
    let closing : List Edit := [.setSeq 7, .putReport ⟨-22, { size := 18, seq := 7 }⟩,
      .extend 2 [5, 6], .putExtendedAck ⟨some "no", some 16⟩]
    let tail := Header.encode { size := 16, type := 16, seq := 7 }
    let seen := observe expected [] data 0 (batchBuffer [] (earlier ++ [closing]) ++ tail)
    seen.ending = .error (.remote 22) ∧
      seen.calls.map (fun call => (call.1, call.2.header, call.2.payload)) =
        [(.data, { size := 28, type := 16, seq := 7 }, [1, 2, 0, 0, 5, 0, 3, 0, 4, 0, 0, 0])] := by
  intro expected data earlier closing tail seen
  have hproceed : ∀ count m, (data count m).result = .proceed := fun _ _ => rfl
  have hexpects : ∀ d ∈ batch [] (earlier ++ [closing]), Course.Expects expected d.header := by
    decide +kernel
  have hearlier : ∀ d ∈ batch [] earlier,
      d.header.type ≠ MessageType.error ∧ d.header.type ≠ MessageType.done := by
    decide +kernel
  have hclosing : Closes (batchBuffer [] earlier) closing (.error (.remote 22)) := by
    refine @Closes.report _ ⟨-22, { size := 18, seq := 7 }⟩ [.setSeq 7]
      [.extend 2 [5, 6], .putExtendedAck ⟨some "no", some 16⟩] ?_ ?_
    · intro edit hedit
      cases List.mem_singleton.mp hedit
      trivial
    · intro edit hedit
      rcases List.mem_cons.mp hedit with rfl | hedit
      · trivial
      · cases List.mem_singleton.mp hedit
        trivial
  obtain ⟨hending, hcalls⟩ :=
    observe_exchange expected hproceed hexpects hearlier hclosing 0 tail
  exact ⟨hending, hcalls.trans (by decide +kernel)⟩

end Dispatcher

end Netlink
