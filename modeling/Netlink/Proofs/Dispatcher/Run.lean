import Netlink.Proofs.Dispatcher.Course
import Netlink.Proofs.Stream

/-!
# Dispatch runs

The dispatcher hands out one message as the rules judge it, and so a run takes its course. Main
statement: `run_eq_course`, for every list of handlers and every buffer.
-/

namespace Netlink

/-! ## Handlers -/

namespace Dispatcher

variable {σ : Type}

theorem ofType?_eq_none_iff {type : UInt16} :
    ControlType.ofType? type = none ↔ 16 ≤ type.toNat := by
  rw [ControlType.ofType?]
  split
  · rename_i h
    simp only [reduceCtorEq, false_iff]
    omega
  · rename_i h
    simp only [true_iff]
    omega

theorem ofType?_eq_some_iff {type : UInt16} {control : ControlType} :
    ControlType.ofType? type = some control ↔ type.toNat = control.val := by
  have hcontrol := control.isLt
  rw [ControlType.ofType?]
  split
  · rename_i h
    rw [Option.some.injEq, Fin.ext_iff]
  · rename_i h
    simp only [reduceCtorEq, false_iff]
    omega

theorem lt_of_ofType?_eq_some {type : UInt16} {control : ControlType}
    (h : ControlType.ofType? type = some control) : type.toNat < 16 := by
  rw [ofType?_eq_some_iff.mp h]
  exact control.isLt

@[simp] theorem expected_register (d : Dispatcher σ) (r : Registration σ) :
    (d.register r).expected = d.expected := by
  rw [register, on]
  cases ControlType.ofType? r.type <;> rfl

theorem handlers_register (d : Dispatcher σ) (r : Registration σ) {type : UInt16}
    {control : ControlType} (hcontrol : ControlType.ofType? type = some control) :
    (d.register r).handlers control =
      if r.type = type then some r.handler else d.handlers control := by
  rw [ofType?_eq_some_iff] at hcontrol
  rw [register, on]
  cases hr : ControlType.ofType? r.type with
  | none =>
      have hdata := ofType?_eq_none_iff.mp hr
      have hne : r.type ≠ type := by
        rintro rfl
        have := control.isLt
        omega
      rw [if_neg hne]
  | some other =>
      rw [ofType?_eq_some_iff] at hr
      have hsame : control = other ↔ r.type = type := by
        rw [Fin.ext_iff, ← UInt16.toNat_inj]
        omega
      simp only [hsame]

theorem expected_withHandlers (expected : Correlation) (rs : List (Registration σ)) :
    (withHandlers expected rs).expected = expected := by
  induction rs using List.reverseRecOn with
  | nil => rfl
  | append_singleton rs r ih =>
      rw [withHandlers, List.foldl_append]
      exact (expected_register _ r).trans ih

theorem handlers_withHandlers (expected : Correlation) (rs : List (Registration σ)) {type : UInt16}
    {control : ControlType} (hcontrol : ControlType.ofType? type = some control) :
    (withHandlers expected rs).handlers control = (Course.lastFor rs type).map Prod.snd := by
  induction rs using List.reverseRecOn with
  | nil => rfl
  | append_singleton rs r ih =>
      rw [withHandlers, List.foldl_append]
      show ((withHandlers expected rs).register r).handlers control = _
      rw [handlers_register _ r hcontrol, Course.lastFor_append, ih]
      split <;> rfl

/-! ## One message -/

theorem matching_iff (expected got : UInt32) :
    Message.matching got expected = true ↔ Agree expected got := by
  simp only [Message.matching, Agree, Bool.or_eq_true, beq_iff_eq]
  constructor
  · rintro ((h | h) | h)
    · exact .inr (.inl h)
    · exact .inl h
    · exact .inr (.inr h.symm)
  · rintro (h | h | h)
    · exact .inl (.inr h)
    · exact .inl (.inl h)
    · exact .inr h.symm

theorem callOn_eq_shown (callee : Callee) (callback : Callback Message σ) (state : σ)
    (m : Message) :
    (callOn callback state m).result = (Course.shown callee callback state m).ending ∧
      (callOn callback state m).state = (Course.shown callee callback state m).state := by
  constructor
  · show ofVerdict (callback state m).result = _
    rw [Course.shown]
    cases (callback state m).result <;> rfl
  · rfl

end Dispatcher

theorem toInt_toInt32_ofNat {n : Nat} (h : n < 2 ^ 32) :
    (UInt32.ofNat n).toInt32.toInt = if n < 2 ^ 31 then (n : Int) else n - 2 ^ 32 := by
  have htoNat : (BitVec.ofNat 32 n).toNat = n := by
    rw [BitVec.toNat_ofNat]
    exact Nat.mod_eq_of_lt h
  show (BitVec.ofNat 32 n).toInt = _
  rw [BitVec.toInt_eq_toNat_cond, htoNat]
  split <;> split <;> omega

namespace Dispatcher

variable {σ : Type}

/-- A report of the signed code whose bytes have the value `code` without sign. -/
theorem reported_ofMessage {m : Message} {r : Report} (h : Report.ofMessage? m = some r)
    {code : Nat} (hcode : Bytes.decodeLE (m.payload.take 4) = code) :
    20 ≤ m.payload.length ∧ (r.isAck = true ↔ code = 0) ∧
      r.code = .ofNat (if code < 2 ^ 31 then code else 2 ^ 32 - code) := by
  rw [Report.ofMessage?] at h
  split at h
  · rename_i hsize
    have hlt : code < 2 ^ 32 := hcode ▸ Layout.message.declared_lt m.payload
    have herror : r.error.toInt = if code < 2 ^ 31 then (code : Int) else code - 2 ^ 32 := by
      cases h
      rw [← toInt_toInt32_ofNat hlt, ← hcode]
      rfl
    refine ⟨hsize, ?_, ?_⟩
    · rw [Report.isAck, beq_iff_eq, ← Int32.toInt_inj, herror, Int32.toInt_zero]
      split <;> omega
    · rw [Report.code, herror]
      congr 1
      split <;> omega
  · cases h

theorem builtIn_eq_unhandled (state : σ) (m : Message) :
    (builtIn state m).result = Course.unhandled m ∧ (builtIn state m).state = state := by
  unfold builtIn Course.unhandled
  by_cases herror : m.type = MessageType.error
  · have hne : m.header.type ≠ 3 := by
      intro hdone
      cases hdone.symm.trans herror
    have htwo : m.header.type = 2 := herror
    rw [if_pos herror, if_neg hne, if_pos htwo]
    refine ⟨?_, rfl⟩
    show some (reported m).1 = _
    rw [reported]
    cases hreport : Report.ofMessage? m with
    | none =>
        have hshort : m.payload.length < 20 := Report.ofMessage?_eq_none_iff.mp hreport
        have hsize : m.payloadSize = m.payload.length := m.length_payload.symm
        simp only [if_pos hshort, hsize, Report.size]
    | some r =>
        obtain ⟨hlong, hack, hcode⟩ := reported_ofMessage hreport rfl
        simp only [if_neg (Nat.not_lt_of_le hlong), hcode]
        by_cases hzero : Bytes.decodeLE (m.payload.take 4) = 0
        · rw [if_pos (hack.mpr hzero), if_pos hzero]
        · rw [if_neg (fun h => hzero (hack.mp h)), if_neg hzero]
  · have htwo : ¬m.header.type = 2 := herror
    rw [if_neg herror, if_neg htwo]
    by_cases hdone : m.type = MessageType.done
    · have hthree : m.header.type = 3 := hdone
      rw [if_pos hdone, if_pos hthree]
      exact ⟨rfl, rfl⟩
    · have hthree : ¬m.header.type = 3 := hdone
      rw [if_neg hdone, if_neg hthree]
      exact ⟨rfl, rfl⟩

theorem portOk_iff (expected : UInt32) (m : Message) :
    m.portOk expected = true ↔ Agree expected m.header.port := matching_iff expected m.header.port

theorem seqOk_iff (expected : UInt32) (m : Message) :
    m.seqOk expected = true ↔ Agree expected m.header.seq := matching_iff expected m.header.seq

theorem route_of_mismatch {d : Dispatcher σ} {m : Message} {error : DispatchError} {event : Event}
    (h : mismatch? d.expected m = some (error, event)) (data : Callback Message σ) (state : σ) :
    d.route data state m = ⟨some (.error error), state, [event]⟩ := by
  rw [route, h]

theorem route_eq_handed {expected : Correlation} {rs : List (Registration σ)} {m : Message}
    (h : mismatch? expected m = none) (data : Callback Message σ) (state : σ) :
    ((withHandlers expected rs).route data state m).result =
        (Course.handed rs data state m).ending ∧
      ((withHandlers expected rs).route data state m).state =
        (Course.handed rs data state m).state := by
  rw [route, expected_withHandlers, h, Course.handed, Message.type]
  cases hcontrol : ControlType.ofType? m.header.type with
  | none =>
      rw [if_pos (ofType?_eq_none_iff.mp hcontrol)]
      exact callOn_eq_shown .data data state m
  | some control =>
      have hsmall : ¬16 ≤ m.header.type.toNat := Nat.not_le_of_lt (lt_of_ofType?_eq_some hcontrol)
      have hhandler : (withHandlers expected rs).handlers control =
          (Course.lastFor rs m.header.type).map Prod.snd :=
        handlers_withHandlers expected rs hcontrol
      rw [if_neg hsmall]
      simp only [hhandler]
      cases Course.lastFor rs m.header.type with
      | none => exact builtIn_eq_unhandled state m
      | some found => exact callOn_eq_shown (.handler found.1) found.2 state m

/-- One message of a run is judged by the rules. -/
theorem step_eq_judge (expected : Correlation) (rs : List (Registration σ))
    (data : Callback Message σ) (state : σ) (m : Message) :
    ((withHandlers expected rs).step data state m).result =
        (Course.judge expected rs data state m).ending ∧
      ((withHandlers expected rs).step data state m).state =
        (Course.judge expected rs data state m).state := by
  show ((withHandlers expected rs).route data state m).result = _ ∧
    ((withHandlers expected rs).route data state m).state = _
  have hexpected := expected_withHandlers expected rs
  unfold Course.judge
  -- in the order of the checks: the port decides before the sequence number is looked at
  by_cases hport : Agree expected.port m.header.port
  · have hportOk : m.portOk expected.port = true := (portOk_iff _ m).mpr hport
    rw [if_neg (not_not_intro hport)]
    by_cases hseq : Agree expected.seq m.header.seq
    · have hseqOk : m.seqOk expected.seq = true := (seqOk_iff _ m).mpr hseq
      have hfound : mismatch? expected m = none := by
        simp [mismatch?, hportOk, hseqOk]
      rw [if_neg (not_not_intro hseq)]
      exact route_eq_handed hfound data state
    · have hseqOk : ¬m.seqOk expected.seq = true := mt (seqOk_iff _ m).mp hseq
      have hfound : mismatch? (withHandlers expected rs).expected m =
          some (.sequenceMismatch expected.seq m.header.seq,
            .unexpectedSequence expected.seq m.header.seq) := by
        simp [mismatch?, hexpected, hportOk, hseqOk]
      rw [if_pos hseq, route_of_mismatch hfound]
      exact ⟨rfl, rfl⟩
  · have hportOk : ¬m.portOk expected.port = true := mt (portOk_iff _ m).mp hport
    have hfound : mismatch? (withHandlers expected rs).expected m =
        some (.portMismatch expected.port m.header.port,
          .unexpectedPort expected.port m.header.port) := by
      simp [mismatch?, hexpected, hportOk]
    rw [if_pos hport, route_of_mismatch hfound]
    exact ⟨rfl, rfl⟩

/-! ## Runs -/

theorem visitList_eq_course (expected : Correlation) (rs : List (Registration σ))
    (data : Callback Message σ) (state : σ) (messages : List Message) :
    ((Stream.visitList ((withHandlers expected rs).step data) state messages).result.getD
        (.ok .drained)) = (Course.of expected rs data state messages).ending ∧
      (Stream.visitList ((withHandlers expected rs).step data) state messages).state =
        (Course.of expected rs data state messages).state := by
  induction messages generalizing state with
  | nil => exact ⟨rfl, rfl⟩
  | cons m later ih =>
      obtain ⟨hending, hstate⟩ := step_eq_judge expected rs data state m
      cases hjudged : (Course.judge expected rs data state m).ending with
      | some ending =>
          rw [hjudged] at hending
          rw [Stream.visitList_cons_some hending, Course.of_cons_some hjudged]
          exact ⟨rfl, hstate⟩
      | none =>
          rw [hjudged] at hending
          rw [Stream.visitList_cons_none hending, Course.of_cons_none hjudged, hstate]
          exact ih _

theorem run_eq_visitList (d : Dispatcher σ) (data : Callback Message σ) (state : σ)
    (buffer : Bytes) :
    let s : Messages := .ofBytes buffer
    let visited := Stream.visitList (d.step data) state s.records
    d.run data state buffer =
      match visited.result with
      | some ending => ⟨ending, visited.state, visited.events⟩
      | none => ⟨.ok .drained, visited.state,
          visited.events ++ (Messages.stall s.last ++ [.drained s.last.remaining])⟩ := by
  intro s visited
  obtain ⟨hresult, hstate, hevents, hlast⟩ := Stream.visit_eq (d.step data) state s
  show d.run data state buffer = _
  simp only [visited, ← hresult, ← hstate, ← hevents]
  unfold run
  generalize s.visit (d.step data) state = outcome at hlast ⊢
  obtain ⟨⟨result, rest⟩, final, events⟩ := outcome
  cases result with
  | some ending => rfl
  | none =>
      cases hlast rfl
      rfl

theorem run_ending (expected : Correlation) (rs : List (Registration σ))
    (data : Callback Message σ) (state : σ) (buffer : Bytes) :
    let messages := (Stream.ofBytes buffer : Messages).records
    let course := Course.of expected rs data state messages
    ((withHandlers expected rs).run data state buffer).result = course.ending ∧
      ((withHandlers expected rs).run data state buffer).state = course.state := by
  intro messages course
  obtain ⟨hending, hfinal⟩ := visitList_eq_course expected rs data state messages
  rw [run_eq_visitList]
  simp only [← hending, ← hfinal, course, messages]
  cases (Stream.visitList ((withHandlers expected rs).step data) state
    (Stream.ofBytes buffer : Messages).records).result <;> exact ⟨rfl, rfl⟩

/-- Every run takes the course that the rules give for the messages of its buffer: it ends in that
way and in that state, and the calls to its callbacks are those of the course, in its order. -/
theorem run_eq_course (expected : Correlation) (rs : List (Registration σ))
    (data : Callback Message σ) (state : σ) (buffer : Bytes) :
    let course := Course.of expected rs data state (Stream.ofBytes buffer).records
    let run := (withHandlers expected rs).run data state buffer
    let recordedRun := (withHandlers expected (Course.recordedHandlers rs)).run
      (Course.recorded .data data) (state, []) buffer
    run.result = course.ending ∧ run.state = course.state ∧
      recordedRun.state = (course.state, course.calls) := by
  intro course run recordedRun
  obtain ⟨hending, hstate⟩ := run_ending expected rs data state buffer
  obtain ⟨_, hrecorded⟩ := run_ending expected (Course.recordedHandlers rs)
    (Course.recorded .data data) (state, []) buffer
  exact ⟨hending, hstate, hrecorded.trans (Course.of_recorded expected rs data state [] _)⟩

end Dispatcher

end Netlink
