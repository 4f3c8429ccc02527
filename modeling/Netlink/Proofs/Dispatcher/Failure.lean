import Netlink.Proofs.Dispatcher.Exchange

/-!
# Failures of runs

A run may fail by a check, by a report and by what a callback answers, and each of these gives a
code. Main statement: `observe_failure`, by which no failure has code zero, a reported code ends the
run as its absolute value, and a callback that answers with zero as its code is reported with 22.
-/

namespace Netlink

namespace DispatchError

/-- The code tells of a failure, on its own and as a system error, where it is a positive number. -/
def Signals (e : DispatchError) : Prop :=
  e.code ≠ 0 ∧
    (e.code.toNat ≤ 2 ^ 31 - 1 → e.toSystemError.code? = some e.code ∧
      e.code.toInt32.toInt = e.code.toNat ∧ 0 < e.code.toInt32.toInt) ∧
    (2 ^ 31 - 1 < e.code.toNat → e.toSystemError.code? = none)

theorem signals_of_code_ne_zero {e : DispatchError} (h : e.code ≠ 0) : e.Signals := by
  have hpos : 0 < e.code.toNat := by
    rw [Nat.pos_iff_ne_zero, ← UInt32.toNat_zero, Ne, UInt32.toNat_inj]
    exact h
  refine ⟨h, fun hsmall => ?_, fun hlarge => ?_⟩
  · have hsystem : isSystemCode e.code = true := by
      rw [isSystemCode, decide_eq_true_eq]
      omega
    have hsigned : e.code.toInt32.toInt = e.code.toNat := by
      have hint := toInt_toInt32_ofNat e.code.toNat_lt
      rwa [UInt32.ofNat_toNat, if_pos (by omega)] at hint
    rw [toSystemError, if_pos hsystem]
    exact ⟨rfl, hsigned, by omega⟩
  · have hsystem : ¬isSystemCode e.code = true := by
      rw [isSystemCode, decide_eq_true_eq]
      omega
    rw [toSystemError, if_neg hsystem]

end DispatchError

namespace Course

variable {σ : Type} {expected : Correlation} {rs : List (Registration σ)}
  {data callback : Callback Message σ} {callee : Callee} {state : σ} {m : Message}
  {e : DispatchError}

/-! ## Codes -/

theorem shown_of_error {code : UInt32} (h : (callback state m).result = .error code) :
    shown callee callback state m =
      ⟨some (.error (.handler (if code = 0 then 22 else code))), (callback state m).state,
        [(callee, m)]⟩ := by
  simp only [shown, h]

theorem shown_error (h : (shown callee callback state m).ending = some (.error e)) :
    e.code ≠ 0 := by
  cases hanswer : (callback state m).result with
  | proceed => simp [shown, hanswer] at h
  | stop => simp [shown, hanswer] at h
  | error code =>
      rw [shown_of_error hanswer] at h
      cases h
      show (if code = 0 then 22 else code) ≠ 0
      split
      · decide
      · assumption

theorem unhandled_error (h : unhandled m = some (.error e)) : e.code ≠ 0 := by
  have hlt : Bytes.decodeLE (m.payload.take 4) < 2 ^ 32 := Layout.message.declared_lt m.payload
  rw [unhandled] at h
  split at h
  · cases h
  · split at h
    · simp only at h
      split at h
      · cases h
        exact show Errno.ebadmsg ≠ 0 by decide
      · split at h
        · cases h
        · rename_i hcode
          cases h
          -- `2 ^ 32` less the code is no multiple of it
          show UInt32.ofNat _ ≠ 0
          rw [Ne, ← UInt32.toNat_inj, UInt32.toNat_ofNat', UInt32.toNat_zero]
          split <;> omega
    · cases h

/-- Whatever ends a run in failure at a message gives it a code. -/
theorem judge_error (h : (judge expected rs data state m).ending = some (.error e)) :
    e.code ≠ 0 := by
  rw [judge] at h
  split at h
  · cases h
    exact show Errno.einval ≠ 0 by decide
  · split at h
    · cases h
      exact show Errno.eilseq ≠ 0 by decide
    · rw [handed] at h
      split at h
      · exact shown_error h
      · split at h
        · exact shown_error h
        · exact unhandled_error h

theorem of_error {messages : List Message}
    (h : (of expected rs data state messages).ending = .error e) : e.code ≠ 0 := by
  induction messages generalizing state with
  | nil => cases h
  | cons m later ih =>
      cases hjudged : (judge expected rs data state m).ending with
      | some ending =>
          rw [of_cons_some hjudged] at h
          exact judge_error (hjudged.trans (congrArg some h))
      | none =>
          rw [of_cons_none hjudged] at h
          exact ih h

/-! ## Endings at one message -/

/-- Whom a reply of this type is for, unless it is left to the built-in handling. -/
def callbackFor (rs : List (Registration σ)) (data : Callback Message σ) (type : UInt16) :
    Option (Callee × Callback Message σ) :=
  if 16 ≤ type.toNat then some (.data, data)
  else (lastFor rs type).map fun (index, handler) => (.handler index, handler)

theorem handed_of_some (h : callbackFor rs data m.header.type = some (callee, callback)) :
    handed rs data state m = shown callee callback state m := by
  rw [callbackFor] at h
  rw [handed]
  split at h
  · rename_i hdata
    cases h
    rw [if_pos hdata]
  · rename_i hcontrol
    obtain ⟨found, hfound, heq⟩ := Option.map_eq_some_iff.mp h
    cases heq
    rw [if_neg hcontrol, hfound]

theorem handed_of_none (h : callbackFor rs data m.header.type = none) :
    handed rs data state m = ⟨unhandled m, state, []⟩ := by
  rw [callbackFor] at h
  rw [handed]
  split at h
  · cases h
  · rename_i hcontrol
    rw [if_neg hcontrol, Option.map_eq_none_iff.mp h]

theorem callbackFor_eq_none {type : UInt16} (hcontrol : type.toNat < 16)
    (h : ∀ r ∈ rs, r.type ≠ type) : callbackFor rs data type = none := by
  have hnone : lastFor rs type = none := by
    rw [lastFor, Option.map_eq_none_iff, List.find?_eq_none]
    intro r hr
    rw [List.mem_reverse] at hr
    rw [decide_eq_true_eq]
    exact h r.1 (List.fst_mem_of_mem_zipIdx hr)
  rw [callbackFor, if_neg (Nat.not_le_of_lt hcontrol), hnone]
  rfl

def outcome (code : Int32) : Dispatcher.Ending :=
  if code = 0 then .ok .stopped else .error (.remote (.ofNat code.toInt.natAbs))

theorem outcome_eq_stopped_iff (code : Int32) : outcome code = .ok .stopped ↔ code = 0 := by
  rw [outcome]
  split
  · rename_i hzero
    exact iff_of_true rfl hzero
  · rename_i hcode
    refine iff_of_false ?_ hcode
    intro hstopped
    cases hstopped

/-- The absolute value is not cut off, not even that of the least code. -/
theorem outcome_of_ne {code : Int32} (h : code ≠ 0) :
    ∃ c, outcome code = .error (.remote c) ∧ c.toNat = code.toInt.natAbs := by
  have hlow := code.le_toInt
  have hhigh := code.toInt_lt
  refine ⟨_, if_neg h, ?_⟩
  rw [UInt32.toNat_ofNat']
  omega

theorem outcome_eq_of_neg {code other : Int32} (h : other.toInt = -code.toInt) :
    outcome other = outcome code := by
  have hzero : other = 0 ↔ code = 0 := by
    rw [← Int32.toInt_inj, ← Int32.toInt_inj, h, Int32.toInt_zero]
    omega
  simp only [outcome, hzero, h, Int.natAbs_neg]

end Course

theorem Report.ofMessage?_of_code {m : Message} {code : Int32} (hsize : 20 ≤ m.payload.length)
    (hcode : m.payload.take 4 = Bytes.encodeLE 4 code.toUInt32.toNat) :
    ∃ r, Report.ofMessage? m = some r ∧ r.error = code := by
  refine ⟨_, if_pos hsize, ?_⟩
  have hvalue : Bytes.decodeLE (m.payload.slice 0 4) = code.toUInt32.toNat := by
    have hlt := code.toUInt32.toNat_lt
    rw [Bytes.slice, List.drop_zero, hcode, Bytes.decodeLE_encodeLE]
    exact Nat.mod_eq_of_lt hlt
  show (UInt32.ofNat (Bytes.decodeLE (m.payload.slice 0 4))).toInt32 = code
  rw [hvalue, UInt32.ofNat_toNat, Int32.toInt32_toUInt32]

namespace Dispatcher

variable {σ : Type} (expected : Correlation) (rs : List (Registration σ))
  (data : Callback Message σ) (state : σ) (buffer : Bytes)

theorem run_error {e : DispatchError}
    (h : ((withHandlers expected rs).run data state buffer).result = .error e) : e.code ≠ 0 := by
  rw [(run_ending expected rs data state buffer).1] at h
  exact Course.of_error h

variable {expected rs data state buffer}

theorem runAck_eq_run (d : Dispatcher σ) (state : σ) (buffer : Bytes) :
    d.runAck state buffer = d.run (fun state _ => ⟨.proceed, state, []⟩) state buffer := rfl

/-- A run that comes to a message that ends it does not come to the messages behind. -/
theorem observe_of_ending {front behind : List Message} {m : Message} {ending : Ending} {after : σ}
    {calls : List (Callee × Message)}
    (hrecords : (Stream.ofBytes buffer : Messages).records = front ++ m :: behind)
    (hdrained : (Course.of expected rs data state front).ending = .ok .drained)
    (hends : Course.judge expected rs data (Course.of expected rs data state front).state m =
      ⟨some ending, after, calls⟩) :
    observe expected rs data state buffer =
      ⟨ending, after, (Course.of expected rs data state front).calls ++ calls⟩ := by
  rw [observe_eq_of, hrecords]
  exact Course.of_append_cons_some hdrained hends behind

/-- Every failure of a run, with a data callback or without, has a code that is not zero. A run that
comes to a report without handler of which 20 bytes are there ends at it, as a success if the code
is zero and otherwise with the absolute value of the code. A run that comes to a callback that
answers with an error ends there with its code, and with 22 in the place of zero. It comes to a
message unless the course of the messages in front of it has ended. -/
theorem observe_failure (expected : Correlation) (rs : List (Registration σ))
    (data : Callback Message σ) (state : σ) (buffer : Bytes) :
    let d := withHandlers expected rs
    let full := observe expected rs data state buffer
    (∀ e, (d.run data state buffer).result = .error e → e.Signals) ∧
      (∀ e, (d.runAck state buffer).result = .error e → e.Signals) ∧
      d.runAck state buffer = d.run (fun state _ => ⟨.proceed, state, []⟩) state buffer ∧
      (∀ code : Int32, (Course.outcome code = .ok .stopped ↔ code = 0) ∧
        (code ≠ 0 → ∃ c, Course.outcome code = .error (.remote c) ∧
          c.toNat = code.toInt.natAbs) ∧
        ∀ other : Int32, other.toInt = -code.toInt → Course.outcome other = Course.outcome code) ∧
      ∀ front m behind, (Stream.ofBytes buffer : Messages).records = front ++ m :: behind →
        let earlier := Course.of expected rs data state front
        (earlier.ending ≠ .ok .drained → full = earlier) ∧
          (earlier.ending = .ok .drained → Course.Expects expected m.header →
            (∀ code : Int32, m.header.type = MessageType.error →
              (∀ r ∈ rs, r.type ≠ MessageType.error) → 20 ≤ m.payload.length →
              m.payload.take 4 = Bytes.encodeLE 4 code.toUInt32.toNat →
              full = ⟨Course.outcome code, earlier.state, earlier.calls⟩) ∧
            ∀ callee callback code,
              Course.callbackFor rs data m.header.type = some (callee, callback) →
              (callback earlier.state m).result = .error code →
              full = ⟨.error (.handler (if code = 0 then 22 else code)),
                (callback earlier.state m).state, earlier.calls ++ [(callee, m)]⟩) := by
  intro d full
  refine ⟨fun e he => ?_, fun e he => ?_, runAck_eq_run d state buffer, fun code => ?_, ?_⟩
  · exact DispatchError.signals_of_code_ne_zero (run_error expected rs data state buffer he)
  · rw [runAck_eq_run] at he
    exact DispatchError.signals_of_code_ne_zero (run_error expected rs _ state buffer he)
  · exact ⟨Course.outcome_eq_stopped_iff code, Course.outcome_of_ne,
      fun other hneg => Course.outcome_eq_of_neg hneg⟩
  intro front m behind hrecords earlier
  refine ⟨fun hended => ?_, fun hdrained hexpects => ⟨?_, ?_⟩⟩
  · show observe expected rs data state buffer = earlier
    rw [observe_eq_of, hrecords, Course.of_append]
    exact Course.andThen_of_ne hended _
  · intro code herror hnone hsize hcode
    obtain ⟨r, hreport, rfl⟩ := Report.ofMessage?_of_code hsize hcode
    have hjudge : Course.judge expected rs data earlier.state m =
        ⟨some (Course.outcome r.error), earlier.state, []⟩ := by
      rw [Course.judge_of_expects hexpects,
        Course.handed_of_none (Course.callbackFor_eq_none (herror ▸ by decide) (herror ▸ hnone)),
        Course.unhandled_of_report herror hreport, Course.outcome]
    have hends := observe_of_ending hrecords hdrained hjudge
    rwa [List.append_nil] at hends
  · intro callee callback code hcallback hanswer
    have hjudge : Course.judge expected rs data earlier.state m =
        ⟨some (.error (.handler (if code = 0 then 22 else code))),
          (callback earlier.state m).state, [(callee, m)]⟩ := by
      rw [Course.judge_of_expects hexpects, Course.handed_of_some hcallback,
        Course.shown_of_error hanswer]
    exact observe_of_ending hrecords hdrained hjudge

/-- The least code behind a data message: it has no place among the system errors. A handler for
reports that answers with zero fails the run instead. -/
theorem observe_failure_least :
    let data : Callback Message Nat := fun count _ => ⟨.proceed, count + 1, []⟩
    let refusing : Registration Nat := ⟨2, fun count _ => ⟨.error 0, count + 5, []⟩⟩
    let reply := Header.encode { size := 16, type := 16 }
    let report := Header.encode { size := 36, type := 2 } ++ Report.encode ⟨Int32.minValue, {}⟩
    let buffer := reply ++ report
    ((withHandlers {} []).run data 0 buffer).result = .error (.remote 2147483648) ∧
      ((withHandlers {} []).runAck 7 buffer).result = .error (.remote 2147483648) ∧
      (DispatchError.remote 2147483648).toSystemError.code? = none ∧
      (observe {} [refusing] data 0 buffer).ending = .error (.handler 22) ∧
      (observe {} [refusing] data 0 buffer).state = 6 ∧
      (DispatchError.handler 22).toSystemError.code? = some 22 := by
  intro data refusing reply report buffer
  let first : Message := ⟨reply, by decide, by decide⟩
  let m : Message := ⟨report, by decide, by decide⟩
  let passing : Callback Message Nat := fun count _ => ⟨.proceed, count, []⟩
  let whole : Messages := .ofBytes buffer
  let back := whole.skip first.span
  have hfirst : Record.first? whole.rest = some first := by decide +kernel
  have hsecond : Record.first? back.rest = some m := by decide +kernel
  have hlast : Record.first? (L := .message) (back.skip m.span).rest = none := by decide +kernel
  have hrecords : whole.records = [first] ++ m :: [] := by
    rw [Stream.records_of_first? hfirst, Stream.records_of_first? hsecond,
      Stream.records_of_none hlast]
    rfl
  have hexpects : Course.Expects {} m.header := by decide
  obtain ⟨hfails, _, _, _, hends⟩ := observe_failure {} [] data 0 buffer
  have hreported := ((hends [first] m [] hrecords).2 rfl hexpects).1 Int32.minValue (by decide)
    (by simp) (by decide) (by decide)
  obtain ⟨_, _, hack, _, hackEnds⟩ := observe_failure {} [] passing 7 buffer
  have hackReported := ((hackEnds [first] m [] hrecords).2 rfl hexpects).1 Int32.minValue
    (by decide) (by simp) (by decide) (by decide)
  obtain ⟨hhandled, _, _, _, hanswers⟩ := observe_failure {} [refusing] data 0 buffer
  have hanswered := ((hanswers [first] m [] hrecords).2 rfl hexpects).2 (.handler 0)
    refusing.handler 0 rfl rfl
  have hleast : Course.outcome Int32.minValue = .error (.remote 2147483648) := by decide
  have hremote : ((withHandlers {} []).run data 0 buffer).result =
      .error (.remote 2147483648) := (congrArg Course.ending hreported).trans hleast
  have hackRemote : ((withHandlers {} []).runAck 7 buffer).result =
      .error (.remote 2147483648) := by
    rw [hack]
    exact (congrArg Course.ending hackReported).trans hleast
  have hhandler : (observe {} [refusing] data 0 buffer).ending = .error (.handler 22) :=
    congrArg Course.ending hanswered
  exact ⟨hremote, hackRemote, (hfails _ hremote).2.2 (by decide), hhandler,
    congrArg Course.state hanswered, ((hhandled _ hhandler).2.1 (by decide)).1⟩

end Dispatcher

end Netlink
