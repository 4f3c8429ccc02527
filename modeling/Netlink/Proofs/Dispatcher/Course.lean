import Mathlib.Algebra.Group.Int.Defs
import Mathlib.Algebra.Group.Nat.Defs
import Mathlib.Data.List.Induction
import Netlink.Dispatcher

/-!
# The course of a run

What a dispatch run should come to, told over a list of messages: `judge` says by the rules who is
shown a message and whether the run ends there, and `of` puts the judgements one after another.
Main statement: `of_recorded`, by which callbacks that record the calls to them find the calls
that the course tells of.
-/

namespace Netlink

structure Registration (σ : Type) where
  type : UInt16
  handler : Callback Message σ

/-- Whom a message is shown: the data callback, or the handler that was registered at `index`. -/
inductive Callee where
  | data
  | handler (index : Nat)
  deriving DecidableEq

/-- What comes of one message, with no ending where the run goes on. -/
structure Judgement (σ : Type) where
  ending : Option Dispatcher.Ending
  state : σ
  calls : List (Callee × Message)

structure Course (σ : Type) where
  ending : Dispatcher.Ending
  state : σ
  calls : List (Callee × Message)

namespace Dispatcher

variable {σ : Type}

def register (d : Dispatcher σ) (r : Registration σ) : Dispatcher σ :=
  match d.on r.type r.handler with
  | .ok registered => registered
  | .error _ => d

def withHandlers (expected : Correlation) (rs : List (Registration σ)) : Dispatcher σ :=
  rs.foldl register (new expected)

end Dispatcher

/-! ## The rules -/

def Agree (expected got : UInt32) : Prop := expected = 0 ∨ got = 0 ∨ expected = got

instance (expected got : UInt32) : Decidable (Agree expected got) :=
  inferInstanceAs (Decidable (_ ∨ _ ∨ _))

namespace Course

variable {σ : Type}

def shown (callee : Callee) (callback : Callback Message σ) (state : σ) (m : Message) :
    Judgement σ :=
  let answer := callback state m
  let ending : Option Dispatcher.Ending := match answer.result with
    | .proceed => none
    | .stop => some (.ok .stopped)
    | .error code => some (.error (.handler (if code = 0 then 22 else code)))
  ⟨ending, answer.state, [(callee, m)]⟩

/-- How a control message without handler ends the run: type 3 says that all is done, type 2
reports a signed code at the start of a payload of 20 bytes or more, other types mean nothing. -/
def unhandled (m : Message) : Option Dispatcher.Ending :=
  if m.header.type = 3 then
    some (.ok .stopped)
  else if m.header.type = 2 then
    let code := Bytes.decodeLE (m.payload.take 4)
    if m.payload.length < 20 then some (.error (.malformed m.payload.length 20))
    else if code = 0 then some (.ok .stopped)
    else some (.error (.remote (.ofNat (if code < 2 ^ 31 then code else 2 ^ 32 - code))))
  else
    none

def lastFor (rs : List (Registration σ)) (type : UInt16) : Option (Nat × Callback Message σ) :=
  (rs.zipIdx.reverse.find? fun r => r.1.type = type).map fun r => (r.2, r.1.handler)

variable (expected : Correlation) (rs : List (Registration σ)) (data : Callback Message σ)

def handed (state : σ) (m : Message) : Judgement σ :=
  if 16 ≤ m.header.type.toNat then
    shown .data data state m
  else
    match lastFor rs m.header.type with
    | some (index, handler) => shown (.handler index) handler state m
    | none => ⟨unhandled m, state, []⟩

def judge (state : σ) (m : Message) : Judgement σ :=
  if ¬Agree expected.port m.header.port then
    ⟨some (.error (.portMismatch expected.port m.header.port)), state, []⟩
  else if ¬Agree expected.seq m.header.seq then
    ⟨some (.error (.sequenceMismatch expected.seq m.header.seq)), state, []⟩
  else
    handed rs data state m

def of (state : σ) : List Message → Course σ
  | [] => ⟨.ok .drained, state, []⟩
  | m :: later =>
    let here := judge expected rs data state m
    match here.ending with
    | some ending => ⟨ending, here.state, here.calls⟩
    | none =>
      let rest := of here.state later
      { rest with calls := here.calls ++ rest.calls }

variable {expected rs data} {state : σ} {m : Message}

theorem of_cons_some {ending : Dispatcher.Ending}
    (h : (judge expected rs data state m).ending = some ending) (later : List Message) :
    of expected rs data state (m :: later) =
      ⟨ending, (judge expected rs data state m).state, (judge expected rs data state m).calls⟩ := by
  simp only [of, h]

theorem of_cons_none (h : (judge expected rs data state m).ending = none)
    (later : List Message) :
    of expected rs data state (m :: later) =
      { of expected rs data (judge expected rs data state m).state later with
        calls := (judge expected rs data state m).calls ++
          (of expected rs data (judge expected rs data state m).state later).calls } := by
  simp only [of, h]

theorem lastFor_append (rs : List (Registration σ)) (r : Registration σ) (type : UInt16) :
    lastFor (rs ++ [r]) type =
      if r.type = type then some (rs.length, r.handler) else lastFor rs type := by
  have hindexed : (rs ++ [r]).zipIdx.reverse = (r, rs.length) :: rs.zipIdx.reverse := by
    rw [List.zipIdx_append, List.reverse_append, Nat.zero_add]
    rfl
  rw [lastFor, hindexed]
  by_cases h : r.type = type
  · rw [List.find?_cons_of_pos (by simpa using h), if_pos h]
    rfl
  · rw [List.find?_cons_of_neg (by simpa using h), if_neg h]
    rfl

/-! ## Recorded calls -/

def recorded (callee : Callee) (callback : Callback Message σ) :
    Callback Message (σ × List (Callee × Message)) :=
  fun (state, calls) m =>
    let answer := callback state m
    ⟨answer.result, (answer.state, calls ++ [(callee, m)]), answer.events⟩

def recordedHandlers (rs : List (Registration σ)) :
    List (Registration (σ × List (Callee × Message))) :=
  rs.mapIdx fun index r => ⟨r.type, recorded (.handler index) r.handler⟩

theorem lastFor_recordedHandlers (rs : List (Registration σ)) (type : UInt16) :
    lastFor (recordedHandlers rs) type =
      (lastFor rs type).map fun (index, handler) => (index, recorded (.handler index) handler) := by
  induction rs using List.reverseRecOn with
  | nil => rfl
  | append_singleton rs r ih =>
      rw [recordedHandlers, List.mapIdx_concat, lastFor_append, lastFor_append,
        List.length_mapIdx]
      split
      · rfl
      · exact ih

theorem shown_recorded (callee : Callee) (callback : Callback Message σ) (state : σ)
    (calls : List (Callee × Message)) (m : Message) :
    shown callee (recorded callee callback) (state, calls) m =
      let plain := shown callee callback state m
      ⟨plain.ending, (plain.state, calls ++ plain.calls), plain.calls⟩ := rfl

theorem judge_recorded (expected : Correlation) (rs : List (Registration σ))
    (data : Callback Message σ) (state : σ) (calls : List (Callee × Message)) (m : Message) :
    judge expected (recordedHandlers rs) (recorded .data data) (state, calls) m =
      let plain := judge expected rs data state m
      ⟨plain.ending, (plain.state, calls ++ plain.calls), plain.calls⟩ := by
  unfold judge handed
  rw [lastFor_recordedHandlers]
  split
  · simp only [List.append_nil]
  · split
    · simp only [List.append_nil]
    · split
      · exact shown_recorded .data data state calls m
      · cases lastFor rs m.header.type with
        | none => simp only [Option.map_none, List.append_nil]
        | some found => exact shown_recorded (.handler found.1) found.2 state calls m

theorem of_recorded (expected : Correlation) (rs : List (Registration σ))
    (data : Callback Message σ) (state : σ) (calls : List (Callee × Message))
    (messages : List Message) :
    (of expected (recordedHandlers rs) (recorded .data data) (state, calls) messages).state =
      ((of expected rs data state messages).state,
        calls ++ (of expected rs data state messages).calls) := by
  induction messages generalizing state calls with
  | nil => simp only [of, List.append_nil]
  | cons m later ih =>
      have hjudge := judge_recorded expected rs data state calls m
      cases hjudged : (judge expected rs data state m).ending with
      | some ending =>
          have hending : (judge expected (recordedHandlers rs) (recorded .data data)
              (state, calls) m).ending = some ending := by
            rw [hjudge]
            exact hjudged
          rw [of_cons_some hending, of_cons_some hjudged, hjudge]
      | none =>
          have hending : (judge expected (recordedHandlers rs) (recorded .data data)
              (state, calls) m).ending = none := by
            rw [hjudge]
            exact hjudged
          rw [of_cons_none hending, of_cons_none hjudged, hjudge]
          rw [ih, List.append_assoc]

end Course

end Netlink
