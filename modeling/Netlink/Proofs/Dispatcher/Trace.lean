import Netlink.Proofs.Dispatcher.Cut

/-!
# What a run reports

The events of a run come from the iteration, from the handling of single messages and from the run
itself, and callbacks report events of their own in between. With those put apart, the list of
events says which messages were visited, how the run ended and whether bytes were left over. Main
statement: `run_trace`, for every run.
-/

namespace Netlink

/-! ## Lists that were put together -/

/-- `whole` consists of `left` and `right`, each in its order. -/
inductive Interleaved {α : Type} : List α → List α → List α → Prop
  | nil : Interleaved [] [] []
  | left {a : α} {left right whole : List α} (h : Interleaved left right whole) :
      Interleaved (a :: left) right (a :: whole)
  | right {a : α} {left right whole : List α} (h : Interleaved left right whole) :
      Interleaved left (a :: right) (a :: whole)

namespace Interleaved

variable {α : Type} {left right whole : List α}

theorem append (h : Interleaved left right whole) {left' right' whole' : List α}
    (h' : Interleaved left' right' whole') :
    Interleaved (left ++ left') (right ++ right') (whole ++ whole') := by
  induction h with
  | nil => exact h'
  | left _ ih => exact .left ih
  | right _ ih => exact .right ih

theorem of_left (left : List α) : Interleaved left [] left := by
  induction left with
  | nil => exact .nil
  | cons a left ih => exact .left ih

theorem of_right (right : List α) : Interleaved [] right right := by
  induction right with
  | nil => exact .nil
  | cons a right ih => exact .right ih

theorem append_left (h : Interleaved left right whole) (more : List α) :
    Interleaved (left ++ more) right (whole ++ more) := by
  have hmore := h.append (of_left more)
  rwa [List.append_nil] at hmore

end Interleaved

/-! ## Events of callbacks put apart -/

/-- `quiet` is `plain` without the events of callbacks, which stand behind the state instead, where
`kept` stood before. -/
structure Muted {α σ : Type} (kept : List Event) (plain : Outcome α σ)
    (quiet : Outcome α (σ × List Event)) : Prop where
  result : quiet.result = plain.result
  state : quiet.state.1 = plain.state
  events : ∃ own, quiet.state.2 = kept ++ own ∧ Interleaved quiet.events own plain.events

namespace Stream

variable {α σ β : Type} {step : σ → α → Outcome (Option β) σ}
  {quiet : σ × List Event → α → Outcome (Option β) (σ × List Event)}

theorem muted_visitList (h : ∀ state kept a, Muted kept (step state a) (quiet (state, kept) a))
    (state : σ) (kept : List Event) (items : List α) :
    Muted kept (visitList step state items) (visitList quiet (state, kept) items) := by
  induction items generalizing state kept with
  | nil => exact ⟨rfl, rfl, [], (List.append_nil kept).symm, .nil⟩
  | cons a later ih =>
      obtain ⟨hresult, hstate, own, hkept, hevents⟩ := h state kept a
      cases hstep : (step state a).result with
      | some result =>
          rw [hstep] at hresult
          rw [visitList_cons_some hstep, visitList_cons_some hresult]
          exact ⟨rfl, hstate, own, hkept, hevents⟩
      | none =>
          rw [hstep] at hresult
          have hnext : (quiet (state, kept) a).state = ((step state a).state, kept ++ own) :=
            Prod.ext hstate hkept
          obtain ⟨hlater, hfinal, rest, hall, hothers⟩ := ih (step state a).state (kept ++ own)
          rw [visitList_cons_none hstep, visitList_cons_none hresult, hnext]
          refine ⟨hlater, hfinal, own ++ rest, ?_, hevents.append hothers⟩
          rw [hall, List.append_assoc]

end Stream

namespace Dispatcher

variable {σ : Type}

def apart (callback : Callback Message σ) : Callback Message (σ × List Event) :=
  fun (state, kept) m =>
    let answer := callback state m
    ⟨answer.result, (answer.state, kept ++ answer.events), []⟩

def muted (d : Dispatcher σ) : Dispatcher (σ × List Event) :=
  ⟨d.expected, fun control => (d.handlers control).map apart⟩

@[simp] theorem expected_muted (d : Dispatcher σ) : d.muted.expected = d.expected := rfl

@[simp] theorem handlers_muted (d : Dispatcher σ) (control : ControlType) :
    d.muted.handlers control = (d.handlers control).map apart := rfl

variable (d : Dispatcher σ) (data : Callback Message σ) (state : σ) (kept : List Event)

theorem muted_callOn (callback : Callback Message σ) (m : Message) :
    Muted kept (callOn callback state m) (callOn (apart callback) (state, kept) m) :=
  ⟨rfl, rfl, (callback state m).events, rfl, .of_right _⟩

theorem muted_builtIn (m : Message) : Muted kept (builtIn state m) (builtIn (state, kept) m) := by
  unfold builtIn
  split
  · exact ⟨rfl, rfl, [], (List.append_nil kept).symm, .of_left _⟩
  · split <;> exact ⟨rfl, rfl, [], (List.append_nil kept).symm, .nil⟩

theorem muted_route (m : Message) :
    Muted kept (d.route data state m) (d.muted.route (apart data) (state, kept) m) := by
  unfold route
  rw [expected_muted]
  cases mismatch? d.expected m with
  | some found => exact ⟨rfl, rfl, [], (List.append_nil kept).symm, .of_left _⟩
  | none =>
      cases ControlType.ofType? m.type with
      | none => exact muted_callOn state kept data m
      | some control =>
          simp only [handlers_muted]
          cases d.handlers control with
          | none => exact muted_builtIn state kept m
          | some handler => exact muted_callOn state kept handler m

theorem muted_step (m : Message) :
    Muted kept (d.step data state m) (d.muted.step (apart data) (state, kept) m) := by
  obtain ⟨hresult, hstate, own, hkept, hevents⟩ := muted_route d data state kept m
  refine ⟨hresult, hstate, own, hkept, ?_⟩
  unfold step
  simp only [hresult]
  exact .left (hevents.append_left _)

/-- Callbacks are told the same and answer the same when their events are put apart. -/
theorem muted_run (buffer : Bytes) :
    Muted kept (d.run data state buffer) (d.muted.run (apart data) (state, kept) buffer) := by
  obtain ⟨hresult, hstate, own, hkept, hevents⟩ := Stream.muted_visitList
    (muted_step d data) state kept (Stream.ofBytes buffer : Messages).records
  rw [run_eq_visitList, run_eq_visitList]
  simp only [hresult]
  split
  · exact ⟨rfl, hstate, own, hkept, hevents⟩
  · exact ⟨rfl, hstate, own, hkept, hevents.append_left _⟩

/-! ## What is left when callbacks are silent -/

def warning? (m : Message) : DispatchError → Option Event
  | .portMismatch expected got => some (.unexpectedPort expected got)
  | .sequenceMismatch expected got => some (.unexpectedSequence expected got)
  | .remote code =>
    (ExtendedAck.ofMessage? m).map fun ack => .extendedAck code ack.text ack.offset
  | .malformed .. | .handler .. | .notControl .. | .draft .. | .attr .. => none

/-- What is reported of a message on the way to the ending of the run, if it ends there. -/
def remarks (m : Message) : Option Ending → List Event
  | some (.error e) => (warning? m e).toList
  | some (.ok _) | none => []

theorem remarks_ofVerdict (m : Message) (verdict : Verdict) :
    remarks m (ofVerdict verdict) = [] := by
  cases verdict <;> rfl

theorem events_builtIn (m : Message) :
    (builtIn state m).events = remarks m (builtIn state m).result := by
  unfold builtIn
  split
  · show (reported m).2 = remarks m (some (reported m).1)
    unfold reported
    split
    · rfl
    · split <;> rfl
  · split <;> rfl

theorem events_route (quiet : σ × List Event) (m : Message) :
    (d.muted.route (apart data) quiet m).events =
      remarks m (d.muted.route (apart data) quiet m).result := by
  unfold route
  rw [expected_muted]
  cases hmismatch : mismatch? d.expected m with
  | some found =>
      unfold mismatch? at hmismatch
      simp only at hmismatch
      split at hmismatch
      · cases hmismatch; rfl
      · split at hmismatch
        · cases hmismatch; rfl
        · cases hmismatch
  | none =>
      cases ControlType.ofType? m.type with
      | none => exact (remarks_ofVerdict m _).symm
      | some control =>
          simp only [handlers_muted]
          cases d.handlers control with
          | none => exact events_builtIn quiet m
          | some handler => exact (remarks_ofVerdict m _).symm

def announced (m : Message) : Event := .dispatching m.type m.header.flags m.header.seq m.size

theorem events_step (quiet : σ × List Event) (m : Message) :
    (d.muted.step (apart data) quiet m).events =
      announced m :: remarks m (d.muted.step (apart data) quiet m).result ++
        ((d.muted.step (apart data) quiet m).result.map (lastWords m)).toList := by
  unfold step
  simp only [events_route]
  rfl

end Dispatcher

namespace Course

variable {σ : Type}

/-- The messages of a course, up to the one at which it ends. -/
def visited (expected : Correlation) (rs : List (Registration σ)) (data : Callback Message σ)
    (state : σ) : List Message → List Message
  | [] => []
  | m :: later =>
    let here := judge expected rs data state m
    match here.ending with
    | some _ => [m]
    | none => m :: visited expected rs data here.state later

variable {expected : Correlation} {rs : List (Registration σ)} {data : Callback Message σ}
  {state : σ} {m : Message}

theorem visited_cons_some {ending : Dispatcher.Ending}
    (h : (judge expected rs data state m).ending = some ending) (later : List Message) :
    visited expected rs data state (m :: later) = [m] := by
  simp only [visited, h]

theorem visited_cons_none (h : (judge expected rs data state m).ending = none)
    (later : List Message) :
    visited expected rs data state (m :: later) =
      m :: visited expected rs data (judge expected rs data state m).state later := by
  simp only [visited, h]

theorem visited_prefix (messages : List Message) :
    visited expected rs data state messages <+: messages := by
  induction messages generalizing state with
  | nil => exact List.nil_prefix
  | cons m later ih =>
      cases hjudged : (judge expected rs data state m).ending with
      | some ending =>
          rw [visited_cons_some hjudged, List.cons_prefix_cons]
          exact ⟨rfl, List.nil_prefix⟩
      | none =>
          rw [visited_cons_none hjudged, List.cons_prefix_cons]
          exact ⟨rfl, ih⟩

end Course

namespace Dispatcher

variable {σ : Type} (expected : Correlation) (rs : List (Registration σ))
  (data : Callback Message σ)

/-- The events of a visit: one for each message, and behind those of the message that has a result,
what there is to say of it. -/
theorem events_visitList (state : σ) (kept : List Event) (messages : List Message) :
    let outcome := Stream.visitList ((withHandlers expected rs).muted.step (apart data))
      (state, kept) messages
    let visited := Course.visited expected rs data state messages
    match outcome.result with
    | none => visited = messages ∧ outcome.events = visited.map announced
    | some ending => ending ≠ .ok .drained ∧ ∃ earlier m, visited = earlier ++ [m] ∧
        outcome.events =
          visited.map announced ++ (remarks m (some ending) ++ [lastWords m ending]) := by
  induction messages generalizing state kept with
  | nil => exact ⟨rfl, rfl⟩
  | cons m later ih =>
      have hevents := events_step (withHandlers expected rs) data (state, kept) m
      obtain ⟨hending, hstate⟩ := step_eq_judge expected rs data state m
      -- a muted handler decides as the plain one does, so the course of the plain run tells the way
      obtain ⟨hresult, hfinal, _⟩ := muted_step (withHandlers expected rs) data state kept m
      rw [hending] at hresult
      rw [hstate] at hfinal
      cases hjudged : (Course.judge expected rs data state m).ending with
      | some ending =>
          rw [hjudged] at hresult
          rw [hresult] at hevents
          rw [Stream.visitList_cons_some hresult, Course.visited_cons_some hjudged]
          have hends : ending ≠ .ok .drained := by
            rintro rfl
            exact Course.judge_ending_ne expected rs data state m hjudged
          refine ⟨hends, [], m, rfl, ?_⟩
          rw [hevents]
          rfl
      | none =>
          rw [hjudged] at hresult
          rw [hresult] at hevents
          have hlater := ih (Course.judge expected rs data state m).state
            ((withHandlers expected rs).muted.step (apart data) (state, kept) m).state.2
          rw [← hfinal] at hlater
          rw [Stream.visitList_cons_none hresult, Course.visited_cons_none hjudged, hevents,
            ← hfinal]
          simp only at hlater ⊢
          split at hlater
          · rename_i hdrained
            obtain ⟨hall, hothers⟩ := hlater
            rw [hdrained]
            refine ⟨congrArg _ hall, ?_⟩
            rw [hothers]
            rfl
          · rename_i ending hended
            obtain ⟨hends, earlier, last, hvisited, hothers⟩ := hlater
            rw [hended]
            refine ⟨hends, m :: earlier, last, congrArg _ hvisited, ?_⟩
            rw [hothers]
            rfl

/-- The events of a run, with those of its callbacks put apart, which changes nothing else. Each
visited message is announced in its turn. A run that fails says at which ports or sequence numbers
it did, or what details came with the report, and then why. A run that is stopped says so. A run
that comes to the end says whether bytes were left over, where and how many, and then that it is
drained. -/
theorem run_trace (state : σ) (buffer : Bytes) :
    let s : Messages := .ofBytes buffer
    let run := (withHandlers expected rs).run data state buffer
    let quiet := (withHandlers expected rs).muted.run (apart data) (state, []) buffer
    let visited := Course.visited expected rs data state s.records
    (quiet.result = run.result ∧ quiet.state.1 = run.state ∧
        Interleaved quiet.events quiet.state.2 run.events) ∧
      visited <+: s.records ∧
      match run.result with
      | .ok .drained =>
        visited = s.records ∧ s.last.offset + s.last.remaining = buffer.length ∧
          quiet.events = visited.map announced ++
            ((if 0 < s.last.remaining then [.streamEnded s.last.offset s.last.remaining] else []) ++
              [.drained s.last.remaining])
      | .ok .stopped => ∃ earlier m, visited = earlier ++ [m] ∧
          quiet.events = visited.map announced ++ [.stopped m.type m.header.seq]
      | .error e => ∃ earlier m, visited = earlier ++ [m] ∧
          quiet.events = visited.map announced ++
            ((warning? m e).toList ++ [.failed m.type e.message]) := by
  intro s run quiet visited
  obtain ⟨hresult, hstate, own, hkept, hevents⟩ :=
    muted_run (withHandlers expected rs) data state [] buffer
  have htotal : (s.last.offset : Int) + s.last.remaining = buffer.length :=
    (Stream.within_ofBytes buffer).last.total
  refine ⟨⟨hresult, hstate, ?_⟩, Course.visited_prefix _, ?_⟩
  · rw [show quiet.state.2 = own from hkept]
    exact hevents
  · rw [show run.result = quiet.result from hresult.symm]
    have hquiet := run_eq_visitList (withHandlers expected rs).muted (apart data) (state, []) buffer
    have hvisit := events_visitList expected rs data state [] s.records
    simp only at hquiet hvisit
    rw [show quiet = _ from hquiet]
    split at hvisit
    · rename_i hdrained
      obtain ⟨hall, hothers⟩ := hvisit
      rw [hdrained]
      refine ⟨hall, htotal, ?_⟩
      rw [hothers]
      rfl
    · rename_i ending hended
      obtain ⟨hends, earlier, m, hvisited, hothers⟩ := hvisit
      rw [hended]
      cases ending with
      | error e => exact ⟨earlier, m, hvisited, hothers⟩
      | ok completion =>
          cases completion with
          | stopped => exact ⟨earlier, m, hvisited, hothers⟩
          | drained => exact absurd rfl hends

/-- A message and the first five bytes of another. That the run did not come to the end of the
buffer is told by its events alone. -/
example :
    let buffer := Header.encode { size := 16, type := 16, seq := 7 } ++ [20, 0, 0, 0, 17]
    let data : Callback Message Nat := fun count _ => ⟨.proceed, count + 1, []⟩
    ((new {}).run data 0 buffer).events =
      [.dispatching 16 0 7 16, .streamEnded 16 5, .drained 5] := by
  decide +kernel

end Dispatcher

end Netlink
