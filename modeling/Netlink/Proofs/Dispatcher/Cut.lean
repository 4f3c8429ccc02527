import Netlink.Proofs.Dispatcher.Run
import Netlink.Proofs.Framing
import Netlink.Proofs.Stream.Cut

/-!
# Runs over parts of a buffer

What a run shows to the outside is the course of its messages, and courses follow one another as
lists of messages do. Main statements: `observe_take`, by which a run over the first bytes of a
buffer is the start of the run over all of it, and `observe_split`, by which a buffer may be
handed over in two parts wherever a message starts.
-/

namespace Netlink

namespace Course

variable {σ : Type}

/-- The course that goes on with `next` in the state of `first`, unless `first` ended the run. -/
def andThen (first : Course σ) (next : σ → Course σ) : Course σ :=
  let later := next first.state
  match first.ending with
  | .ok .drained => ⟨later.ending, later.state, first.calls ++ later.calls⟩
  | .ok .stopped | .error _ => first

theorem andThen_of_drained {first : Course σ} (h : first.ending = .ok .drained)
    (next : σ → Course σ) :
    first.andThen next =
      ⟨(next first.state).ending, (next first.state).state,
        first.calls ++ (next first.state).calls⟩ := by
  rw [andThen, h]

theorem andThen_of_ne {first : Course σ} (h : first.ending ≠ .ok .drained) (next : σ → Course σ) :
    first.andThen next = first := by
  unfold andThen
  split
  · rename_i hdrained
    exact absurd hdrained h
  · rfl
  · rfl

theorem calls_prefix_andThen (first : Course σ) (next : σ → Course σ) :
    first.calls <+: (first.andThen next).calls := by
  by_cases h : first.ending = .ok .drained
  · rw [andThen_of_drained h]
    exact List.prefix_append _ _
  · exact ⟨[], by rw [andThen_of_ne h, List.append_nil]⟩

theorem andThen_calls_append (calls : List (Callee × Message)) (rest : Course σ)
    (next : σ → Course σ) :
    (⟨rest.ending, rest.state, calls ++ rest.calls⟩ : Course σ).andThen next =
      ⟨(rest.andThen next).ending, (rest.andThen next).state,
        calls ++ (rest.andThen next).calls⟩ := by
  obtain ⟨ending, state, earlier⟩ := rest
  cases ending with
  | error e => rfl
  | ok completion =>
      cases completion with
      | stopped => rfl
      | drained => rw [andThen_of_drained rfl, andThen_of_drained rfl, List.append_assoc]

theorem shown_ending_ne (callee : Callee) (callback : Callback Message σ) (state : σ)
    (m : Message) :
    (shown callee callback state m).ending ≠ some (.ok .drained) := by
  cases hanswer : (callback state m).result <;> simp [shown, hanswer]

theorem unhandled_ne (m : Message) : unhandled m ≠ some (.ok .drained) := by
  simp only [unhandled]
  split
  · simp
  · split
    · split
      · simp
      · split <;> simp
    · simp

variable (expected : Correlation) (rs : List (Registration σ)) (data : Callback Message σ)

/-- No message ends a run as if there were none left. -/
theorem judge_ending_ne (state : σ) (m : Message) :
    (judge expected rs data state m).ending ≠ some (.ok .drained) := by
  unfold judge handed
  split
  · simp
  · split
    · simp
    · split
      · exact shown_ending_ne _ _ _ _
      · split
        · exact shown_ending_ne _ _ _ _
        · exact unhandled_ne m

theorem of_append (state : σ) (earlier later : List Message) :
    of expected rs data state (earlier ++ later) =
      (of expected rs data state earlier).andThen fun state => of expected rs data state later := by
  induction earlier generalizing state with
  | nil => rfl
  | cons m earlier ih =>
      rw [List.cons_append]
      cases hjudged : (judge expected rs data state m).ending with
      | some ending =>
          have hends : ending ≠ .ok .drained := by
            rintro rfl
            exact judge_ending_ne expected rs data state m hjudged
          rw [of_cons_some hjudged, of_cons_some hjudged, andThen_of_ne hends]
      | none =>
          rw [of_cons_none hjudged, of_cons_none hjudged, ih]
          exact (andThen_calls_append _ _ _).symm

variable {expected rs data}

theorem of_append_cons_some {state after : σ} {earlier : List Message} {m : Message}
    {ending : Dispatcher.Ending} {calls : List (Callee × Message)}
    (hdrained : (of expected rs data state earlier).ending = .ok .drained)
    (hends : judge expected rs data (of expected rs data state earlier).state m =
      ⟨some ending, after, calls⟩) (later : List Message) :
    of expected rs data state (earlier ++ m :: later) =
      ⟨ending, after, (of expected rs data state earlier).calls ++ calls⟩ := by
  rw [of_append, andThen_of_drained hdrained, of_cons_some (congrArg Judgement.ending hends), hends]

end Course

namespace Dispatcher

variable {σ : Type} (expected : Correlation) (rs : List (Registration σ))
  (data : Callback Message σ) (state : σ)

/-- What a run shows to the outside: its result, the state of the callbacks behind it, and the
calls that callbacks recorded. -/
def observe (buffer : Bytes) : Course σ :=
  let run := (withHandlers expected rs).run data state buffer
  let recordedRun := (withHandlers expected (Course.recordedHandlers rs)).run
    (Course.recorded .data data) (state, []) buffer
  ⟨run.result, run.state, recordedRun.state.2⟩

theorem observe_eq_of (buffer : Bytes) :
    observe expected rs data state buffer =
      Course.of expected rs data state (Stream.ofBytes buffer).records := by
  obtain ⟨hending, hstate⟩ := run_ending expected rs data state buffer
  obtain ⟨_, hrecorded⟩ := run_ending expected (Course.recordedHandlers rs)
    (Course.recorded .data data) (state, []) buffer
  have hcalls := congrArg Prod.snd
    (hrecorded.trans (Course.of_recorded expected rs data state [] _))
  calc observe expected rs data state buffer
      = ⟨_, _, ((withHandlers expected (Course.recordedHandlers rs)).run
          (Course.recorded .data data) (state, []) buffer).state.2⟩ := rfl
    _ = Course.of expected rs data state (Stream.ofBytes buffer).records := by
        rw [hending, hstate, hcalls]
        rfl

/-- A run over a longer buffer goes on where the run over its first bytes ran out of messages. -/
theorem observe_append (front tail : Bytes) :
    ∃ later, observe expected rs data state (front ++ tail) =
      (observe expected rs data state front).andThen fun state =>
        Course.of expected rs data state later := by
  have hfront : (Stream.ofBytes front : Messages).rest =
      (Stream.ofBytes (front ++ tail) : Messages).rest.take front.length :=
    (List.take_left' rfl).symm
  obtain ⟨later, hlater⟩ := Stream.records_take_prefix hfront
  refine ⟨later, ?_⟩
  rw [observe_eq_of, observe_eq_of, ← hlater]
  exact Course.of_append expected rs data state _ _

/-- The first `n` bytes of a buffer hold the messages that end there, which are its first ones. A
run over them makes the first calls of the run over the buffer, and where it came to an end before
the messages ran out, it is that run, whatever bytes follow. -/
theorem observe_take (buffer : Bytes) (n : Nat) :
    let cut : Messages := .ofBytes (buffer.take n)
    let whole : Messages := .ofBytes buffer
    let early := observe expected rs data state (buffer.take n)
    let full := observe expected rs data state buffer
    (Stream.placed cut = (Stream.placed whole).filter fun place => place.1 + place.2.size ≤ n) ∧
      cut.records <+: whole.records ∧ early.calls <+: full.calls ∧
      (early.ending ≠ .ok .drained →
        full = early ∧ ∀ tail, observe expected rs data state (buffer.take n ++ tail) = early) := by
  intro cut whole early full
  have hends : early.ending ≠ .ok .drained → ∀ tail,
      observe expected rs data state (buffer.take n ++ tail) = early := by
    intro hends tail
    obtain ⟨later, hlater⟩ := observe_append expected rs data state (buffer.take n) tail
    rw [hlater]
    exact Course.andThen_of_ne hends _
  have hwhole : buffer.take n ++ buffer.drop n = buffer := List.take_append_drop n buffer
  refine ⟨Stream.placed_take rfl rfl, Stream.records_take_prefix rfl, ?_, fun hstops => ?_⟩
  · obtain ⟨later, hlater⟩ :=
      observe_append expected rs data state (buffer.take n) (buffer.drop n)
    rw [hwhole] at hlater
    show early.calls <+: (observe expected rs data state buffer).calls
    rw [hlater]
    exact Course.calls_prefix_andThen early _
  · have hfull := hends hstops (buffer.drop n)
    rw [hwhole] at hfull
    exact ⟨hfull, hends hstops⟩

/-- A cut inside the third message, which a run that the second one stops does not come to. -/
theorem observe_take_stopped :
    let data : Callback Message Nat := fun count _ => ⟨.proceed, count + 1, []⟩
    let buffer := Header.encode { size := 17, type := 16 } ++ [7, 0, 0, 0] ++
      Header.encode { size := 16, type := 3 } ++ Header.encode { size := 20, type := 16 } ++
      [1, 2, 3, 4]
    let early := observe {} [] data 0 (buffer.take 40)
    early.ending ≠ .ok .drained ∧ observe {} [] data 0 buffer = early ∧
      observe {} [] data 0 (buffer.take 40 ++ [5, 6]) = early := by
  intro data buffer early
  let reply : Message := ⟨Header.encode { size := 17, type := 16 } ++ [7], by decide, by decide⟩
  let done : Message := ⟨Header.encode { size := 16, type := 3 }, by decide, by decide⟩
  let cut : Messages := .ofBytes (buffer.take 40)
  have hreply : Record.first? cut.rest = some reply := by decide +kernel
  have hdone : Record.first? (Stream.skip cut reply.span).rest = some done := by decide +kernel
  have hgoes : (Course.judge {} [] data 0 reply).ending = none := by decide +kernel
  have hends : (Course.judge {} [] data (Course.judge {} [] data 0 reply).state done).ending =
      some (.ok .stopped) := by decide +kernel
  have hstops : early.ending ≠ .ok .drained := by
    show (observe {} [] data 0 (buffer.take 40)).ending ≠ .ok .drained
    rw [observe_eq_of, Stream.records_of_first? hreply, Stream.records_of_first? hdone,
      Course.of_cons_none hgoes, Course.of_cons_some hends]
    intro hdrained
    cases hdrained
  obtain ⟨_, _, _, hsame⟩ := observe_take {} [] data 0 buffer 40
  obtain ⟨hfull, hany⟩ := hsame hstops
  exact ⟨hstops, hfull, hany [5, 6]⟩

/-- Where an iteration over a buffer stands inside it, the buffer may be cut: a run over it is a
run over the part before and, if that was drained, one over the part behind. Nothing is left over
of the part before, and the part behind holds the messages that the iteration did not reach. -/
theorem observe_split (buffer : Bytes) (n : Nat)
    (hinside : (Messages.after buffer n).offset ≤ buffer.length) :
    let stop := (Messages.after buffer n).offset
    let front : Messages := .ofBytes (buffer.take stop)
    let back : Messages := .ofBytes (buffer.drop stop)
    let whole : Messages := .ofBytes buffer
    observe expected rs data state buffer =
        (observe expected rs data state (buffer.take stop)).andThen
          (fun state => observe expected rs data state (buffer.drop stop)) ∧
      front.last.remaining = 0 ∧ back.records = whole.records.drop n ∧
      back.last.remaining = whole.last.remaining := by
  rw [Messages.after_eq] at hinside ⊢
  intro stop front back whole
  obtain ⟨hclean, happend, hbehind, hleft⟩ := Stream.split_after hinside
  refine ⟨?_, hclean, hbehind, hleft⟩
  have hparts : (fun state => observe expected rs data state (buffer.drop stop)) =
      fun state => Course.of expected rs data state back.records := by
    funext state
    exact observe_eq_of expected rs data state (buffer.drop stop)
  calc observe expected rs data state buffer
      = Course.of expected rs data state (front.records ++ back.records) := by
        rw [observe_eq_of, happend]
    _ = (Course.of expected rs data state front.records).andThen
          fun state => Course.of expected rs data state back.records :=
        Course.of_append expected rs data state _ _
    _ = (observe expected rs data state (buffer.take stop)).andThen
          fun state => observe expected rs data state (buffer.drop stop) := by
        rw [hparts, observe_eq_of]

/-- A cut between two messages, behind the padding of the first. -/
theorem observe_split_padded :
    let data : Callback Message Nat := fun count _ => ⟨.proceed, count + 1, []⟩
    let buffer := Header.encode { size := 17, type := 16 } ++ [7, 0, 0, 0] ++
      Header.encode { size := 18, type := 3 } ++ [8, 9]
    (Messages.after buffer 1).offset = 20 ∧ 20 ≤ buffer.length ∧
      observe {} [] data 0 buffer =
        (observe {} [] data 0 (buffer.take 20)).andThen
          (fun count => observe {} [] data count (buffer.drop 20)) ∧
      (Stream.ofBytes (buffer.take 20) : Messages).last.remaining = 0 := by
  intro data buffer
  have hstop : (Messages.after buffer 1).offset = 20 := by decide +kernel
  have hinside : 20 ≤ buffer.length := by decide
  obtain ⟨hruns, hclean, _, _⟩ := observe_split {} [] data 0 buffer 1 (hstop ▸ hinside)
  rw [hstop] at hruns hclean
  exact ⟨hstop, hinside, hruns, hclean⟩

end Dispatcher

end Netlink
