import Netlink.Report

/-!
# Dispatch

A dispatcher walks a buffer of replies. Each message must carry the expected port and sequence
number, where zero on either side matches anything. A data message goes to the data callback of
the run, a control message to the handler registered for its type, or else to the built-in
handling: `done` and acknowledgements stop the run, reported errors fail it, the rest is ignored.
The first message that does not let the run proceed decides its result.
-/

namespace Netlink

/-- What every reply must carry. Zero accepts any value. -/
structure Correlation where
  seq : UInt32 := 0
  port : UInt32 := 0
  deriving DecidableEq, Repr

inductive Completion where
  /-- A message ended the run; later ones were not visited. -/
  | stopped
  /-- Every complete message was visited. -/
  | drained
  deriving DecidableEq, Repr

abbrev ControlType := Fin 16

def ControlType.ofType? (type : UInt16) : Option ControlType :=
  if h : type.toNat < 16 then some ⟨type.toNat, h⟩ else none

structure Dispatcher (σ : Type) where
  expected : Correlation
  handlers : ControlType → Option (Callback Message σ)

namespace Dispatcher

variable {σ : Type}

abbrev Ending := Except DispatchError Completion

def new (expected : Correlation) : Dispatcher σ := ⟨expected, fun _ => none⟩

def on (d : Dispatcher σ) (type : UInt16) (handler : Callback Message σ) :
    Except DispatchError (Dispatcher σ) :=
  match ControlType.ofType? type with
  | none => .error (.notControl type)
  | some control =>
    .ok { d with handlers := fun t => if t = control then some handler else d.handlers t }

def overrides (d : Dispatcher σ) : List ControlType :=
  (List.finRange 16).filter fun t => (d.handlers t).isSome

def describe (d : Dispatcher σ) : String :=
  let seq := "seq: " ++ toString d.expected.seq.toNat
  let port := "port_id: " ++ toString d.expected.port.toNat
  let overrides := ", ".intercalate (d.overrides.map fun t => toString t.val)
  "Dispatcher \x7b config: DispatchConfig \x7b " ++ seq ++ ", " ++ port ++ " \x7d, overrides: [" ++
    overrides ++ "] \x7d"

/-- The error of a message that is not the expected reply, and the event that goes with it. -/
def mismatch? (expected : Correlation) (m : Message) : Option (DispatchError × Event) :=
  let got := m.header
  if !m.portOk expected.port then
    some (.portMismatch expected.port got.port, .unexpectedPort expected.port got.port)
  else if !m.seqOk expected.seq then
    some (.sequenceMismatch expected.seq got.seq, .unexpectedSequence expected.seq got.seq)
  else
    none

def ofVerdict : Verdict → Option Ending
  | .proceed => none
  | .stop => some (.ok .stopped)
  | .error code => some (.error (.handler (if code = 0 then Errno.einval else code)))

def callOn (callback : Callback Message σ) (state : σ) (m : Message) : Outcome (Option Ending) σ :=
  let answer := callback state m
  { answer with result := ofVerdict answer.result }

/-- How an error message ends the run, with the event for details that came with it. -/
def reported (m : Message) : Ending × List Event :=
  match Report.ofMessage? m with
  | none => (.error (.malformed m.payloadSize Report.size), [])
  | some r =>
    if r.isAck then
      (.ok .stopped, [])
    else
      let details := (ExtendedAck.ofMessage? m).map fun ack =>
        Event.extendedAck r.code ack.text ack.offset
      (.error (.remote r.code), details.toList)

def builtIn (state : σ) (m : Message) : Outcome (Option Ending) σ :=
  if m.type = MessageType.error then
    let (ending, events) := reported m
    ⟨some ending, state, events⟩
  else if m.type = MessageType.done then
    ⟨some (.ok .stopped), state, []⟩
  else
    ⟨none, state, []⟩

def route (d : Dispatcher σ) (data : Callback Message σ) (state : σ) (m : Message) :
    Outcome (Option Ending) σ :=
  match mismatch? d.expected m with
  | some (error, event) => ⟨some (.error error), state, [event]⟩
  | none =>
    match ControlType.ofType? m.type with
    | none => callOn data state m
    | some control =>
      match d.handlers control with
      | some handler => callOn handler state m
      | none => builtIn state m

def lastWords (m : Message) : Ending → Event
  | .ok _ => .stopped m.type m.header.seq
  | .error e => .failed m.type e.message

def step (d : Dispatcher σ) (data : Callback Message σ) (state : σ) (m : Message) :
    Outcome (Option Ending) σ :=
  let routed := d.route data state m
  { routed with
    events := .dispatching m.type m.header.flags m.header.seq m.size :: routed.events ++
      (routed.result.map (lastWords m)).toList }

/-- Dispatches every message in `buffer`, handing data messages to `data`. -/
def run (d : Dispatcher σ) (data : Callback Message σ) (state : σ) (buffer : Bytes) :
    Outcome Ending σ :=
  let visited := (Stream.ofBytes buffer).visit (d.step data) state
  match visited.result with
  | (some ending, _) => { visited with result := ending }
  | (none, s) =>
    { visited with
      result := .ok .drained
      events := visited.events ++ (Messages.stall s ++ [.drained s.remaining]) }

/-- Dispatches a reply without data of interest; data messages are ignored. -/
def runAck (d : Dispatcher σ) (state : σ) (buffer : Bytes) : Outcome Ending σ :=
  d.run (fun state _ => ⟨.proceed, state, []⟩) state buffer

end Dispatcher

end Netlink
