import Netlink.Attribute.DataType

/-!
# Parse policies

A policy says what becomes of types above a maximum, of payloads that fail their check, and of
bytes after the last complete attribute. `Policy.parse` walks a stream under a policy.
-/

namespace Netlink

inductive Unsupported where
  | skip
  | abort
  deriving DecidableEq, Repr

namespace Unsupported

def all : List Unsupported := [skip, abort]

def name : Unsupported → String
  | skip => "skip"
  | abort => "abort"

def ofName? (text : String) : Option Unsupported := all.find? (·.name == text)

end Unsupported

structure Policy where
  /-- The highest type that is understood, if not every type is. -/
  maxType : Option UInt16 := none
  unsupported : Unsupported := .skip
  /-- Whether bytes after the last complete attribute fail the parse. -/
  rejectTrailing : Bool := false
  /-- What the payloads hold, by type. -/
  kinds : List (Option DataType) := []
  deriving DecidableEq, Repr

namespace Policy

def deliver {σ : Type} (p : Policy) (callback : Callback Attribute σ) (state : σ) (a : Attribute) :
    Outcome (Option (Except AttributeError Verdict)) σ :=
  match a.validateKinds p.kinds with
  | .error e => ⟨some (.error e), state, []⟩
  | .ok () =>
    let answer := callback state a
    { answer with result := if answer.result.isProceed then none else some (.ok answer.result) }

def step {σ : Type} (p : Policy) (callback : Callback Attribute σ) (state : σ) (a : Attribute) :
    Outcome (Option (Except AttributeError Verdict)) σ :=
  match p.maxType with
  | none => p.deliver callback state a
  | some maxType =>
    match a.validateType maxType, p.unsupported with
    | .ok (), _ => p.deliver callback state a
    | .error _, .skip => ⟨none, state, [.attributeSkipped a.type maxType]⟩
    | .error e, .abort => ⟨some (.error e), state, []⟩

def finish (p : Policy) (s : Attributes) : Except AttributeError Verdict :=
  if p.rejectTrailing ∧ 0 < s.remaining then .error (.truncated s.remaining) else .ok .proceed

def parse {σ : Type} (p : Policy) (callback : Callback Attribute σ) (state : σ) (s : Attributes) :
    Outcome (Except AttributeError Verdict) σ :=
  let visited := s.visit (p.step callback) state
  let result := match visited.result with
    | (some result, _) => result
    | (none, s) => p.finish s
  { visited with result }

end Policy

end Netlink
