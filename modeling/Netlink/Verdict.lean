import Netlink.Event

/-!
# Verdicts and callbacks

A callback is shown one record at a time and answers with a verdict. It may keep a state between
calls and report events; an `Outcome` carries both beside the answer.
-/

namespace Netlink

inductive Verdict where
  | proceed
  | stop
  /-- Stop with a system error code. Zero is not an error code. -/
  | error (code : UInt32)
  deriving DecidableEq, Repr

def Verdict.isProceed : Verdict → Bool
  | .proceed => true
  | .stop | .error _ => false

@[ext] structure Outcome (α σ : Type) where
  result : α
  state : σ
  events : List Event

abbrev Callback (α σ : Type) := σ → α → Outcome Verdict σ

end Netlink
