import Netlink.Message.Kind

/-!
# Events

What parsing and dispatching report on the side, and how each event is written down: its level, its
text and its named fields. A detail that is absent has no field.
-/

namespace Netlink

inductive Event where
  /-- A message iteration found no complete message although bytes were left. -/
  | streamEnded (offset : Nat) (remaining : Int)
  | attributeSkipped (type maxType : UInt16)
  | dispatching (type flags : UInt16) (seq : UInt32) (size : Nat)
  | unexpectedPort (expected got : UInt32)
  | unexpectedSequence (expected got : UInt32)
  | extendedAck (code : UInt32) (text : Option String) (offset : Option UInt32)
  | stopped (type : UInt16) (seq : UInt32)
  | failed (type : UInt16) (error : String)
  | drained (remaining : Int)
  deriving DecidableEq, Repr

namespace Event

inductive Level where
  | trace
  | debug
  | warn
  deriving DecidableEq, Repr

def Level.name : Level → String
  | trace => "trace"
  | debug => "debug"
  | warn => "warn"

inductive Field where
  | number (value : Int)
  | text (value : String)
  deriving DecidableEq, Repr

def level : Event → Level
  | streamEnded .. | dispatching .. => .trace
  | unexpectedPort .. | unexpectedSequence .. => .warn
  | attributeSkipped .. | extendedAck .. | stopped .. | failed .. | drained .. => .debug

def message : Event → String
  | streamEnded .. => "message stream ended before buffer end"
  | attributeSkipped .. => "skipping unsupported attribute"
  | dispatching .. => "dispatching message"
  | unexpectedPort .. => "reply from unexpected port"
  | unexpectedSequence .. => "reply with unexpected sequence number"
  | extendedAck .. => "peer attached extended ack"
  | stopped .. => "dispatch stopped"
  | failed .. => "dispatch failed"
  | drained .. => "dispatch drained buffer"

def fields : Event → List (String × Field)
  | streamEnded offset remaining => [("offset", .number offset), ("remaining", .number remaining)]
  | attributeSkipped type maxType =>
    [("attr_type", .number type.toNat), ("max_type", .number maxType.toNat)]
  | dispatching type flags seq size =>
    [("msg_type", .number type.toNat), ("kind", .text (MessageKind.ofType type).name),
      ("flags", .number flags.toNat), ("seq", .number seq.toNat), ("len", .number size)]
  | unexpectedPort expected got | unexpectedSequence expected got =>
    [("expected", .number expected.toNat), ("got", .number got.toNat)]
  | extendedAck code text offset =>
    [("code", .number code.toNat)] ++ (text.map fun t => ("ext_message", .text t)).toList ++
      (offset.map fun o => ("offset", .number o.toNat)).toList
  | stopped type seq => [("msg_type", .number type.toNat), ("seq", .number seq.toNat)]
  | failed type error => [("msg_type", .number type.toNat), ("error", .text error)]
  | drained remaining => [("remaining", .number remaining)]

end Event

end Netlink
