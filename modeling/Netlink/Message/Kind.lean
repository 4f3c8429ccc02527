/-!
# Message types

Types below `MessageType.firstData` signal at the level of the protocol, the others carry data of
a subsystem. Beside them stand the flag bits of the message header; a bit has more than one name
where requests of different kinds read it differently.
-/

namespace Netlink

namespace MessageType

def noop : UInt16 := 1
def error : UInt16 := 2
def done : UInt16 := 3
def overrun : UInt16 := 4
def firstData : UInt16 := 0x10

def isControl (type : UInt16) : Bool := type < firstData

end MessageType

inductive MessageKind where
  | noop
  | error
  | done
  | overrun
  | reserved
  | data
  deriving DecidableEq, Repr

namespace MessageKind

def ofType (type : UInt16) : MessageKind :=
  if type = MessageType.noop then .noop
  else if type = MessageType.error then .error
  else if type = MessageType.done then .done
  else if type = MessageType.overrun then .overrun
  else if MessageType.isControl type then .reserved
  else .data

def name : MessageKind → String
  | noop => "NOOP"
  | error => "ERROR"
  | done => "DONE"
  | overrun => "OVERRUN"
  | reserved => "RESERVED"
  | data => "DATA"

end MessageKind

namespace MessageFlag

def request : UInt16 := 0x01
def multi : UInt16 := 0x02
def ack : UInt16 := 0x04
def echo : UInt16 := 0x08

/-! Requests that read. -/

def root : UInt16 := 0x100
def matching : UInt16 := 0x200
def atomic : UInt16 := 0x400
def dump : UInt16 := root ||| matching

/-! Requests that write. -/

def replace : UInt16 := 0x100
def exclusive : UInt16 := 0x200
def create : UInt16 := 0x400
def append : UInt16 := 0x800

/-! Error reports. -/

/-- The echoed request was cut down to its header. -/
def capped : UInt16 := 0x100
/-- Attributes with details follow the echoed request. -/
def ackDetails : UInt16 := 0x200

def isSet (flags flag : UInt16) : Bool := flags &&& flag != 0

theorem isSet_or (flags other flag : UInt16) :
    isSet (flags ||| other) flag = (isSet flags flag || isSet other flag) := by
  have hbits : (flags ||| other) &&& flag = flags &&& flag ||| other &&& flag :=
    UInt16.toBitVec_inj.mp BitVec.and_or_distrib_right
  rw [isSet, isSet, isSet, hbits, Bool.eq_iff_iff]
  simp only [bne_iff_ne, Bool.or_eq_true, ne_eq, UInt16.or_eq_zero_iff,
    Decidable.not_and_iff_not_or_not]

end MessageFlag

end Netlink
