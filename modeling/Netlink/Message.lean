import Netlink.Message.Header
import Netlink.Message.Kind
import Netlink.Record.Stream

/-!
# Messages

A message is a record with a sixteen-byte header. Its payload may open with an extra header that
belongs to a subsystem; offsets behind it are rounded up on words, since a caller chooses them.
-/

namespace Netlink

abbrev Message := Record .message

abbrev Messages := Stream .message

namespace Message

def headerSize : Nat := 16

def sizeFor? (n : UInt64) : Option UInt64 := addChecked n (.ofNat headerSize)

def alignedSizeFor? (n : UInt64) : Option UInt64 := (sizeFor? n).map align

abbrev parse? (bs : Bytes) : Option Message := Record.first? bs

variable (m : Message)

def header : Header := .decode m.bytes

def type : UInt16 := m.header.type

def isControl : Bool := MessageType.isControl m.type

/-- The payload behind an extra header of `offset` bytes, if that fits. -/
def payloadAt? (offset : UInt64) : Option Bytes :=
  if (align offset).toNat ≤ m.payload.length then some (m.payload.drop (align offset).toNat)
  else none

/-- Whether two sequence numbers or two ports match. Zero matches anything. -/
def matching (got expected : UInt32) : Bool := got == 0 || expected == 0 || got == expected

def seqOk (expected : UInt32) : Bool := matching m.header.seq expected

def portOk (expected : UInt32) : Bool := matching m.header.port expected

end Message

namespace Messages

def stall (s : Messages) : List Event :=
  if 0 < s.remaining then [.streamEnded s.offset s.remaining] else []

/-- One step of an iteration; a step that finds no message stays where it is. -/
def next (s : Messages) : Outcome (Option Message) Messages :=
  match s.next? with
  | some (m, t) => ⟨some m, t, []⟩
  | none => ⟨none, s, s.stall⟩

end Messages

end Netlink
