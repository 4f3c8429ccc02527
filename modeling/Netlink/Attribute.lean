import Netlink.Attribute.Error
import Netlink.Message

/-!
# Attributes

An attribute is a record with a four-byte header: length and type. The two high bits of the type
are flags, for a payload that is itself a stream of attributes and for one in network byte order;
the other bits are the type proper. Numbers are read from the front of the payload, text up to the
first zero byte.
-/

namespace Netlink

abbrev Attribute := Record .attr

abbrev Attributes := Stream .attr

namespace Attribute

def headerSize : Nat := 4

/-- The payload is a stream of attributes. -/
def nestedFlag : UInt16 := 0x8000

def networkFlag : UInt16 := 0x4000

def typeMask : UInt16 := ~~~(nestedFlag ||| networkFlag)

abbrev parse? (bs : Bytes) : Option Attribute := Record.first? bs

variable (a : Attribute)

/-- The type as stored, with its flag bits. -/
def rawType : UInt16 := .ofNat (a.bytes.slice 2 2).decodeLE

def type : UInt16 := a.rawType &&& typeMask

def isNested : Bool := a.rawType &&& nestedFlag != 0

def isNetworkOrder : Bool := a.rawType &&& networkFlag != 0

def nested : Attributes := .ofBytes a.payload

def front (width : Nat) : Except AttributeError Bytes :=
  if width ≤ a.payload.length then .ok (a.payload.take width)
  else .error (.tooShort a.type a.payloadSize width)

def getU8 : Except AttributeError UInt8 := (a.front 1).map fun bs => .ofNat bs.decodeLE

def getU16 : Except AttributeError UInt16 := (a.front 2).map fun bs => .ofNat bs.decodeLE

def getU32 : Except AttributeError UInt32 := (a.front 4).map fun bs => .ofNat bs.decodeLE

def getU64 : Except AttributeError UInt64 := (a.front 8).map fun bs => .ofNat bs.decodeLE

def getBE16 : Except AttributeError UInt16 := (a.front 2).map fun bs => .ofNat bs.decodeBE

def getBE32 : Except AttributeError UInt32 := (a.front 4).map fun bs => .ofNat bs.decodeBE

def getBE64 : Except AttributeError UInt64 := (a.front 8).map fun bs => .ofNat bs.decodeBE

/-- The text before the first zero byte, or the whole payload if it holds none. -/
def getText : Except AttributeError String :=
  match Bytes.toText? (a.payload.takeWhile (· != 0)) with
  | some text => .ok text
  | none => .error (.invalidText a.type)

end Attribute

namespace Attributes

/-- The attributes of `m` behind an extra header of `offset` bytes. Where the header does not fit,
the stream is empty and its count of remaining bytes negative. -/
def ofMessage (m : Message) (offset : UInt64) : Attributes where
  offset := 0
  rest := m.payload.drop (align offset).toNat
  remaining := m.payload.length - min (align offset).toNat (1 <<< 63 - 1)
  length_rest := by
    have hsize := m.size_lt
    have hpayload : m.payload.length = m.size - 16 := m.length_payload
    simp only [List.length_drop]
    omega

def walk {σ : Type} (callback : Callback Attribute σ) (state : σ) (s : Attributes) :
    Outcome Verdict σ :=
  let step := fun state a =>
    let answer := callback state a
    { answer with result := if answer.result.isProceed then none else some answer.result }
  let visited := s.visit step state
  { visited with result := visited.result.1.getD .proceed }

end Attributes

end Netlink
