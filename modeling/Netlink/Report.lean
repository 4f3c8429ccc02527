import Netlink.Attribute.Table
import Netlink.Attribute.Writer
import Netlink.Dispatch.Error

/-!
# Error reports

A peer answers a request with an error message: a signed code, zero for success, and the header of
the request. Behind it stands the payload of the request, unless the report is capped, and then, if
the flags announce them, attributes with details: a text and an offset into the request.
-/

namespace Netlink

structure Report where
  /-- Zero for an acknowledgement. Peers commonly send the code of an error negated. -/
  error : Int32
  request : Header
  deriving DecidableEq, Repr

structure ExtendedAck where
  text : Option String := none
  offset : Option UInt32 := none
  deriving DecidableEq, Repr

namespace Report

def size : Nat := 20

def encode (r : Report) : Bytes := Bytes.encodeLE 4 r.error.toUInt32.toNat ++ r.request.encode

def ofMessage? (m : Message) : Option Report :=
  if size ≤ m.payload.length then
    some {
      error := (UInt32.ofNat (m.payload.slice 0 4).decodeLE).toInt32
      request := .decode (m.payload.slice 4 16) }
  else
    none

theorem ofMessage?_eq_none_iff {m : Message} : ofMessage? m = none ↔ m.payload.length < size := by
  unfold ofMessage?
  split
  · simp only [reduceCtorEq, false_iff]
    omega
  · simp only [true_iff]
    omega

def code (r : Report) : UInt32 := .ofNat r.error.toInt.natAbs

def isAck (r : Report) : Bool := r.error == 0

end Report

namespace ExtendedAck

def textType : UInt16 := 1

def offsetType : UInt16 := 2

/-- Where the attributes of an error message with report `r` start in its payload. -/
def start (flags : UInt16) (r : Report) : Nat :=
  if MessageFlag.isSet flags MessageFlag.capped then Report.size
  else Report.size + (r.request.size.toNat - Message.headerSize)

def ofAttributes (s : Attributes) : ExtendedAck :=
  let table := Table.ofStream s offsetType
  { text := (table.get? textType).bind fun a => a.getText.toOption
    offset := (table.get? offsetType).bind fun a => a.getU32.toOption }

def ofMessage? (m : Message) : Option ExtendedAck :=
  if MessageFlag.isSet m.header.flags MessageFlag.ackDetails then
    (Report.ofMessage? m).map fun r => ofAttributes (.ofMessage m (.ofNat (start m.header.flags r)))
  else
    none

end ExtendedAck

namespace Draft

/-- Makes the draft an error message and appends the report. Where the report does not fit, the
type has been set all the same. -/
def putReport (d : Draft) (r : Report) : Draft × Except DispatchError Unit :=
  let d := d.setType MessageType.error
  match d.extend (.ofNat Report.size) with
  | .error e => (d, .error (.draft e))
  | .ok (region, d) => (d.write region.offset r.encode, .ok ())

/-- Appends the details of a report and the flag that announces them. Where the offset does not
fit, the text has been appended all the same. -/
def putExtendedAck (d : Draft) (ack : ExtendedAck) : Draft × Except DispatchError Unit :=
  let withText : Except AttributeError Draft := match ack.text with
    | none => .ok d
    | some text => d.putTextZ ExtendedAck.textType text
  match withText with
  | .error e => (d, .error (.attr e))
  | .ok d =>
    let withOffset : Except AttributeError Draft := match ack.offset with
      | none => .ok d
      | some offset => d.putU32 ExtendedAck.offsetType offset
    match withOffset with
    | .error e => (d, .error (.attr e))
    | .ok d => (d.setFlags (d.header.flags ||| MessageFlag.ackDetails), .ok ())

end Draft

end Netlink
