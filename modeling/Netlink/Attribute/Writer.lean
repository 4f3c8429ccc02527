import Netlink.Attribute
import Netlink.Draft

/-!
# Writing attributes

Appends attributes to a draft. `reserve` writes a header and gives the payload to fill; the other
appends are built on it. A nest is opened with length zero and the attributes appended after it
become its payload when `nestEnd` sets its length; `nestCancel` drops it with all that follows.
-/

namespace Netlink

/-- An attribute that was opened and has no length yet, by its type and its place in the message. -/
structure Nest where
  type : UInt16
  offset : Nat
  headerSize_le : 16 ≤ offset
  aligned : offset % 4 = 0
  deriving DecidableEq

namespace Draft

variable (d : Draft)

def maxAttributeSize : Nat := 65535

def attributeHeader (size : Nat) (type : UInt16) : Bytes :=
  Bytes.encodeLE 2 size ++ Bytes.encodeLE 2 type.toNat

/-- Appends an attribute with `count` zeros as payload, which is the region. -/
def reserve (type : UInt16) (count : UInt64) : Except AttributeError (Region × Draft) :=
  let size := addSat (.ofNat Attribute.headerSize) count
  if maxAttributeSize < size.toNat then
    .error (.tooLarge type size.toNat maxAttributeSize)
  else
    match d.extend size with
    | .error e => .error (.draft e)
    | .ok (region, d) =>
      .ok (⟨region.offset + Attribute.headerSize, count.toNat⟩,
        d.write region.offset (attributeHeader size.toNat type))

/-- Appends an attribute whose payload `fill` leaves in `count` bytes that were zero. -/
def putWith (type : UInt16) (count : UInt64) (fill : Bytes → Bytes) :
    Except AttributeError Draft :=
  (d.reserve type count).map fun (region, d) => d.fill region (fill (d.contents region))

def put (type : UInt16) (payload : Bytes) : Except AttributeError Draft :=
  d.putWith type (.ofNatClamp payload.length) fun _ => payload

def putU8 (type : UInt16) (value : UInt8) : Except AttributeError Draft :=
  d.put type (Bytes.encodeLE 1 value.toNat)

def putU16 (type : UInt16) (value : UInt16) : Except AttributeError Draft :=
  d.put type (Bytes.encodeLE 2 value.toNat)

def putU32 (type : UInt16) (value : UInt32) : Except AttributeError Draft :=
  d.put type (Bytes.encodeLE 4 value.toNat)

def putU64 (type : UInt16) (value : UInt64) : Except AttributeError Draft :=
  d.put type (Bytes.encodeLE 8 value.toNat)

def putBE16 (type : UInt16) (value : UInt16) : Except AttributeError Draft :=
  d.put (type ||| Attribute.networkFlag) (Bytes.encodeBE 2 value.toNat)

def putBE32 (type : UInt16) (value : UInt32) : Except AttributeError Draft :=
  d.put (type ||| Attribute.networkFlag) (Bytes.encodeBE 4 value.toNat)

def putBE64 (type : UInt16) (value : UInt64) : Except AttributeError Draft :=
  d.put (type ||| Attribute.networkFlag) (Bytes.encodeBE 8 value.toNat)

def putFlag (type : UInt16) : Except AttributeError Draft := d.put type []

def putText (type : UInt16) (text : String) : Except AttributeError Draft :=
  d.put type (Bytes.ofText text)

def putTextZ (type : UInt16) (text : String) : Except AttributeError Draft :=
  d.put type (Bytes.ofText text ++ [0])

def nestStart (type : UInt16) : Except AttributeError (Nest × Draft) :=
  match d.extend (.ofNat Attribute.headerSize) with
  | .error e => .error (.draft e)
  | .ok (region, d') =>
    .ok (⟨type, d.size, d.headerSize_le, d.aligned⟩,
      d'.write region.offset (attributeHeader 0 (type ||| Attribute.nestedFlag)))

/-- Closes a nest: its length is all that was written since it was opened. -/
def nestEnd (nest : Nest) : Except AttributeError Draft :=
  if d.size < nest.offset + Attribute.headerSize then
    .error (.draft (.outOfRange nest.offset d.size))
  else
    let size := d.size - nest.offset
    if maxAttributeSize < size then
      .error (.tooLarge nest.type size maxAttributeSize)
    else
      (d.patch nest.offset (Bytes.encodeLE 2 size)).mapError .draft

def nestCancel (nest : Nest) : Except AttributeError Draft :=
  (d.truncate nest.offset).mapError .draft

end Draft

end Netlink
