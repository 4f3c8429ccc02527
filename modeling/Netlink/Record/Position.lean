import Netlink.Record

/-!
# Positions

A position is a word offset into a byte string at which nothing has been checked yet. The caller
keeps a signed count of the bytes that are left, and neither that count nor the offset need be
true. All arithmetic is on 64-bit words, checked or saturating.
-/

namespace Netlink

structure Position (L : Layout) where
  buffer : Bytes
  offset : UInt64

namespace Position

variable {L : Layout}

def bytes? (p : Position L) (count : UInt64) : Option Bytes :=
  (addChecked p.offset count).bind fun stop =>
    if stop.toNat ≤ p.buffer.length then some (p.buffer.slice p.offset.toNat count.toNat) else none

def declared? (p : Position L) : Option UInt64 :=
  (p.bytes? (.ofNat L.lengthWidth)).map fun field => .ofNat (Bytes.decodeLE field)

/-- Whether a complete record starts here, given the count of bytes left. -/
def ok (p : Position L) (remaining : Int64) : Bool :=
  if remaining < 0 then
    false
  else
    match p.declared? with
    | none => false
    | some size =>
      .ofNat L.headerSize ≤ remaining.toUInt64 && .ofNat L.headerSize ≤ size &&
        size ≤ remaining.toUInt64 && (p.bytes? size).isSome

def record? (p : Position L) (remaining : Int64) : Option (Record L) :=
  if p.ok remaining then
    p.declared?.bind fun size => (p.bytes? size).bind Record.ofExact?
  else
    none

/-- Steps over the declared length, which counts as zero where its field is outside the buffer.
The count of bytes left goes down by the same amount. -/
def next (p : Position L) (remaining : Int64) : Position L × Int64 :=
  let step := align (p.declared?.getD 0)
  ({ p with offset := addSat p.offset step }, .ofIntClamp (remaining.toInt - step.toNat))

end Position

end Netlink
