import Netlink.Draft.Error
import Netlink.Message

/-!
# Drafts

A draft is a message under construction at the end of a buffer. Whatever is appended is padded to
the boundary, so a draft and the bytes before it always have an aligned length, which the type
keeps. `extend` appends zeros and gives the region to fill; `patch` and `truncate` change what is
there. A change that is refused leaves no draft behind, so the one before it still stands.
-/

namespace Netlink

@[ext] structure Draft where
  /-- The buffer up to where this message starts. -/
  before : Bytes
  bytes : Bytes
  before_aligned : before.length % 4 = 0
  headerSize_le : 16 ≤ bytes.length
  aligned : bytes.length % 4 = 0
  length_le : bytes.length ≤ 4294967295

/-- A stretch of a draft, by its place in the message. -/
structure Region where
  offset : Nat
  size : Nat
  deriving DecidableEq, Repr

namespace Draft

def maxSize : Nat := 4294967295

/-- Starts a message behind `buffer`, which is padded to the boundary first. -/
def start (buffer : Bytes) : Draft where
  before := buffer ++ Bytes.zeros (roundUp buffer.length - buffer.length)
  bytes := Header.encode { size := 16 }
  before_aligned := by
    have hle := le_roundUp buffer.length
    have hmod := roundUp_mod buffer.length
    simp only [List.length_append, Bytes.length_zeros]
    omega
  headerSize_le := by simp
  aligned := by simp
  length_le := by simp

def buffer (d : Draft) : Bytes := d.before ++ d.bytes

def size (d : Draft) : Nat := d.bytes.length

def payloadSize (d : Draft) : Nat := d.size - Message.headerSize

def header (d : Draft) : Header := .decode d.bytes

def message? (d : Draft) : Option Message := Message.parse? d.bytes

/-- Overwrites bytes from `offset` on; what would reach past the end is dropped. -/
def write (d : Draft) (offset : Nat) (data : Bytes) : Draft :=
  { d with
    bytes := d.bytes.overwrite offset data
    headerSize_le := by simpa using d.headerSize_le
    aligned := by simpa using d.aligned
    length_le := by simpa using d.length_le }

def writePayload (d : Draft) (offset : Nat) (data : Bytes) : Draft :=
  d.write (Message.headerSize + offset) data

def setLength (d : Draft) : Draft := d.write 0 (Bytes.encodeLE 4 d.size)

def setType (d : Draft) (type : UInt16) : Draft := d.write 4 (Bytes.encodeLE 2 type.toNat)

def setFlags (d : Draft) (flags : UInt16) : Draft := d.write 6 (Bytes.encodeLE 2 flags.toNat)

def setSeq (d : Draft) (seq : UInt32) : Draft := d.write 8 (Bytes.encodeLE 4 seq.toNat)

def setPort (d : Draft) (port : UInt32) : Draft := d.write 12 (Bytes.encodeLE 4 port.toNat)

def contents (d : Draft) (region : Region) : Bytes := d.bytes.slice region.offset region.size

/-- Copies `data` to the front of `region`, cut to the size of the region. -/
def fill (d : Draft) (region : Region) (data : Bytes) : Draft :=
  d.write region.offset (data.take region.size)

def grow (d : Draft) (count : Nat) (haligned : count % 4 = 0) (hfits : d.size + count ≤ maxSize) :
    Draft :=
  setLength
    { d with
      bytes := d.bytes ++ Bytes.zeros count
      headerSize_le := by
        have := d.headerSize_le
        simp only [List.length_append]
        omega
      aligned := by
        have := d.aligned
        simp only [List.length_append, Bytes.length_zeros]
        omega
      length_le := by simpa [size, maxSize] using hfits }

def cut (d : Draft) (count : Nat) (hheader : Message.headerSize ≤ count) (hfits : count ≤ d.size)
    (haligned : count % 4 = 0) : Draft :=
  have hlength : (d.bytes.take count).length = count := List.length_take_of_le hfits
  setLength
    { d with
      bytes := d.bytes.take count
      headerSize_le := hlength.symm ▸ hheader
      aligned := hlength.symm ▸ haligned
      length_le := hlength.symm ▸ Nat.le_trans hfits d.length_le }

/-- Appends `count` zeros and padding. The region is the zeros without the padding. -/
def extend (d : Draft) (count : UInt64) : Except DraftError (Region × Draft) :=
  if h : d.size + (align count).toNat ≤ maxSize then
    .ok (⟨d.size, count.toNat⟩, d.grow (align count).toNat (align_mod count) h)
  else
    .error (.tooLarge (min (d.size + (align count).toNat) (1 <<< 64 - 1)) maxSize)

/-- Overwrites `data` at `offset`, all of it or nothing. -/
def patch (d : Draft) (offset : Nat) (data : Bytes) : Except DraftError Draft :=
  if offset + data.length ≤ d.size then .ok (d.write offset data)
  else .error (.outOfRange offset d.size)

/-- Cuts the message to `count` bytes, which must be aligned and cover the header. -/
def truncate (d : Draft) (count : Nat) : Except DraftError Draft :=
  if h : Message.headerSize ≤ count ∧ count ≤ d.size ∧ count % 4 = 0 then
    .ok (d.cut count h.1 h.2.1 h.2.2)
  else
    .error (.outOfRange count d.size)

theorem bytes_write (d : Draft) (offset : Nat) (data : Bytes) :
    (d.write offset data).bytes = d.bytes.overwrite offset data := rfl

@[simp] theorem size_write (d : Draft) (offset : Nat) (data : Bytes) :
    (d.write offset data).size = d.size := Bytes.length_overwrite _ _ _

theorem size_grow (d : Draft) (count : Nat) (haligned : count % 4 = 0)
    (hfits : d.size + count ≤ maxSize) : (d.grow count haligned hfits).size = d.size + count := by
  simp [grow, setLength, size, write]

theorem size_cut (d : Draft) (count : Nat) (hheader : Message.headerSize ≤ count)
    (hfits : count ≤ d.size) (haligned : count % 4 = 0) :
    (d.cut count hheader hfits haligned).size = count := by
  have hlength : (d.bytes.take count).length = count := List.length_take_of_le hfits
  simp only [cut, setLength, size_write]
  exact hlength

end Draft

end Netlink
