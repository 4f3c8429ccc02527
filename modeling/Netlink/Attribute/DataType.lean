import Netlink.Attribute

/-!
# Data types of attributes

What a payload is expected to hold, and the checks that follow: a size, for strings at least one
byte, for terminated strings a final zero. `validateSize` takes the size from its caller, for
payloads whose size the data type does not tell.
-/

namespace Netlink

inductive DataType where
  | unspec
  | u8
  | u16
  | u32
  | u64
  | string
  | flag
  | msecs
  | nested
  | nestedCompat
  | nulString
  | binary
  deriving DecidableEq, Repr

namespace DataType

def all : List DataType :=
  [unspec, u8, u16, u32, u64, string, flag, msecs, nested, nestedCompat, nulString, binary]

def name : DataType → String
  | unspec => "unspec"
  | u8 => "u8"
  | u16 => "u16"
  | u32 => "u32"
  | u64 => "u64"
  | string => "string"
  | flag => "flag"
  | msecs => "msecs"
  | nested => "nested"
  | nestedCompat => "nested_compat"
  | nulString => "nul_string"
  | binary => "binary"

def ofName? (text : String) : Option DataType := all.find? (·.name == text)

/-- The payload size that the data type fixes, or zero. -/
def expectedSize : DataType → Nat
  | u8 => 1
  | u16 => 2
  | u32 => 4
  | u64 | msecs => 8
  | unspec | string | flag | nested | nestedCompat | nulString | binary => 0

end DataType

namespace Attribute

variable (a : Attribute)

def validateContent (kind : DataType) : Except AttributeError Unit :=
  let size := a.payloadSize
  match kind with
  | .flag => if 0 < size then .error (.tooLong a.type size 0) else .ok ()
  | .string => if size = 0 then .error (.tooShort a.type size 1) else .ok ()
  | .nulString =>
    if size = 0 then .error (.tooShort a.type size 1)
    else if a.payload.getLast? = some 0 then .ok ()
    else .error (.malformed a.type "missing NUL terminator")
  | .nested =>
    if 0 < size ∧ size < headerSize then .error (.tooShort a.type size headerSize) else .ok ()
  | .unspec | .u8 | .u16 | .u32 | .u64 | .msecs | .nestedCompat | .binary => .ok ()

/-- Checks the payload against `kind` and the size `expected`, where zero leaves the size open. -/
def validateSize (kind : DataType) (expected : Nat) : Except AttributeError Unit :=
  let size := a.payloadSize
  if size < expected then
    .error (.tooShort a.type size expected)
  else
    match a.validateContent kind with
    | .error e => .error e
    | .ok () =>
      if 0 < expected ∧ expected < size then .error (.tooLong a.type size expected) else .ok ()

def validate (kind : DataType) : Except AttributeError Unit :=
  a.validateSize kind kind.expectedSize

def validateType (maxType : UInt16) : Except AttributeError Unit :=
  if maxType < a.type then .error (.unsupported a.type maxType) else .ok ()

/-- Checks the payload against the entry for its type. A type without an entry passes. -/
def validateKinds (kinds : List (Option DataType)) : Except AttributeError Unit :=
  match kinds[a.type.toNat]?.join with
  | some kind => a.validate kind
  | none => .ok ()

end Attribute

end Netlink
