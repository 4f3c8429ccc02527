import Netlink.Draft.Error
import Netlink.Errno

/-!
# Attribute errors

Why an attribute could not be read, validated or written, with the text of each cause and the
system error code that a callback reports it under.
-/

namespace Netlink

inductive AttributeError where
  | tooShort (type : UInt16) (size expected : Nat)
  | tooLong (type : UInt16) (size max : Nat)
  | malformed (type : UInt16) (reason : String)
  | unsupported (type maxType : UInt16)
  /-- The attribute would not fit its 16-bit length field. -/
  | tooLarge (type : UInt16) (size max : Nat)
  | invalidText (type : UInt16)
  /-- Bytes were left after the last complete attribute. -/
  | truncated (remaining : Int)
  /-- The message around the attribute could not be changed. -/
  | draft (error : DraftError)
  deriving DecidableEq, Repr

namespace AttributeError

def message : AttributeError → String
  | tooShort type size expected =>
    s!"attribute {type} payload too short ({size} bytes, expected {expected})"
  | tooLong type size max => s!"attribute {type} payload too long ({size} bytes, max {max})"
  | malformed type reason => s!"attribute {type} malformed: {reason}"
  | unsupported type maxType => s!"attribute type {type} unsupported (max {maxType})"
  | tooLarge type size max => s!"attribute {type} too large ({size} bytes, max {max})"
  | invalidText type => s!"attribute {type} payload is not valid UTF-8"
  | truncated remaining => s!"attribute stream truncated ({remaining} bytes left over)"
  | draft error => s!"frame error: {error.message}"

def errno : AttributeError → UInt32
  | tooShort .. | tooLong .. => Errno.erange
  | malformed .. | invalidText .. => Errno.einval
  | unsupported .. => Errno.eopnotsupp
  | tooLarge .. | draft .. => Errno.emsgsize
  | truncated .. => Errno.ebadmsg

end AttributeError

end Netlink
