/-!
# Draft errors

Why a message under construction could not be changed. Sizes and offsets are given in bytes.
-/

namespace Netlink

inductive DraftError where
  /-- The message would not fit its 32-bit length field. -/
  | tooLarge (size max : Nat)
  | outOfRange (offset size : Nat)
  deriving DecidableEq, Repr

def DraftError.message : DraftError → String
  | tooLarge size max => s!"message too large ({size} bytes, max {max})"
  | outOfRange offset size => s!"offset {offset} out of range for message of {size} bytes"

end Netlink
