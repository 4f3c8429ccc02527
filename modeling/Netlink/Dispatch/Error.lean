import Netlink.Attribute.Error

/-!
# Dispatch errors

Why a dispatch run failed, or why a report or a handler was refused, with the text of each cause
and its system error code. `DispatchError.toSystemError` is the failure as the system presents it:
codes of up to 31 bits take the text that the system has for them.
-/

namespace Netlink

inductive DispatchError where
  | portMismatch (expected got : UInt32)
  | sequenceMismatch (expected got : UInt32)
  /-- An error message without room for a report. -/
  | malformed (size need : Nat)
  /-- The peer reported a failure. -/
  | remote (code : UInt32)
  /-- A callback answered with an error. -/
  | handler (code : UInt32)
  /-- A handler was to be registered for a data type. -/
  | notControl (type : UInt16)
  | draft (error : DraftError)
  | attr (error : AttributeError)
  deriving DecidableEq, Repr

structure SystemError where
  code? : Option UInt32
  message : String
  deriving DecidableEq, Repr

namespace DispatchError

/-- Whether the system counts `code` among its error codes, which are signed. -/
def isSystemCode (code : UInt32) : Bool := code.toNat < 1 <<< 31

def describe (code : UInt32) : String :=
  if isSystemCode code then Errno.describe code.toNat else "unknown error"

def hex (n : Nat) : String := "0x" ++ String.ofList (Nat.toDigits 16 n)

def message : DispatchError → String
  | portMismatch expected got => s!"port id mismatch: expected {expected}, got {got}"
  | sequenceMismatch expected got => s!"sequence mismatch: expected {expected}, got {got}"
  | malformed size need => s!"malformed error report: {size} payload bytes, need {need}"
  | remote code => s!"peer reported error {code}: {describe code}"
  | handler code => s!"handler failed with error {code}"
  | notControl type => s!"message type {hex type.toNat} is not a control type"
  | draft error => s!"frame error: {error.message}"
  | attr error => s!"attribute error: {error.message}"

def code : DispatchError → UInt32
  | portMismatch .. | notControl .. => Errno.einval
  | sequenceMismatch .. => Errno.eilseq
  | malformed .. => Errno.ebadmsg
  | remote code | handler code => code
  | draft .. => Errno.emsgsize
  | attr error => error.errno

def toSystemError (e : DispatchError) : SystemError :=
  if isSystemCode e.code then ⟨some e.code, Errno.describe e.code.toNat⟩ else ⟨none, e.message⟩

end DispatchError

end Netlink
