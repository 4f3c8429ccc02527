import Netlink.Attribute

/-!
# Descent into nested attributes

Lists a stream depth first: each attribute with its depth, behind an attribute that is entered the
listing of its payload, and at the end of each stream the count of bytes that remain.
-/

namespace Netlink

inductive Visit where
  | found (depth : Nat) (a : Attribute)
  | ended (depth : Nat) (remaining : Int)
  deriving DecidableEq

namespace Attributes

theorem rest_nested_lt {s t : Attributes} {a : Attribute} (h : s.next? = some (a, t)) :
    a.nested.rest.length < s.rest.length := by
  obtain ⟨ha, _⟩ := Stream.next?_eq_some_iff.mp h
  have hfits := Record.size_le_of_first? ha
  have hpayload : a.payload.length = a.size - 4 := a.length_payload
  have hpos := a.size_pos
  show a.payload.length < s.rest.length
  omega

/-- Lists `s` and everything inside the attributes that satisfy `enter`. -/
def descend (enter : Attribute → Bool) (depth : Nat) (s : Attributes) : List Visit :=
  match _ : s.next? with
  | none => [.ended depth s.remaining]
  | some (a, t) =>
    let inside := if enter a then descend enter (depth + 1) (Attribute.nested a) else []
    .found depth a :: (inside ++ descend enter depth t)
termination_by s.rest.length
decreasing_by
  · exact rest_nested_lt (by assumption)
  · exact Stream.next?_rest_lt (by assumption)

end Attributes

end Netlink
