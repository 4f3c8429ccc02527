import Netlink.Attribute.Policy
import Netlink.Dispatcher
import Netlink.Json

/-!
# Settings as JSON

Headers, correlations, parse policies and the names of their choices are read from JSON and written
as JSON without white space, fields in a fixed order. A record may be written as an object, where
fields of other names are passed over, or as an array of its fields in order. A choice is its name,
or an object with that name as its key and null as its value.
-/

namespace Netlink

namespace Settings

/-- The fields `names` of a record, each if it is there. A field may not repeat. -/
def fields? (names : List String) : Json → Option (List (Option Json))
  | .object members =>
    if members.any fun member => member.1.isNone then
      none
    else
      names.mapM fun name =>
        match members.filter fun member => member.1 == some name with
        | [] => some none
        | [(_, value)] => some (some value)
        | _ => none
  | .array items =>
    if items.length ≤ names.length then
      some (items.map some ++ List.replicate (names.length - items.length) none)
    else
      none
  | _ => none

def required {α : Type} (read : Json → Option α) (field : Option Json) : Option α := field.bind read

def orDefault {α : Type} (value : α) (read : Json → Option α) : Option Json → Option α
  | none => some value
  | some json => read json

def natural? (bound : Nat) : Json → Option Nat
  | .number lexeme =>
    if lexeme.all Char.isDigit then
      let n := lexeme.foldl (fun n c => n * 10 + (c.toNat - 0x30)) 0
      if n < bound then some n else none
    else
      none
  | _ => none

def uint16? (json : Json) : Option UInt16 := (natural? (1 <<< 16) json).map .ofNat

def uint32? (json : Json) : Option UInt32 := (natural? (1 <<< 32) json).map .ofNat

def bool? : Json → Option Bool
  | .bool b => some b
  | _ => none

def nullable? {α : Type} (read : Json → Option α) : Json → Option (Option α)
  | .null => some none
  | json => (read json).map some

def list? {α : Type} (read : Json → Option α) : Json → Option (List α)
  | .array items => items.mapM read
  | _ => none

def choice? {α : Type} (ofName? : String → Option α) : Json → Option α
  | .text (some name) => ofName? name
  | .object [(some name, .null)] => ofName? name
  | _ => none

def quoted (name : String) : String := "\"" ++ name ++ "\""

def objectText (members : List (String × String)) : String :=
  let member := fun (name, value) => quoted name ++ ":" ++ value
  "\x7b" ++ ",".intercalate (members.map member) ++ "\x7d"

def arrayText (items : List String) : String := "[" ++ ",".intercalate items ++ "]"

def nullableText {α : Type} (text : α → String) : Option α → String
  | none => "null"
  | some value => text value

end Settings

open Settings

namespace Header

def ofJson? (json : Json) : Option Header := do
  match ← fields? ["len", "msg_type", "flags", "seq", "port_id"] json with
  | [size, type, flags, seq, port] =>
    return {
      size := ← required uint32? size
      type := ← required uint16? type
      flags := ← required uint16? flags
      seq := ← required uint32? seq
      port := ← required uint32? port }
  | _ => none

def toJson (h : Header) : String :=
  objectText [("len", toString h.size.toNat), ("msg_type", toString h.type.toNat),
    ("flags", toString h.flags.toNat), ("seq", toString h.seq.toNat),
    ("port_id", toString h.port.toNat)]

end Header

namespace Correlation

def ofJson? (json : Json) : Option Correlation := do
  match ← fields? ["seq", "port_id"] json with
  | [seq, port] =>
    return { seq := ← orDefault 0 uint32? seq, port := ← orDefault 0 uint32? port }
  | _ => none

def toJson (c : Correlation) : String :=
  objectText [("seq", toString c.seq.toNat), ("port_id", toString c.port.toNat)]

end Correlation

namespace DataType

def ofJson? (json : Json) : Option DataType := choice? ofName? json

def toJson (kind : DataType) : String := quoted kind.name

end DataType

namespace Unsupported

def ofJson? (json : Json) : Option Unsupported := choice? ofName? json

def toJson (u : Unsupported) : String := quoted u.name

end Unsupported

namespace Policy

def ofJson? (json : Json) : Option Policy := do
  match ← fields? ["max_type", "unsupported", "reject_trailing", "policy"] json with
  | [maxType, unsupported, rejectTrailing, kinds] =>
    return {
      maxType := ← orDefault none (nullable? uint16?) maxType
      unsupported := ← orDefault .skip Unsupported.ofJson? unsupported
      rejectTrailing := ← orDefault false bool? rejectTrailing
      kinds := ← orDefault [] (list? (nullable? DataType.ofJson?)) kinds }
  | _ => none

def toJson (p : Policy) : String :=
  objectText [("max_type", nullableText (fun t : UInt16 => toString t.toNat) p.maxType),
    ("unsupported", p.unsupported.toJson), ("reject_trailing", toString p.rejectTrailing),
    ("policy", arrayText (p.kinds.map (nullableText DataType.toJson)))]

end Policy

end Netlink
