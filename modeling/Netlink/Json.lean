import Netlink.Json.Token

/-!
# JSON values

Reads one JSON value from a text. The reader keeps the arrays and objects that are still open on a
stack and takes one token at a time. Members stay in order and may repeat; what a repetition means
is for whoever reads the object.
-/

namespace Netlink

inductive Json where
  | null
  | bool (value : Bool)
  /-- A number as it is written. -/
  | number (lexeme : List Char)
  /-- A text, without a value if it holds half of a surrogate pair alone. -/
  | text (value : Option String)
  | array (items : List Json)
  | object (members : List (Option String × Json))

namespace Json

/-- An array or object that is still open, with its contents so far in reverse. -/
inductive Frame where
  | array (items : List Json)
  | object (members : List (Option String × Json))
  /-- An object that waits for the value of `key`. -/
  | member (members : List (Option String × Json)) (key : Option String)

inductive Expectation where
  | value
  /-- A value, or the end of an array that was just opened. -/
  | item
  | key
  /-- A key, or the end of an object that was just opened. -/
  | firstKey
  | colon (key : Option String)
  /-- A value is complete. -/
  | after (value : Json)

structure Reader where
  expect : Expectation := .value
  stack : List Frame := []

namespace Reader

def value? (r : Reader) : Token → Option Reader
  | .null => some { r with expect := .after .null }
  | .bool b => some { r with expect := .after (.bool b) }
  | .number lexeme => some { r with expect := .after (.number lexeme) }
  | .text t => some { r with expect := .after (.text t) }
  | .openArray => some { expect := .item, stack := .array [] :: r.stack }
  | .openObject => some { expect := .firstKey, stack := .object [] :: r.stack }
  | .closeObject | .closeArray | .comma | .colon => none

def step? (r : Reader) (token : Token) : Option Reader :=
  match r.expect, token, r.stack with
  | .value, token, _ => r.value? token
  | .item, .closeArray, .array _ :: stack => some { expect := .after (.array []), stack }
  | .item, token, _ => r.value? token
  | .key, .text key, _ | .firstKey, .text key, _ => some { r with expect := .colon key }
  | .firstKey, .closeObject, .object _ :: stack => some { expect := .after (.object []), stack }
  | .colon key, .colon, .object members :: stack =>
    some { expect := .value, stack := .member members key :: stack }
  | .after v, .comma, .array items :: stack =>
    some { expect := .value, stack := .array (v :: items) :: stack }
  | .after v, .closeArray, .array items :: stack =>
    some { expect := .after (.array (v :: items).reverse), stack }
  | .after v, .comma, .member members key :: stack =>
    some { expect := .key, stack := .object ((key, v) :: members) :: stack }
  | .after v, .closeObject, .member members key :: stack =>
    some { expect := .after (.object ((key, v) :: members).reverse), stack }
  | _, _, _ => none

def finish? (r : Reader) : Option Json :=
  match r.expect, r.stack with
  | .after v, [] => some v
  | _, _ => none

end Reader

/-- The one value that `text` consists of, but for white space around it. -/
def read? (text : String) : Option Json :=
  (tokens? text.toList).bind fun tokens => (tokens.foldlM Reader.step? {}).bind Reader.finish?

end Json

end Netlink
