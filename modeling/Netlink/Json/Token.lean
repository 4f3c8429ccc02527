/-!
# JSON tokens

Splits a text into the tokens of JSON, one character at a time. A number is kept as it is written.
A text in quotes may name half of a surrogate pair alone by an escape; it is then a token like any
other, but no string is its value.
-/

namespace Netlink.Json

inductive Token where
  | openObject
  | closeObject
  | openArray
  | closeArray
  | comma
  | colon
  | null
  | bool (value : Bool)
  | number (lexeme : List Char)
  | text (value : Option String)
  deriving DecidableEq, Repr

/-! Numbers -/

def isDigits (cs : List Char) : Bool := !cs.isEmpty && cs.all Char.isDigit

def isExponent : List Char → Bool
  | [] => true
  | e :: '+' :: cs | e :: '-' :: cs | e :: cs => (e == 'e' || e == 'E') && isDigits cs

def isFraction : List Char → Bool
  | '.' :: cs => isDigits (cs.takeWhile Char.isDigit) && isExponent (cs.dropWhile Char.isDigit)
  | cs => isExponent cs

def isWhole (cs : List Char) : Bool := isDigits cs && (cs.length == 1 || cs.head? != some '0')

def isUnsigned (cs : List Char) : Bool :=
  isWhole (cs.takeWhile Char.isDigit) && isFraction (cs.dropWhile Char.isDigit)

def isNumber : List Char → Bool
  | '-' :: cs => isUnsigned cs
  | cs => isUnsigned cs

/-! Text -/

def isHighSurrogate (unit : Nat) : Bool := 0xD800 ≤ unit && unit < 0xDC00

def isLowSurrogate (unit : Nat) : Bool := 0xDC00 ≤ unit && unit < 0xE000

/-- The characters of a sequence of code points in which a pair of surrogates stands for one. -/
def characters? : List Nat → Option (List Char)
  | [] => some []
  | [unit] =>
    if isHighSurrogate unit || isLowSurrogate unit then none else some [Char.ofNat unit]
  | high :: low :: units =>
    if isHighSurrogate high then
      if isLowSurrogate low then
        (characters? units).map
          (Char.ofNat (0x10000 + (high - 0xD800) * 0x400 + (low - 0xDC00)) :: ·)
      else
        none
    else if isLowSurrogate high then
      none
    else
      (characters? (low :: units)).map (Char.ofNat high :: ·)

def escaped? : Char → Option Nat
  | '"' => some 0x22
  | '\\' => some 0x5C
  | '/' => some 0x2F
  | 'b' => some 0x08
  | 'f' => some 0x0C
  | 'n' => some 0x0A
  | 'r' => some 0x0D
  | 't' => some 0x09
  | _ => none

def hexDigit? (c : Char) : Option Nat :=
  if '0' ≤ c ∧ c ≤ '9' then some (c.toNat - 0x30)
  else if 'a' ≤ c ∧ c ≤ 'f' then some (c.toNat - 0x61 + 10)
  else if 'A' ≤ c ∧ c ≤ 'F' then some (c.toNat - 0x41 + 10)
  else none

/-! The scan -/

/-- Where a scan stands. What was seen of an unfinished token is kept in reverse. -/
inductive Mode where
  | between
  | number (seen : List Char)
  | word (seen : List Char)
  | text (seen : List Nat)
  | escape (seen : List Nat)
  /-- Inside an escape by number, with the digits that are still to come. -/
  | unit (seen : List Nat) (value missing : Nat)

structure Scan where
  /-- The finished tokens in reverse. -/
  tokens : List Token := []
  mode : Mode := .between

namespace Scan

def emit (s : Scan) (token : Token) : Scan := { tokens := token :: s.tokens }

def begin? (s : Scan) (c : Char) : Option Scan :=
  match c with
  | ' ' | '\t' | '\n' | '\r' => some { s with mode := .between }
  | '\x7b' => some (s.emit .openObject)
  | '\x7d' => some (s.emit .closeObject)
  | '[' => some (s.emit .openArray)
  | ']' => some (s.emit .closeArray)
  | ',' => some (s.emit .comma)
  | ':' => some (s.emit .colon)
  | '"' => some { s with mode := .text [] }
  | '-' => some { s with mode := .number ['-'] }
  | c =>
    if c.isDigit then some { s with mode := .number [c] }
    else if c.isLower then some { s with mode := .word [c] }
    else none

/-- Finishes a number or a word, which nothing closes but what follows. -/
def settle? (s : Scan) : Option Scan :=
  match s.mode with
  | .between => some s
  | .number seen => if isNumber seen.reverse then some (s.emit (.number seen.reverse)) else none
  | .word seen =>
    match String.ofList seen.reverse with
    | "null" => some (s.emit .null)
    | "true" => some (s.emit (.bool true))
    | "false" => some (s.emit (.bool false))
    | _ => none
  | .text _ | .escape _ | .unit .. => none

def step? (s : Scan) (c : Char) : Option Scan :=
  match s.mode with
  | .between => s.begin? c
  | .number seen =>
    if c.isDigit || c ∈ ['+', '-', '.', 'e', 'E'] then some { s with mode := .number (c :: seen) }
    else s.settle?.bind (·.begin? c)
  | .word seen =>
    if c.isLower then some { s with mode := .word (c :: seen) } else s.settle?.bind (·.begin? c)
  | .text seen =>
    if c = '"' then some (s.emit (.text ((characters? seen.reverse).map String.ofList)))
    else if c = '\\' then some { s with mode := .escape seen }
    else if c.toNat < 0x20 then none
    else some { s with mode := .text (c.toNat :: seen) }
  | .escape seen =>
    if c = 'u' then some { s with mode := .unit seen 0 4 }
    else (escaped? c).map fun code => { s with mode := .text (code :: seen) }
  | .unit seen value missing =>
    (hexDigit? c).map fun digit =>
      let value := value * 16 + digit
      if missing = 1 then { s with mode := .text (value :: seen) }
      else { s with mode := .unit seen value (missing - 1) }

end Scan

def tokens? (cs : List Char) : Option (List Token) :=
  ((cs.foldlM Scan.step? {}).bind Scan.settle?).map fun s => s.tokens.reverse

end Netlink.Json
