import DecisionMaker.Library.Json

/-!
# `str` and `int` of a JSON value

With the exceptions that they raise. What `str` makes of a float, a list or a dict is a parameter. A
text is read as `int` reads it, with the digits and the spaces of every script.
-/

namespace DecisionMaker.Library

inductive PyException
  | keyError
  | typeError
  | attributeError
  | overflowError
  | recursionError
  | valueError
  -- the three below are value errors too
  | jsonDecodeError
  | unicodeEncodeError
  | unicodeDecodeError
  deriving DecidableEq

def PyException.isValueError : PyException → Bool
  | .valueError | .jsonDecodeError | .unicodeEncodeError | .unicodeDecodeError => true
  | _ => false

def LoadsError.exception : LoadsError → PyException
  | .jsonDecodeError => .jsonDecodeError
  | .unicodeDecodeError => .unicodeDecodeError
  | .valueError => .valueError
  | .recursionError => .recursionError

namespace Json

/-- The zeros of the scripts that have decimal digits. Each is followed by its one to nine. -/
def decimalZeros : List Nat :=
  [0x30, 0x660, 0x6F0, 0x7C0, 0x966, 0x9E6, 0xA66, 0xAE6, 0xB66, 0xBE6, 0xC66, 0xCE6, 0xD66, 0xDE6,
    0xE50, 0xED0, 0xF20, 0x1040, 0x1090, 0x17E0, 0x1810, 0x1946, 0x19D0, 0x1A80, 0x1A90, 0x1B50,
    0x1BB0, 0x1C40, 0x1C50, 0xA620, 0xA8D0, 0xA900, 0xA9D0, 0xA9F0, 0xAA50, 0xABF0, 0xFF10, 0x104A0,
    0x10D30, 0x11066, 0x110F0, 0x11136, 0x111D0, 0x112F0, 0x11450, 0x114D0, 0x11650, 0x116C0,
    0x11730, 0x118E0, 0x11950, 0x11C50, 0x11D50, 0x11DA0, 0x11F50, 0x16A60, 0x16AC0, 0x16B50,
    0x1D7CE, 0x1D7D8, 0x1D7E2, 0x1D7EC, 0x1D7F6, 0x1E140, 0x1E2F0, 0x1E4F0, 0x1E950, 0x1FBF0]

def wideSpaces : List Nat :=
  [0x85, 0xA0, 0x1680, 0x2000, 0x2001, 0x2002, 0x2003, 0x2004, 0x2005, 0x2006, 0x2007, 0x2008, 0x2009,
    0x200A, 0x2028, 0x2029, 0x202F, 0x205F, 0x3000]

def toAsciiDigit (c : CodePoint) : CodePoint :=
  if c.val < 127 then c
  else if c.val ∈ wideSpaces then .ofChar ' '
  else match decimalZeros.find? fun first => decide (first ≤ c.val ∧ c.val < first + 10) with
    | some first => digitChar (c.val - first)
    | none => .ofChar '?'

def isCSpace (c : CodePoint) : Bool := c.is ' ' || decide (0x09 ≤ c.val ∧ c.val ≤ 0x0D)

def underscored : Str → Bool
  | [] => false
  | [c] => isDigit c
  | c :: d :: s => (isDigit c || c.is '_' && isDigit d) && underscored (d :: s)

def intOfStr (s : Str) : Option Int :=
  let s := (s.map toAsciiDigit).dropWhile isCSpace
  let (negative, s) := match s with
    | c :: s => if c.is '-' then (true, s) else if c.is '+' then (false, s) else (false, c :: s)
    | [] => (false, [])
  let body := s.takeWhile fun c => isDigit c || c.is '_'
  let digits := body.filter isDigit
  if (body.head?.all isDigit && underscored body && decide (digits.length ≤ maxStrDigits) &&
      (s.dropWhile fun c => isDigit c || c.is '_').all isCSpace) then
    some (signedInt negative (natOf digits))
  else none

def toInt : Json → Except PyException Int
  | .null | .array _ | .object _ => .error .typeError
  | .bool b => .ok (if b then 1 else 0)
  | .int n => .ok n
  | .float x =>
      if Binary64.isNaN x then .error .valueError
      else if Binary64.isInfinite x then .error .overflowError
      else .ok (Binary64.truncate x)
  | .str s => match intOfStr s with
    | some n => .ok n
    | none => .error .valueError

def toStr (strOf : Json → Except PyException Str) : Json → Except PyException Str
  | .null => .ok (.ofString "None")
  | .bool b => .ok (.ofString (if b then "True" else "False"))
  | .int n => match intRepr n with
    | some text => .ok text
    | none => .error .valueError
  | .str s => .ok s
  | .float x => strOf (.float x)
  | .array items => strOf (.array items)
  | .object members => strOf (.object members)

end Json

end DecisionMaker.Library
