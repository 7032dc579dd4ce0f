import DecisionMaker.Library.Binary64
import DecisionMaker.Library.Text
import Mathlib.Data.List.Sort
import Mathlib.Data.Nat.Digits.Defs

/-!
# Python's `json`

`json.loads` with the scanner of CPython, and `json.dumps` with `ensure_ascii`. Positions and texts
of the syntax errors are left out. How deep the interpreter lets containers nest is a parameter.
-/

namespace DecisionMaker.Library

inductive Json
  | null
  | bool (b : Bool)
  | int (n : Int)
  | float (bits : BitVec 64)
  | str (s : Str)
  | array (items : List Json)
  -- a dict in its insertion order
  | object (members : List (Str × Json))

inductive LoadsError
  | jsonDecodeError
  | unicodeDecodeError
  -- an integer over the digit limit
  | valueError
  | recursionError
  deriving DecidableEq

def CodePoint.is (c : CodePoint) (x : Char) : Bool := c.val == x.toNat

namespace Json

theorem is_iff {c : CodePoint} {x : Char} : c.is x = true ↔ c = .ofChar x := by
  rw [CodePoint.is, beq_iff_eq, Fin.ext_iff]
  rfl

theorem eq_ofChar {c : CodePoint} {x : Char} (is : ¬(!c.is x) = true) : c = .ofChar x := by
  rw [Bool.not_eq_true', Bool.not_eq_false] at is
  exact is_iff.mp is

theorem is_ofChar (x : Char) : (CodePoint.ofChar x).is x = true := is_iff.mpr rfl

theorem ofChar_is_eq_false {x y : Char} (other : x.toNat ≠ y.toNat) :
    (CodePoint.ofChar x).is y = false :=
  beq_false_of_ne other

theorem ofChar_beq_eq_false {x y : Char} (other : x.toNat ≠ y.toNat) :
    (CodePoint.ofChar x == CodePoint.ofChar y) = false := by
  refine beq_false_of_ne fun same => other ?_
  have values : (CodePoint.ofChar x).val = (CodePoint.ofChar y).val := congrArg Fin.val same
  exact values

theorem is_eq_false {c : CodePoint} {x : Char} (other : c.val ≠ x.toNat) : c.is x = false :=
  beq_false_of_ne other

def maxStrDigits : Nat := 4300

def isSpace (c : CodePoint) : Bool := c.is ' ' || c.is '\t' || c.is '\n' || c.is '\r'

def skip (s : Str) : Str := s.dropWhile isSpace

def hexDigit (c : CodePoint) : Option (Fin 16) :=
  if h : '0'.toNat ≤ c.val ∧ c.val ≤ '9'.toNat then some ⟨c.val - 48, by simp at h; omega⟩
  else if h : 'a'.toNat ≤ c.val ∧ c.val ≤ 'f'.toNat then some ⟨c.val - 87, by simp at h; omega⟩
  else if h : 'A'.toNat ≤ c.val ∧ c.val ≤ 'F'.toNat then some ⟨c.val - 55, by simp at h; omega⟩
  else none

def hex4 (a b c d : CodePoint) : Option CodePoint :=
  match hexDigit a, hexDigit b, hexDigit c, hexDigit d with
  | some a, some b, some c, some d =>
      some ⟨a.val * 4096 + b.val * 256 + c.val * 16 + d.val, by omega⟩
  | _, _, _, _ => none

def unescape (c : CodePoint) : Option CodePoint :=
  if c.is '"' || c.is '\\' || c.is '/' then some c
  else if c.is 'b' then some 0x08
  else if c.is 'f' then some 0x0C
  else if c.is 'n' then some 0x0A
  else if c.is 'r' then some 0x0D
  else if c.is 't' then some 0x09
  else none

abbrev Scan (α : Type) := Except LoadsError (α × Str)

def Scan.push (c : CodePoint) (scan : Scan Str) : Scan Str := scan.map fun r => (c :: r.1, r.2)

def scanString : Str → Scan Str
  | [] => .error .jsonDecodeError
  | c :: s =>
      if c.is '"' then .ok ([], s)
      else if !c.is '\\' then
        -- strict: no control characters
        if c.val ≤ 0x1F then .error .jsonDecodeError else .push c (scanString s)
      else match s with
        | [] => .error .jsonDecodeError
        | e :: s =>
            if !e.is 'u' then
              match unescape e with
              | none => .error .jsonDecodeError
              | some c => .push c (scanString s)
            else match s with
              | a :: b :: c :: d :: s =>
                  match hex4 a b c d with
                  | none => .error .jsonDecodeError
                  | some high =>
                      if !high.isHighSurrogate then .push high (scanString s)
                      else match s with
                        | e :: f :: a :: b :: c :: d :: rest =>
                            if e.is '\\' && f.is 'u' then
                              match hex4 a b c d with
                              | none => .error .jsonDecodeError
                              | some low =>
                                  if low.isLowSurrogate then .push (high.join low) (scanString rest)
                                  else .push high (scanString (e :: f :: a :: b :: c :: d :: rest))
                            else .push high (scanString (e :: f :: a :: b :: c :: d :: rest))
                        | s => .push high (scanString s)
              | _ => .error .jsonDecodeError

def isDigit (c : CodePoint) : Bool := decide ('0'.toNat ≤ c.val ∧ c.val ≤ '9'.toNat)

def natOf (digits : Str) : Nat := Nat.ofDigits 10 (digits.reverse.map fun c => c.val - '0'.toNat)

def scanSign : Str → Bool × Str
  | c :: s => if c.is '-' then (true, s) else (false, c :: s)
  | [] => (false, [])

def scanInteger : Str → Option (Str × Str)
  | c :: s =>
      -- a leading zero stands alone
      if c.is '0' then some ([c], s)
      else if isDigit c then some (c :: s.takeWhile isDigit, s.dropWhile isDigit)
      else none
  | [] => none

def scanFraction : Str → Option (Str × Str)
  | dot :: d :: s =>
      if dot.is '.' && isDigit d then some (d :: s.takeWhile isDigit, s.dropWhile isDigit) else none
  | _ => none

def scanExponent : Str → Option (Int × Str)
  | e :: s =>
      if e.is 'e' || e.is 'E' then
        let (negative, s) := match s with
          | c :: s => if c.is '-' then (true, s) else if c.is '+' then (false, s) else (false, c :: s)
          | [] => (false, [])
        let digits := s.takeWhile isDigit
        -- without a digit the `e` is left where it is
        if digits = [] then none
        else some (if negative then -(natOf digits : Int) else natOf digits, s.dropWhile isDigit)
      else none
  | [] => none

def signedInt (negative : Bool) (n : Nat) : Int := if negative then -(n : Int) else n

def scanNumber (s : Str) : Scan Json :=
  let (negative, s) := scanSign s
  match scanInteger s with
  | none => .error .jsonDecodeError
  | some (digits, s) =>
      match scanFraction s, scanExponent s with
      | some (fraction, s), _ =>
          let (exponent, s) := (scanExponent s).getD (0, s)
          .ok (.float (Binary64.ofDecimal negative (natOf (digits ++ fraction))
            (exponent - fraction.length)), s)
      | none, some (exponent, s) => .ok (.float (Binary64.ofDecimal negative (natOf digits) exponent), s)
      | none, none =>
          if maxStrDigits < digits.length then .error .valueError
          else .ok (.int (signedInt negative (natOf digits)), s)

def constants : List (String × Json) :=
  [("null", .null), ("true", .bool true), ("false", .bool false), ("NaN", .float Binary64.nan),
    ("Infinity", .float (Binary64.infinity false)), ("-Infinity", .float (Binary64.infinity true))]

def scanConstant (s : Str) : Option (Json × Str) :=
  constants.findSome? fun (text, value) =>
    (s.dropPrefix? (Str.ofString text)).map fun rest => (value, rest)

/-- A repeated key keeps its place and takes the later value. -/
def setItem (key : Str) (value : Json) : List (Str × Json) → List (Str × Json)
  | [] => [(key, value)]
  | (k, v) :: rest => if k = key then (k, value) :: rest else (k, v) :: setItem key value rest

def dict (members : List (Str × Json)) : List (Str × Json) :=
  members.foldl (fun d member => setItem member.1 member.2 d) []

/-- One element and what follows it. The text gets shorter with every element, so its length is fuel
enough. -/
def scanElements {α : Type} (one : Str → Scan α) (close : Char) : Nat → Str → Scan (List α)
  | 0, _ => .error .jsonDecodeError
  | fuel + 1, s =>
      match one s with
      | .error e => .error e
      | .ok (a, s) =>
          match skip s with
          | [] => .error .jsonDecodeError
          | c :: s =>
              if c.is close then .ok ([a], s)
              else if c.is ',' then
                (scanElements one close fuel (skip s)).map fun r => (a :: r.1, r.2)
              else .error .jsonDecodeError

def scanContainer {α : Type} (one : Str → Scan α) (close : Char) (s : Str) : Scan (List α) :=
  match skip s with
  | [] => .error .jsonDecodeError
  | c :: s =>
      if c.is close then .ok ([], s) else scanElements one close (s.length + 2) (c :: s)

def scanMember (scan : Str → Scan Json) : Str → Scan (Str × Json)
  | [] => .error .jsonDecodeError
  | q :: s =>
      if !q.is '"' then .error .jsonDecodeError
      else match scanString s with
        | .error e => .error e
        | .ok (key, s) =>
            match skip s with
            | [] => .error .jsonDecodeError
            | c :: s =>
                if !c.is ':' then .error .jsonDecodeError
                else (scan (skip s)).map fun r => ((key, r.1), r.2)

def scanArray (scan : Str → Scan Json) (s : Str) : Scan Json :=
  (scanContainer scan ']' s).map fun r => (.array r.1, r.2)

def scanObject (scan : Str → Scan Json) (s : Str) : Scan Json :=
  (scanContainer (scanMember scan) '}' s).map fun r => (.object (dict r.1), r.2)

/-- `scan_once`, where `nesting` more containers may be entered. -/
def scanOnce (nesting : Nat) (s : Str) : Scan Json :=
  match s with
  | [] => .error .jsonDecodeError
  | c :: rest =>
      if c.is '"' then (scanString rest).map fun r => (.str r.1, r.2)
      else if c.is '{' then
        match nesting with
        | 0 => .error .recursionError
        | nesting + 1 => scanObject (scanOnce nesting) rest
      else if c.is '[' then
        match nesting with
        | 0 => .error .recursionError
        | nesting + 1 => scanArray (scanOnce nesting) rest
      else match scanConstant (c :: rest) with
        | some scanned => .ok scanned
        | none => scanNumber (c :: rest)

def decode (nesting : Nat) (s : Str) : Except LoadsError Json :=
  match scanOnce nesting (skip s) with
  | .error e => .error e
  | .ok (value, rest) => if skip rest = [] then .ok value else .error .jsonDecodeError

inductive Encoding
  | utf8
  | utf8Sig
  | utf16
  | utf16be
  | utf16le
  | utf32
  | utf32be
  | utf32le

def detectEncoding (b : List Nat) : Encoding :=
  if [0x00, 0x00, 0xFE, 0xFF] <+: b ∨ [0xFF, 0xFE, 0x00, 0x00] <+: b then .utf32
  else if [0xFE, 0xFF] <+: b ∨ [0xFF, 0xFE] <+: b then .utf16
  else if [0xEF, 0xBB, 0xBF] <+: b then .utf8Sig
  else match b with
    | b₀ :: b₁ :: b₂ :: b₃ :: _ =>
        if b₀ = 0 then if b₁ = 0 then .utf32be else .utf16be
        else if b₁ = 0 then if b₂ = 0 ∧ b₃ = 0 then .utf32le else .utf16le
        else .utf8
    | [b₀, b₁] => if b₀ = 0 then .utf16be else if b₁ = 0 then .utf16le else .utf8
    | _ => .utf8

def Encoding.decode (b : List Byte) : Encoding → Option Str
  | .utf8 => decodeUtf8 b
  | .utf8Sig => decodeUtf8 (b.drop 3)
  -- the byte order mark tells the byte order
  | .utf16 => decodeUtf16 (b.head?.any fun c => c.val == 0xFE) (b.drop 2)
  | .utf16be => decodeUtf16 true b
  | .utf16le => decodeUtf16 false b
  | .utf32 => decodeUtf32 (b.head?.any fun c => c.val == 0) (b.drop 4)
  | .utf32be => decodeUtf32 true b
  | .utf32le => decodeUtf32 false b

def loads (nesting : Nat) (b : List Byte) : Except LoadsError Json :=
  match (detectEncoding (b.map Fin.val)).decode b with
  | none => .error .unicodeDecodeError
  | some s => decode nesting s

def hexChar (d : Fin 16) : CodePoint :=
  if h : d.val < 10 then ⟨48 + d.val, by omega⟩ else ⟨87 + d.val, by omega⟩

def nibble (n : Fin 65536) (i : Nat) : Fin 16 := ⟨n.val / 16 ^ i % 16, Nat.mod_lt _ (by decide)⟩

def unicodeEscape (n : Fin 65536) : Str :=
  [.ofChar '\\', .ofChar 'u', hexChar (nibble n 3), hexChar (nibble n 2), hexChar (nibble n 1),
    hexChar (nibble n 0)]

def escape (c : CodePoint) : Str :=
  if c.is '"' || c.is '\\' then [.ofChar '\\', c]
  else if 0x20 ≤ c.val ∧ c.val ≤ 0x7E then [c]
  else if c.is '\n' then Str.ofString "\\n"
  else if c.is '\r' then Str.ofString "\\r"
  else if c.is '\t' then Str.ofString "\\t"
  else if c.val = 0x08 then Str.ofString "\\b"
  else if c.val = 0x0C then Str.ofString "\\f"
  else if h : c.val < 65536 then unicodeEscape ⟨c.val, h⟩
  else unicodeEscape ⟨0xD800 + (c.val - 65536) / 1024, by omega⟩ ++
    unicodeEscape ⟨0xDC00 + (c.val - 65536) % 1024, by omega⟩

def encodeString (s : Str) : Str := .ofChar '"' :: s.flatMap escape ++ [.ofChar '"']

def digitChar (d : Nat) : CodePoint := ⟨48 + d % 10, by omega⟩

def natRepr (n : Nat) : Str := if n = 0 then [digitChar 0] else (Nat.digits 10 n).reverse.map digitChar

def intRepr (n : Int) : Option Str :=
  if maxStrDigits < (natRepr n.natAbs).length then none
  else some (if n < 0 then .ofChar '-' :: natRepr n.natAbs else natRepr n.natAbs)

structure Format where
  itemSeparator : Str
  keySeparator : Str
  sortKeys : Bool

def lessOrEqual : Str → Str → Bool
  | [], _ => true
  | _ :: _, [] => false
  | c :: s, d :: t => decide (c < d) || (c == d && lessOrEqual s t)

def Format.sorted (fmt : Format) (texts : List (Str × Str)) : List (Str × Str) :=
  if fmt.sortKeys then texts.insertionSort fun a b => lessOrEqual a.1 b.1 else texts

variable (floatRepr : BitVec 64 → Str) (fmt : Format)

mutual

def dumps : Json → Option Str
  | .null => some (.ofString "null")
  | .bool b => some (.ofString (if b then "true" else "false"))
  | .int n => intRepr n
  | .float x => some (floatRepr x)
  | .str s => some (encodeString s)
  | .array items => (dumpsItems items).map fun texts =>
      .ofChar '[' :: fmt.itemSeparator.intercalate texts ++ [.ofChar ']']
  | .object members => (dumpsMembers members).map fun texts =>
      .ofChar '{' :: fmt.itemSeparator.intercalate ((fmt.sorted texts).map fun member =>
        encodeString member.1 ++ fmt.keySeparator ++ member.2) ++ [.ofChar '}']

def dumpsItems : List Json → Option (List Str)
  | [] => some []
  | item :: items => (dumps item).bind fun text => (dumpsItems items).map (text :: ·)

def dumpsMembers : List (Str × Json) → Option (List (Str × Str))
  | [] => some []
  | member :: members => (dumpsMember member).bind fun text => (dumpsMembers members).map (text :: ·)

def dumpsMember : Str × Json → Option (Str × Str)
  | (key, value) => (dumps value).map fun text => (key, text)

end

end Json

end DecisionMaker.Library
