import Mathlib.Data.Fin.Basic
import Mathlib.Data.List.Basic

/-!
# Python's text and bytes

A `str` is any sequence of code points, lone surrogates included, so not every one of them can be
encoded. The decoders are those of the error handler `surrogatepass`.
-/

namespace DecisionMaker.Library

abbrev CodePoint := Fin 0x110000
abbrev Str := List CodePoint
abbrev Byte := Fin 256

namespace CodePoint

def ofChar (c : Char) : CodePoint :=
  ⟨c.toNat, by
    rcases c.valid with low | high
    · exact Nat.lt_trans low (by decide)
    · exact high.2⟩

def ofByte (b : Byte) : CodePoint := ⟨b.val, Nat.lt_trans b.isLt (by decide)⟩

def ofUnit (n : Fin 65536) : CodePoint := ⟨n.val, Nat.lt_trans n.isLt (by decide)⟩

def isHighSurrogate (c : CodePoint) : Bool := decide (0xD800 ≤ c.val ∧ c.val < 0xDC00)

def isLowSurrogate (c : CodePoint) : Bool := decide (0xDC00 ≤ c.val ∧ c.val < 0xE000)

def isSurrogate (c : CodePoint) : Bool := c.isHighSurrogate || c.isLowSurrogate

def join (high low : CodePoint) : CodePoint :=
  ⟨0x10000 + (high.val % 1024) * 1024 + low.val % 1024, by omega⟩

end CodePoint

def Str.ofString (s : String) : Str := s.toList.map CodePoint.ofChar

def Str.text (s : Str) : String := String.ofList (s.map fun c => Char.ofNat c.val)

/-- The text has no lone surrogate and so can be encoded. -/
def Str.WellFormed (s : Str) : Prop := ∀ c ∈ s, c.isSurrogate = false

theorem Str.WellFormed.of_isInfix {s t : Str} (wellFormed : s.WellFormed) (part : t <:+: s) : t.WellFormed :=
  fun c member => wellFormed c (part.subset member)

theorem Str.WellFormed.of_isSuffix {s t : Str} (wellFormed : s.WellFormed) (suffix : t <:+ s) : t.WellFormed :=
  wellFormed.of_isInfix suffix.isInfix

theorem Str.ofString_append (s t : String) : ofString (s ++ t) = ofString s ++ ofString t := by
  rw [ofString, String.toList_append, List.map_append]
  rfl

theorem Str.ofString_wellFormed (s : String) : (ofString s).WellFormed := by
  intro c member
  obtain ⟨x, -, rfl⟩ := List.mem_map.mp member
  have outside : (CodePoint.ofChar x).val < 0xD800 ∨ 0xDFFF < (CodePoint.ofChar x).val :=
    x.valid.imp id And.left
  rw [← Bool.not_eq_true]
  intro surrogate
  simp only [CodePoint.isSurrogate, CodePoint.isHighSurrogate, CodePoint.isLowSurrogate, Bool.or_eq_true,
    decide_eq_true_eq] at surrogate
  omega

def Str.Ascii (s : Str) : Prop := ∀ c ∈ s, 0 < c.val ∧ c.val < 128

instance (s : Str) : Decidable s.Ascii :=
  List.decidableBAll (fun c : CodePoint => 0 < c.val ∧ c.val < 128) s

theorem Str.Ascii.append {s t : Str} (first : s.Ascii) (second : t.Ascii) : Str.Ascii (s ++ t) := by
  intro c member
  rcases List.mem_append.mp member with inside | inside
  · exact first c inside
  · exact second c inside

def Str.Printable (s : Str) : Prop := ∀ c ∈ s, 0x20 ≤ c.val ∧ c.val ≤ 0x7E

instance (s : Str) : Decidable s.Printable :=
  List.decidableBAll (fun c : CodePoint => 0x20 ≤ c.val ∧ c.val ≤ 0x7E) s

theorem Str.Printable.append {s t : Str} (first : s.Printable) (second : t.Printable) :
    Str.Printable (s ++ t) := by
  intro c member
  rcases List.mem_append.mp member with inside | inside
  · exact first c inside
  · exact second c inside

theorem Str.Printable.ascii {s : Str} (printable : s.Printable) : s.Ascii := by
  intro c member
  obtain ⟨low, high⟩ := printable c member
  omega

def encodeAscii : Str → Option (List Byte)
  | [] => some []
  | c :: s => if h : c.val < 128 then (encodeAscii s).map (⟨c.val, by omega⟩ :: ·) else none

def utf8Bytes (c : CodePoint) : List Byte :=
  if h : c.val < 0x80 then [⟨c.val, by omega⟩]
  else if h : c.val < 0x800 then [⟨0xC0 + c.val / 64, by omega⟩, ⟨0x80 + c.val % 64, by omega⟩]
  else if h : c.val < 0x10000 then
    [⟨0xE0 + c.val / 4096, by omega⟩, ⟨0x80 + c.val / 64 % 64, by omega⟩, ⟨0x80 + c.val % 64, by omega⟩]
  else
    [⟨0xF0 + c.val / 262144, by omega⟩, ⟨0x80 + c.val / 4096 % 64, by omega⟩,
      ⟨0x80 + c.val / 64 % 64, by omega⟩, ⟨0x80 + c.val % 64, by omega⟩]

def encodeUtf8 (s : Str) : Option (List Byte) :=
  if s.any CodePoint.isSurrogate then none else some (s.flatMap utf8Bytes)

theorem encodeUtf8_eq_none_iff {s : Str} : encodeUtf8 s = none ↔ ¬s.WellFormed := by
  simp [encodeUtf8, Str.WellFormed]

theorem encodeUtf8_eq_some_iff {s : Str} {bytes : List Byte} :
    encodeUtf8 s = some bytes ↔ s.WellFormed ∧ s.flatMap utf8Bytes = bytes := by
  simp [encodeUtf8, Str.WellFormed]

def isTail (b : Byte) : Bool := decide (0x80 ≤ b.val ∧ b.val < 0xC0)

/-- Surrogates pass, what is too long or out of range does not. -/
def decodeUtf8 : List Byte → Option Str
  | [] => some []
  | a :: rest =>
      if a.val < 0x80 then (decodeUtf8 rest).map (.ofByte a :: ·)
      else match rest with
        | [] => none
        | b :: rest =>
            if !isTail b then none
            else if 0xC2 ≤ a.val ∧ a.val < 0xE0 then
              (decodeUtf8 rest).map (⟨a.val % 32 * 64 + b.val % 64, by omega⟩ :: ·)
            else match rest with
              | [] => none
              | c :: rest =>
                  if !isTail c then none
                  else if 0xE0 ≤ a.val ∧ a.val < 0xF0 then
                    if a.val % 16 * 64 + b.val % 64 < 0x20 then none
                    else (decodeUtf8 rest).map
                      (⟨a.val % 16 * 4096 + b.val % 64 * 64 + c.val % 64, by omega⟩ :: ·)
                  else match rest with
                    | [] => none
                    | d :: rest =>
                        let x := a.val % 8 * 262144 + b.val % 64 * 4096 + c.val % 64 * 64 + d.val % 64
                        if isTail d ∧ 0xF0 ≤ a.val ∧ a.val < 0xF8 ∧ 0x10000 ≤ x then
                          if h : x < 0x110000 then (decodeUtf8 rest).map (⟨x, h⟩ :: ·) else none
                        else none

def joinSurrogates : Str → Str
  | high :: low :: rest =>
      if high.isHighSurrogate ∧ low.isLowSurrogate then high.join low :: joinSurrogates rest
      else high :: joinSurrogates (low :: rest)
  | s => s

def codeUnits16 (bigEndian : Bool) : List Byte → Option Str
  | [] => some []
  | [_] => none
  | a :: b :: rest => (codeUnits16 bigEndian rest).map
      ((if bigEndian then ⟨a.val * 256 + b.val, by omega⟩ else ⟨b.val * 256 + a.val, by omega⟩) :: ·)

def decodeUtf16 (bigEndian : Bool) (bytes : List Byte) : Option Str :=
  (codeUnits16 bigEndian bytes).map joinSurrogates

def decodeUtf32 (bigEndian : Bool) : List Byte → Option Str
  | [] => some []
  | a :: b :: c :: d :: rest =>
      let x :=
        if bigEndian then a.val * 16777216 + b.val * 65536 + c.val * 256 + d.val
        else d.val * 16777216 + c.val * 65536 + b.val * 256 + a.val
      if h : x < 0x110000 then (decodeUtf32 bigEndian rest).map (⟨x, h⟩ :: ·) else none
  | _ => none

theorem Str.Ascii.exists_bytes {s : Str} (ascii : s.Ascii) :
    ∃ bytes : List Byte, s = bytes.map CodePoint.ofByte ∧ ∀ b ∈ bytes, 0 < b.val ∧ b.val < 128 := by
  induction s with
  | nil => exact ⟨[], rfl, by simp⟩
  | cons c s ih =>
      have first := ascii c (by simp)
      obtain ⟨bytes, rfl, rest⟩ := ih fun d member => ascii d (List.mem_cons_of_mem _ member)
      refine ⟨⟨c.val, by omega⟩ :: bytes, rfl, ?_⟩
      intro b member
      rcases List.mem_cons.mp member with rfl | member
      · exact first
      · exact rest b member

theorem encodeAscii_map_ofByte {bytes : List Byte} (seven : ∀ b ∈ bytes, b.val < 128) :
    encodeAscii (bytes.map CodePoint.ofByte) = some bytes := by
  induction bytes with
  | nil => rfl
  | cons b bytes ih =>
      have first : (CodePoint.ofByte b).val < 128 := seven b (by simp)
      rw [List.map_cons, encodeAscii, dif_pos first,
        ih fun other member => seven other (List.mem_cons_of_mem _ member)]
      rfl

theorem lt_of_encodeAscii {s : Str} {bytes : List Byte} (encoded : encodeAscii s = some bytes) :
    ∀ c ∈ s, c.val < 128 := by
  induction s generalizing bytes with
  | nil => simp
  | cons c s ih =>
      unfold encodeAscii at encoded
      split_ifs at encoded with small
      obtain ⟨rest, encodedRest, -⟩ := Option.map_eq_some_iff.mp encoded
      intro d member
      rcases List.mem_cons.mp member with rfl | member
      · exact small
      · exact ih encodedRest d member

theorem isSurrogate_of_lt {c : CodePoint} (small : c.val < 128) : c.isSurrogate = false := by
  rw [← Bool.not_eq_true]
  intro surrogate
  simp only [CodePoint.isSurrogate, CodePoint.isHighSurrogate, CodePoint.isLowSurrogate, Bool.or_eq_true,
    decide_eq_true_eq] at surrogate
  omega

theorem Str.wellFormed_of_seven {s : Str} (seven : ∀ c ∈ s, c.val < 128) : s.WellFormed :=
  fun c member => isSurrogate_of_lt (seven c member)

theorem encodeUtf8_of_seven {s : Str} (seven : ∀ c ∈ s, c.val < 128) :
    encodeUtf8 s = some (s.flatMap utf8Bytes) :=
  encodeUtf8_eq_some_iff.mpr ⟨Str.wellFormed_of_seven seven, rfl⟩

theorem flatMap_utf8Bytes_ofByte {bytes : List Byte} (seven : ∀ b ∈ bytes, b.val < 128) :
    (bytes.map CodePoint.ofByte).flatMap utf8Bytes = bytes := by
  induction bytes with
  | nil => rfl
  | cons b bytes ih =>
      have first : (CodePoint.ofByte b).val < 0x80 := seven b (by simp)
      rw [List.map_cons, List.flatMap_cons, utf8Bytes, dif_pos first,
        ih fun other member => seven other (List.mem_cons_of_mem _ member)]
      rfl

theorem encodeUtf8_map_ofByte {bytes : List Byte} (seven : ∀ b ∈ bytes, b.val < 128) :
    encodeUtf8 (bytes.map CodePoint.ofByte) = some bytes := by
  have small : ∀ c ∈ bytes.map CodePoint.ofByte, c.val < 128 := by
    intro c member
    obtain ⟨b, inside, rfl⟩ := List.mem_map.mp member
    exact seven b inside
  rw [encodeUtf8_of_seven small, flatMap_utf8Bytes_ofByte seven]

theorem decodeUtf8_of_seven {bytes : List Byte} (seven : ∀ b ∈ bytes, b.val < 128) :
    decodeUtf8 bytes = some (bytes.map CodePoint.ofByte) := by
  induction bytes with
  | nil => rfl
  | cons b bytes ih =>
      have first : b.val < 0x80 := seven b (by simp)
      rw [decodeUtf8.eq_def]
      simp [first, ih fun other member => seven other (List.mem_cons_of_mem _ member)]

end DecisionMaker.Library
