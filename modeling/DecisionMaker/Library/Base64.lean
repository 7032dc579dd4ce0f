import DecisionMaker.Library.Text
import Mathlib.Data.List.DropRight

namespace DecisionMaker.Library.Base64

open Library

def pad : Byte := 61

def digit (d : Fin 64) : Byte :=
  if h : d.val < 26 then ⟨65 + d.val, by omega⟩
  else if h : d.val < 52 then ⟨71 + d.val, by omega⟩
  else if h : d.val < 62 then ⟨d.val - 4, by omega⟩
  else if d.val = 62 then 43 else 47

def undigit (b : Byte) : Option (Fin 64) :=
  if h : 65 ≤ b.val ∧ b.val < 91 then some ⟨b.val - 65, by omega⟩
  else if h : 97 ≤ b.val ∧ b.val < 123 then some ⟨b.val - 71, by omega⟩
  else if h : 48 ≤ b.val ∧ b.val < 58 then some ⟨b.val + 4, by omega⟩
  else if b.val = 43 then some 62
  else if b.val = 47 then some 63
  else none

def sextets : List Byte → List (Fin 64)
  | [] => []
  | [a] => [⟨a.val / 4, by omega⟩, ⟨a.val % 4 * 16, by omega⟩]
  | [a, b] => [⟨a.val / 4, by omega⟩, ⟨a.val % 4 * 16 + b.val / 16, by omega⟩, ⟨b.val % 16 * 4, by omega⟩]
  | a :: b :: c :: rest =>
      ⟨a.val / 4, by omega⟩ :: ⟨a.val % 4 * 16 + b.val / 16, by omega⟩ ::
        ⟨b.val % 16 * 4 + c.val / 64, by omega⟩ :: ⟨c.val % 64, by omega⟩ :: sextets rest

def padding (length : Nat) : List Byte := List.replicate ((3 - length % 3) % 3) pad

def b2a (data : List Byte) : List Byte := (sextets data).map digit ++ padding data.length

/-- `quad_pos` with the bits of `leftchar` that wait for the next digit. -/
inductive Quad
  | start
  | one (left : Fin 64)
  | two (left : Fin 16)
  | three (left : Fin 4)

def Quad.pos : Quad → Nat
  | .start => 0
  | .one _ => 1
  | .two _ => 2
  | .three _ => 3

def Quad.next (d : Fin 64) : Quad → Quad
  | .start => .one d
  | .one _ => .two ⟨d.val % 16, by omega⟩
  | .two _ => .three ⟨d.val % 4, by omega⟩
  | .three _ => .start

def Quad.emit (d : Fin 64) : Quad → List Byte
  | .start => []
  | .one left => [⟨left.val * 4 + d.val / 16, by omega⟩]
  | .two left => [⟨left.val * 16 + d.val / 4, by omega⟩]
  | .three left => [⟨left.val * 64 + d.val, by omega⟩]

def a2bFrom : Quad → Nat → List Byte → Option (List Byte)
  | q, _, [] => if q.pos = 0 then some [] else none
  | q, pads, b :: rest =>
      if b = pad then
        if 2 ≤ q.pos then
          if 4 ≤ q.pos + (pads + 1) then some [] else a2bFrom q (pads + 1) rest
        else a2bFrom q pads rest
      else match undigit b with
        | none => a2bFrom q pads rest
        | some d => (a2bFrom (q.next d) 0 rest).map (q.emit d ++ ·)

def a2b (s : List Byte) : Option (List Byte) := a2bFrom .start 0 s

def toUrlsafe (b : Byte) : Byte := if b.val = 43 then 45 else if b.val = 47 then 95 else b

def ofUrlsafe (b : Byte) : Byte := if b.val = 45 then 43 else if b.val = 95 then 47 else b

def urlsafeB64encode (data : List Byte) : List Byte := (b2a data).map toUrlsafe

def urlsafeB64decode (s : List Byte) : Option (List Byte) := a2b (s.map ofUrlsafe)

theorem undigit_digit (d : Fin 64) : undigit (digit d) = some d := by
  revert d
  decide

theorem digit_ne_pad (d : Fin 64) : digit d ≠ pad := by
  revert d
  decide

theorem ofUrlsafe_toUrlsafe_digit (d : Fin 64) : ofUrlsafe (toUrlsafe (digit d)) = digit d := by
  revert d
  decide

theorem toUrlsafe_digit_ne_pad (d : Fin 64) : toUrlsafe (digit d) ≠ pad := by
  revert d
  decide

theorem a2bFrom_digit (q : Quad) (pads : Nat) (d : Fin 64) (rest : List Byte) :
    a2bFrom q pads (digit d :: rest) = (a2bFrom (q.next d) 0 rest).map (q.emit d ++ ·) := by
  simp [a2bFrom, digit_ne_pad, undigit_digit]

theorem a2bFrom_two_padded (left : Fin 16) : a2bFrom (.two left) 0 [pad, pad] = some [] := rfl

theorem a2bFrom_three_padded (left : Fin 4) : a2bFrom (.three left) 0 [pad] = some [] := rfl

theorem a2b_b2a (data : List Byte) : a2b (b2a data) = some data := by
  induction data using sextets.induct with
  | case1 => rfl
  | case2 a =>
      have first : a.val / 4 * 4 + a.val % 4 * 16 / 16 = a.val := by omega
      have padded : padding [a].length = [pad, pad] := rfl
      simp only [a2b, b2a, sextets, padded, List.map_cons, List.map_nil, List.cons_append,
        List.nil_append, a2bFrom_digit, Quad.next, Quad.emit, a2bFrom_two_padded, Option.map_some,
        first]
  | case3 a b =>
      have first : a.val / 4 * 4 + (a.val % 4 * 16 + b.val / 16) / 16 = a.val := by omega
      have second : (a.val % 4 * 16 + b.val / 16) % 16 * 16 + b.val % 16 * 4 / 4 = b.val := by omega
      have padded : padding [a, b].length = [pad] := rfl
      simp only [a2b, b2a, sextets, padded, List.map_cons, List.map_nil, List.cons_append,
        List.nil_append, a2bFrom_digit, Quad.next, Quad.emit, a2bFrom_three_padded, Option.map_some,
        first, second]
  | case4 a b c rest ih =>
      have first : a.val / 4 * 4 + (a.val % 4 * 16 + b.val / 16) / 16 = a.val := by omega
      have second : (a.val % 4 * 16 + b.val / 16) % 16 * 16 + (b.val % 16 * 4 + c.val / 64) / 4 =
          b.val := by omega
      have third : (b.val % 16 * 4 + c.val / 64) % 4 * 64 + c.val % 64 = c.val := by omega
      have padded : padding (a :: b :: c :: rest).length = padding rest.length := by
        rw [padding, padding, List.length_cons, List.length_cons, List.length_cons, Nat.add_assoc,
          Nat.add_assoc, Nat.add_mod_right]
      rw [a2b, b2a] at ih
      simp only [a2b, b2a, sextets, padded, List.map_cons, List.cons_append, List.nil_append,
        a2bFrom_digit, Quad.next, Quad.emit, ih, Option.map_some, first, second, third]

theorem urlsafeB64decode_encode (data : List Byte) :
    urlsafeB64decode (urlsafeB64encode data) = some data := by
  have back : (urlsafeB64encode data).map ofUrlsafe = b2a data := by
    have padded : ofUrlsafe (toUrlsafe pad) = pad := rfl
    simp [urlsafeB64encode, b2a, padding, ofUrlsafe_toUrlsafe_digit, padded, Function.comp_def]
  rw [urlsafeB64decode, back, a2b_b2a]

def unpadded (data : List Byte) : List Byte := (sextets data).map fun d => toUrlsafe (digit d)

theorem urlsafeB64encode_eq (data : List Byte) :
    urlsafeB64encode data = unpadded data ++ padding data.length := by
  have padded : toUrlsafe pad = pad := rfl
  simp [urlsafeB64encode, b2a, unpadded, padding, padded]

theorem rstrip_urlsafeB64encode (data : List Byte) :
    (urlsafeB64encode data).rdropWhile (· = pad) = unpadded data := by
  rw [urlsafeB64encode_eq, padding]
  generalize (3 - data.length % 3) % 3 = n
  induction n with
  | zero =>
      rw [List.replicate_zero, List.append_nil, List.rdropWhile_eq_self_iff]
      intro some
      obtain ⟨d, -, last⟩ := List.mem_map.mp (List.getLast_mem some)
      rw [← last]
      simp [toUrlsafe_digit_ne_pad]
  | succ n ih =>
      rw [List.replicate_succ', ← List.append_assoc, List.rdropWhile_concat_pos _ _ _ (by simp), ih]

theorem padding_repaired (data : List Byte) :
    List.replicate ((4 - (unpadded data).length % 4) % 4) pad = padding data.length := by
  have length : (4 - (unpadded data).length % 4) % 4 = (3 - data.length % 3) % 3 := by
    rw [unpadded, List.length_map]
    induction data using sextets.induct with
    | case1 | case2 | case3 => rfl
    | case4 a b c rest ih =>
        simp only [sextets, List.length_cons]
        omega
  rw [padding, length]

end DecisionMaker.Library.Base64
