import Mathlib.Data.BitVec

namespace DecisionMaker.Library.Binary64

def infinityBits : Nat := 0x7FF * 2 ^ 52

/-- The bits without the sign of the double nearest to `num / den`, ties to even. -/
def nearest (num den : Nat) : Nat :=
  if num = 0 then 0
  else
    -- the exponent of the leading bit of the quotient
    let e : Int := num.log2 - den.log2
    let e := if num * 2 ^ (-e).toNat < den * 2 ^ e.toNat then e - 1 else e
    -- the unit in the last place, that of the subnormals at least
    let ulp := max (e - 52) (-1074)
    let num := num * 2 ^ (-ulp).toNat
    let den := den * 2 ^ ulp.toNat
    let k := num / den
    let r := num % den
    let k := if den < 2 * r ∨ den = 2 * r ∧ k % 2 = 1 then k + 1 else k
    min ((ulp + 1074).toNat * 2 ^ 52 + k) infinityBits

def signed (negative : Bool) (bits : Nat) : BitVec 64 :=
  BitVec.ofNat 64 ((if negative then 2 ^ 63 else 0) + bits)

def ofDecimal (negative : Bool) (digits : Nat) (exponent : Int) : BitVec 64 :=
  signed negative (nearest (digits * 10 ^ exponent.toNat) (10 ^ (-exponent).toNat))

def infinity (negative : Bool) : BitVec 64 := signed negative infinityBits

def nan : BitVec 64 := signed false (infinityBits + 2 ^ 51)

def isNaN (x : BitVec 64) : Bool := decide (infinityBits < x.toNat % 2 ^ 63)

def isInfinite (x : BitVec 64) : Bool := decide (x.toNat % 2 ^ 63 = infinityBits)

def truncate (x : BitVec 64) : Int :=
  let exponent : Nat := x.toNat / 2 ^ 52 % 2048
  let fraction : Nat := x.toNat % 2 ^ 52
  let mantissa : Nat := if exponent = 0 then fraction else 2 ^ 52 + fraction
  let shift : Int := max (exponent : Int) 1 - 1075
  let magnitude : Nat := mantissa * 2 ^ shift.toNat / 2 ^ (-shift).toNat
  if 2 ^ 63 ≤ x.toNat then -(magnitude : Int) else magnitude

example : ofDecimal false 1 (-1) = 0x3FB999999999999A := by decide +kernel

end DecisionMaker.Library.Binary64
