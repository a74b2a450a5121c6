/-! Binary floating point with 53 bits of precision: rounding of exact quotients to the nearest
number, ties to even. -/
namespace SuiteOutline

/-- A floating-point number; a finite one is its mantissa times two to the exponent, with a sign. -/
inductive Binary64 where
  | finite (negative : Bool) (mantissa : Nat) (exponent : Int)
  | infinite (negative : Bool)
  | nan
deriving Repr, DecidableEq

/-- The quotient rounded to the nearest natural number, ties to even. -/
def roundDiv (num den : Nat) : Nat :=
  let q := num / den
  let r := num % den
  if 2 * r < den then q else if den < 2 * r then q + 1 else q + q % 2

/-- The exponent of the greatest power of two that is at most the quotient. -/
def quotientLog2 (num den : Nat) : Int :=
  let k := (num.log2 : Int) - den.log2
  if den * Nat.pow 2 k.toNat ≤ num * Nat.pow 2 (-k).toNat then k else k - 1

namespace Binary64

def precision : Nat := 53

/-- The least exponent of a finite number. -/
def minExponent : Int := -1074

/-- The greatest exponent of a finite number. -/
def maxExponent : Int := 971

def zero (negative : Bool) : Binary64 := finite negative 0 minExponent

/-- The number nearest to a quotient. -/
def ofQuotient (negative : Bool) (num den : Nat) : Binary64 :=
  if num = 0 then zero negative
  else
    let e := max (quotientLog2 num den - 52) minExponent
    let m := roundDiv (num * Nat.pow 2 (-e).toNat) (den * Nat.pow 2 e.toNat)
    let (m, e) := if m = Nat.pow 2 precision then (Nat.pow 2 52, e + 1) else (m, e)
    if e ≤ maxExponent then finite negative m e else infinite negative

/-- The number nearest to a decimal. What is far out of range is not computed. -/
def ofDecimal (negative : Bool) (significand : Nat) (exponent : Int) : Binary64 :=
  let magnitude := (Nat.repr significand).length + exponent
  if significand = 0 || magnitude < -330 then zero negative
  else if 310 < magnitude then infinite negative
  else ofQuotient negative (significand * Nat.pow 10 exponent.toNat)
    (Nat.pow 10 (-exponent).toNat)

/-- The greatest integer that is not above the value. -/
def floor? : Binary64 → Option Int
  | finite negative m e =>
    let num : Int := (m * Nat.pow 2 e.toNat : Nat)
    some ((if negative then -num else num).fdiv (Nat.pow 2 (-e).toNat : Nat))
  | _ => none

/-- The value as an integer, if it is one. -/
def toInt? : Binary64 → Option Int
  | finite negative m e =>
    let num := m * Nat.pow 2 e.toNat
    let den := Nat.pow 2 (-e).toNat
    if num % den = 0 then some (if negative then -(num / den : Nat) else (num / den : Nat)) else none
  | _ => none

end Binary64
end SuiteOutline
