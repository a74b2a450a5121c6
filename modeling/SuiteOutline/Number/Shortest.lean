import SuiteOutline.Number.Binary64

/-! The shortest decimal that reads back as a floating-point number, and its text. -/
namespace SuiteOutline

/-- A significand times ten to the exponent. -/
structure Decimal where
  significand : Nat
  exponent : Int
deriving Repr, DecidableEq

/-- The exponent of the greatest power of ten that is at most the quotient. -/
def quotientLog10 (num den : Nat) : Int :=
  if den ≤ num then (Nat.repr (num / den)).length - 1
  else -((Nat.repr ((den - 1) / num)).length : Int)

namespace Binary64

/-- The decimal with `places` digits that reads back as a positive finite number and is nearest to
it, if there is one; of two at the same distance the even one. -/
def decimalOf? (m : Nat) (e : Int) (places : Nat) : Option Decimal :=
  let num := m * Nat.pow 2 e.toNat
  let den := Nat.pow 2 (-e).toNat
  let k := quotientLog10 num den - (places - 1 : Nat)
  let scaledNum := num * Nat.pow 10 (-k).toNat
  let scaledDen := den * Nat.pow 10 k.toNat
  let low := scaledNum / scaledDen
  let readsBack (d : Nat) := ofDecimal false d k = finite false m e
  let nearest := roundDiv scaledNum scaledDen
  if readsBack nearest then some ⟨nearest, k⟩
  else if readsBack low then some ⟨low, k⟩
  else if readsBack (low + 1) then some ⟨low + 1, k⟩
  else none

/-- Seventeen digits always tell a number from its neighbours. -/
def shortest (m : Nat) (e : Int) : Decimal :=
  ((List.range' 1 17).findSome? (decimalOf? m e)).getD ⟨0, 0⟩

end Binary64

/-- How a decimal is laid out as text. -/
structure Layout where
  /-- Least decimal exponent written with a point only. -/
  leastPositional : Int
  /-- Least decimal exponent above those. -/
  leastScientific : Int
  /-- Least number of digits in a written exponent. -/
  exponentWidth : Nat
  infinity : String
  nan : String
deriving Repr

/-- Positional from 0.0001 up to sixteen digits, a signed exponent of two digits otherwise. -/
def Layout.plain : Layout := ⟨-4, 16, 2, "inf", "nan"⟩

def withoutTrailingZeros (ds : List Char) : List Char :=
  match (ds.reverse.dropWhile (· = '0')).reverse with
  | [] => ['0']
  | ds => ds

/-- Digits with the point after the first `1 + e` of them, zeros filled in on either side. -/
def positional (ds : List Char) (e : Int) : List Char :=
  if e < 0 then '0' :: '.' :: List.replicate ((-e).toNat - 1) '0' ++ ds
  else
    let width := e.toNat + 1
    ds.take width ++ List.replicate (width - ds.length) '0' ++
      '.' :: (if ds.length ≤ width then ['0'] else ds.drop width)

def scientific (width : Nat) (ds : List Char) (e : Int) : List Char :=
  let digits := (Nat.repr e.natAbs).toList
  let fraction := match ds.drop 1 with
    | [] => []
    | rest => '.' :: rest
  ds.take 1 ++ fraction ++ 'e' :: (if e < 0 then '-' else '+') ::
    List.replicate (width - digits.length) '0' ++ digits

namespace Layout

def decimal (layout : Layout) (d : Decimal) : List Char :=
  let all := (Nat.repr d.significand).toList
  let ds := withoutTrailingZeros all
  let e := d.exponent + (all.length - 1 : Nat)
  if layout.leastPositional ≤ e && e < layout.leastScientific then positional ds e
  else scientific layout.exponentWidth ds e

def write (layout : Layout) : Binary64 → String
  | .nan => layout.nan
  | .infinite negative => (if negative then "-" else "") ++ layout.infinity
  | .finite negative m e =>
    (if negative then "-" else "") ++
      String.ofList (if m = 0 then ['0', '.', '0'] else layout.decimal (Binary64.shortest m e))

end Layout
end SuiteOutline
