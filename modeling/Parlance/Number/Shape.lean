/-!
# Floats as integers times powers of two

A finite double is `± mantissa · 2 ^ exponent` for whole `mantissa` and `exponent`.  `shape` takes a
double apart and `nearest` goes back, from any ratio of naturals to the double next to it, with ties
to the even mantissa.  All of it is exact arithmetic on naturals, which is what the reading, the
printing and the rounding operations of this library are built on.
-/

namespace Parlance.Number

/-- What a double stands for. -/
inductive Shape
  | nan
  | infinite (negative : Bool)
  | finite (negative : Bool) (mantissa : Nat) (exponent : Int)
  deriving DecidableEq, Repr

/-- The parts of a double.  The mantissa is below `2 ^ 53`, the exponent at least `-1074`. -/
def shape (x : Float) : Shape :=
  let bits := x.toBits.toNat
  let negative := decide ((1 <<< 63) ≤ bits)
  let biased : Nat := (bits >>> 52) % (1 <<< 11)
  let fraction := bits % (1 <<< 52)
  if biased = 2047 then
    if fraction = 0 then .infinite negative else .nan
  else if biased = 0 then .finite negative fraction (-1074)
  else .finite negative ((1 <<< 52) + fraction) (biased - 1075)

/-- The double whose sign is given and whose magnitude has the given code: the codes of the
non-negative doubles are `0`, `1`, `2`, … in increasing order, and infinity comes last. -/
def ofCode (negative : Bool) (code : Nat) : Float :=
  let magnitude := min code (2047 <<< 52)
  Float.ofBits (UInt64.ofNat (if negative then (1 <<< 63) + magnitude else magnitude))

/-- The double that is no number. -/
def nan : Float :=
  Float.ofBits (UInt64.ofNat ((2047 <<< 52) + (1 <<< 51)))

/-- `num / den` rounded to a natural, a tie going to the even neighbour. -/
def roundDiv (num den : Nat) : Nat :=
  let quotient := num / den
  let rest := num % den
  if 2 * rest < den then quotient
  else if den < 2 * rest then quotient + 1
  else quotient + quotient % 2

/-- The exponent `e` with `2 ^ e ≤ num / den < 2 ^ (e + 1)`, for positive arguments. -/
def ratioLog (num den : Nat) : Int :=
  let guess : Int := num.log2 - den.log2
  if (den <<< guess.toNat) ≤ (num <<< (-guess).toNat) then guess else guess - 1

/-- The double nearest to `± num / den`. -/
def nearest (negative : Bool) (num den : Nat) : Float :=
  if num = 0 then ofCode negative 0
  else
    let exponent := max (ratioLog num den - 52) (-1074)
    let mantissa := roundDiv (num <<< (-exponent).toNat) (den <<< exponent.toNat)
    ofCode negative (((exponent + 1074).toNat <<< 52) + mantissa)

/-- The double nearest to `± mantissa · 2 ^ exponent`. -/
def scaled (negative : Bool) (mantissa : Nat) (exponent : Int) : Float :=
  nearest negative (mantissa <<< exponent.toNat) (1 <<< (-exponent).toNat)

/-- The double nearest to an integer. -/
def ofInteger (n : Int) : Float :=
  nearest (decide (n < 0)) n.natAbs 1

/-- The integer that a double is equal to, if there is one. -/
def whole? (x : Float) : Option Int :=
  match shape x with
  | .finite negative mantissa exponent =>
    let divisor := 1 <<< (-exponent).toNat
    if mantissa % divisor = 0 then
      let magnitude : Int := ((mantissa / divisor) <<< exponent.toNat : Nat)
      some (if negative then -magnitude else magnitude)
    else none
  | _ => none

/-- The sign bit is set. -/
def isNegative (x : Float) : Bool :=
  match shape x with
  | .finite negative .. => negative
  | .infinite negative => negative
  | .nan => false

end Parlance.Number
