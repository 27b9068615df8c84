import Parlance.Number.Shape

/-!
# Whole part, remainder and power

`floor` and `remainder` are computed on the exact parts of their arguments.  `power` answers the
cases with an infinite or undefined argument by rule and leaves the finite ones to the power
function of the machine.
-/

namespace Parlance.Number

/-- The greatest integer not above a finite number; it is never the negative zero. -/
def floor (x : Float) : Float :=
  match shape x with
  | .finite negative mantissa exponent =>
    let divisor := 1 <<< (-exponent).toNat
    let magnitude :=
      (if negative then (mantissa + divisor - 1) / divisor else mantissa / divisor)
        <<< exponent.toNat
    nearest (negative && magnitude != 0) magnitude 1
  | _ => x

/-- What remains of `x` after taking away whole multiples of `y` towards zero.  It has the sign of
`x`; an infinite `x` or a zero `y` has no remainder. -/
def remainder (x y : Float) : Float :=
  match shape x, shape y with
  | .finite negative m p, .finite _ n q =>
    if n = 0 then Float.ofBits 0x7ff8000000000000
    else
      let low := min p q
      scaled negative ((m <<< (p - low).toNat) % (n <<< (q - low).toNat)) low
  | .finite .., .infinite _ => x
  | _, _ => Float.ofBits 0x7ff8000000000000

/-- The whole number `x` is odd. -/
def isOdd (x : Float) : Bool :=
  match whole? x with
  | some n => n % 2 != 0
  | none => false

/-- Why a power has no value. -/
inductive PowerError
  | undefined
  | tooLarge
  deriving DecidableEq, Repr

/-- `base` to the power `exponent`, where one of them is infinite or `nan`. -/
def powerAtLimit (base exponent : Float) : Float :=
  if base.isNaN then if exponent == 0 then 1 else base
  else if exponent.isNaN then if base == 1 then 1 else exponent
  else if base.isInf then
    if exponent > 0 then if isOdd exponent then base else base.abs
    else if exponent == 0 then 1
    else if isOdd exponent && isNegative base then -0.0 else 0.0
  else if base.abs == 1 then 1
  else if exponent > 0 && base.abs > 1 then exponent
  else if exponent < 0 && base.abs < 1 then -exponent
  else 0.0

/-- `base` to the power `exponent`.  Finite arguments give a finite result or an error. -/
def power (base exponent : Float) : Except PowerError Float :=
  if base.isFinite && exponent.isFinite then
    let result := Float.pow base exponent
    if result.isFinite then .ok result
    else if result.isNaN || base == 0 then .error .undefined
    else .error .tooLarge
  else .ok (powerAtLimit base exponent)

end Parlance.Number
