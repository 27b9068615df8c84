import Parlance.Number.Reading

/-!
# The fewest digits that read back

Of all decimals that read back as a given double, `shortest` takes one with the fewest digits, and
of those the one nearest to the double, a tie going to the even last digit.  It tries the decimal
grids `10 ^ e` from coarse to fine; on each the only points worth a look are the two neighbours of
the number itself.  Seventeen digits are always enough; should they not be, the exact expansion of
the double would still read back.
-/

namespace Parlance.Number

/-- A positive decimal `0.d₁d₂… · 10 ^ point`. -/
structure Decimal where
  digits : List Char
  point : Int
  deriving DecidableEq, Repr

/-- `digits · 10 ^ exponent`, without zeros at the end. -/
def Decimal.ofScaled (digits : Nat) (exponent : Int) : Decimal :=
  let text := Nat.toDigits 10 digits
  ⟨(text.reverse.dropWhile (· == '0')).reverse, text.length + exponent⟩

/-- The numerator and denominator of `mantissa · 2 ^ exponent`. -/
def ratio (mantissa : Nat) (exponent : Int) : Nat × Nat :=
  (mantissa <<< exponent.toNat, 1 <<< (-exponent).toNat)

/-- The `k` with `10 ^ (k - 1) ≤ num / den < 10 ^ k`, for positive arguments. -/
def decimalLog (num den : Nat) : Int :=
  if den ≤ num then (Nat.toDigits 10 (num / den)).length
  else 1 - ((Nat.toDigits 10 ((den - 1) / num)).length : Int)

/-- The decimal reads back as the double `x`. -/
def readsBack (x : Float) (digits : Nat) (exponent : Int) : Bool :=
  (ofDecimal false digits exponent).toBits == x.toBits

/-- The neighbour of `num / den` on the grid `10 ^ exponent` that reads back as `x`; if both do, the
nearer one, and the even one in the middle between them. -/
def onGrid? (x : Float) (num den : Nat) (exponent : Int) : Option Nat :=
  let num := magnify 10 num (-exponent).toNat
  let den := magnify 10 den exponent.toNat
  let below := num / den
  match readsBack x below exponent, readsBack x (below + 1) exponent with
  | true, true => some (roundDiv num den)
  | true, false => some below
  | false, true => some (below + 1)
  | false, false => none

/-- The first grid, from `first` downwards, that has a point for `x`. -/
def searchGrids (x : Float) (num den : Nat) (exponent : Int) : Nat → Option (Nat × Int)
  | 0 => none
  | tries + 1 =>
    match onGrid? x num den exponent with
    | some digits => some (digits, exponent)
    | none => searchGrids x num den (exponent - 1) tries

/-- The fewest digits that read back as the positive double `mantissa · 2 ^ exponent`. -/
def shortest (mantissa : Nat) (exponent : Int) : Nat × Int :=
  let (num, den) := ratio mantissa exponent
  (searchGrids (scaled false mantissa exponent) num den (decimalLog num den - 1) 17).getD
    (magnify 5 (mantissa <<< exponent.toNat) (-exponent).toNat, min exponent 0)

end Parlance.Number
