import Parlance.Number.Shortest

/-!
# Numbers as text

`display` is how a program shows a number: whole numbers as integers with all their digits, other
numbers positionally.  `dataText` is the form for data files: a point or an exponent is always
there, and very large and very small numbers are written with an exponent.
-/

namespace Parlance.Number

/-- The texts of the values that have no digits. -/
structure Special where
  nan : String
  infinity : String

/-- What `display` and `dataText` write. -/
def plainSpecial : Special := ⟨"nan", "inf"⟩

/-- The decimal written with a point: one zero in front if it is below one. -/
def Decimal.positional (d : Decimal) : List Char :=
  if d.point ≤ 0 then '0' :: '.' :: (List.replicate (-d.point).toNat '0' ++ d.digits)
  else
    let whole := d.digits.take d.point.toNat
    let fraction := d.digits.drop d.point.toNat
    whole ++ List.replicate (d.point.toNat - d.digits.length) '0' ++
      '.' :: (if fraction.isEmpty then ['0'] else fraction)

/-- The decimal written as one digit, the fraction if there is one, and an exponent of at least two
digits. -/
def Decimal.exponential (d : Decimal) : List Char :=
  let exponent := d.point - 1
  let digits := Nat.toDigits 10 exponent.natAbs
  let mantissa :=
    match d.digits with
    | first :: [] => [first]
    | first :: rest => first :: '.' :: rest
    | [] => []
  mantissa ++ 'e' :: (if exponent < 0 then '-' else '+') ::
    (List.replicate (2 - digits.length) '0' ++ digits)

/-- The sign of a negative number. -/
def sign (negative : Bool) : List Char :=
  if negative then ['-'] else []

/-- The form for data files.  The exponent form is used below `10 ^ (-4)` and from `10 ^ 16` on. -/
def dataTextWith (special : Special) (x : Float) : String :=
  match shape x with
  | .nan => special.nan
  | .infinite negative => String.ofList (sign negative) ++ special.infinity
  | .finite negative mantissa exponent =>
    String.ofList <| sign negative ++
      if mantissa = 0 then ['0', '.', '0']
      else
        let (digits, scale) := shortest mantissa exponent
        let decimal := Decimal.ofScaled digits scale
        if -4 < decimal.point ∧ decimal.point ≤ 16 then decimal.positional
        else decimal.exponential

/-- The form for data files, with the plain words for what is not a finite number. -/
def dataText (x : Float) : String :=
  dataTextWith plainSpecial x

/-- An integer in decimal. -/
def integerText (n : Int) : String :=
  String.ofList (sign (decide (n < 0)) ++ Nat.toDigits 10 n.natAbs)

/-- How a program shows a number. -/
def display (x : Float) : String :=
  match shape x with
  | .finite negative mantissa exponent =>
    match whole? x with
    | some n => integerText n
    | none =>
      let (digits, scale) := shortest mantissa exponent
      String.ofList (sign negative ++ (Decimal.ofScaled digits scale).positional)
  | _ => dataText x

end Parlance.Number
