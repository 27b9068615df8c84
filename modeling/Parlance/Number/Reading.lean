import Parlance.Number.Shape
import Parlance.Text.Blank
import Parlance.Text.Digit

/-!
# Reading numbers

Three grammars share one conversion.  A literal of a program is ASCII digits with an optional
fraction; a line of input may have a sign in front and digits of any script; and `read?` takes
whatever a general number reader accepts: exponents, underscores between digits, `inf` and `nan`,
and blanks around.  The conversion `ofDecimal` is exact: the result is the double nearest to the
decimal.
-/

namespace Parlance.Number

/-- The product `n · base ^ k`. -/
def magnify (base n : Nat) : Nat → Nat
  | 0 => n
  | k + 1 => magnify base (n * base) k

/-- The double nearest to `± digits · 10 ^ exponent`.  The two bounds keep absurd exponents from
being computed: beyond them the result is infinite or zero. -/
def ofDecimal (negative : Bool) (digits : Nat) (exponent : Int) : Float :=
  if digits = 0 then ofCode negative 0
  else if 310 < exponent then ofCode negative (2047 <<< 52)
  else if exponent < -(400 + digits.log2 : Int) then ofCode negative 0
  else nearest negative (magnify 10 digits exponent.toNat) (magnify 10 1 (-exponent).toNat)

/-- The natural that a row of digit values spells. -/
def ofDigits (digits : List Nat) : Nat :=
  digits.foldl (fun n d => 10 * n + d) 0

/-- Splits off the digits at the front of a text. -/
def spanDigits (value? : Char → Option Nat) : List Char → List Nat × List Char
  | [] => ([], [])
  | c :: cs =>
    match value? c with
    | some d => let (ds, rest) := spanDigits value? cs; (d :: ds, rest)
    | none => ([], c :: cs)

/-- The value of an ASCII digit. -/
def asciiDigit? (c : Char) : Option Nat :=
  if c.isDigit then some (c.toNat - 48) else none

/-- Splits a sign off the front: whether it is a minus, and the rest. -/
def spanSign : List Char → Bool × List Char
  | '-' :: cs => (true, cs)
  | '+' :: cs => (false, cs)
  | cs => (false, cs)

/-- Digits with an optional fraction, and nothing else. -/
def plain? (value? : Char → Option Nat) (negative : Bool) (cs : List Char) : Option Float :=
  match spanDigits value? cs with
  | ([], _) => none
  | (digits, []) => some (ofDecimal negative (ofDigits digits) 0)
  | (digits, '.' :: rest) =>
    match spanDigits value? rest with
    | ([], _) => none
    | (fraction, []) =>
      some (ofDecimal negative (ofDigits (digits ++ fraction)) (-fraction.length))
    | _ => none
  | _ => none

/-- The value of a number literal.  The digits of a literal always read. -/
def literal (text : String) : Float :=
  (plain? asciiDigit? false text.toList).getD 0

/-- The number that a line of input spells: an optional sign, digits of any script, an optional
fraction. -/
def input? (text : List Char) : Option Float :=
  let (negative, cs) := spanSign text
  plain? Text.digitValue? negative cs

/-- The exponent part at the end of a number, zero if there is none. -/
def exponent? : List Char → Option Int
  | [] => some 0
  | c :: cs =>
    if c = 'e' ∨ c = 'E' then
      let (negative, rest) := spanSign cs
      match spanDigits asciiDigit? rest with
      | ([], _) => none
      | (digits, []) => some (if negative then -ofDigits digits else ofDigits digits)
      | _ => none
    else none

/-- Digits with a point somewhere and an exponent. -/
def scientific? (negative : Bool) (cs : List Char) : Option Float :=
  let (digits, rest) := spanDigits asciiDigit? cs
  let (fraction, tail) :=
    match rest with
    | '.' :: rest => spanDigits asciiDigit? rest
    | _ => ([], rest)
  if digits.isEmpty && fraction.isEmpty then none
  else
    (exponent? tail).map fun exponent =>
      ofDecimal negative (ofDigits (digits ++ fraction)) (exponent - fraction.length)

/-- Takes out underscores; each has to stand between two digits.  The first argument says whether
the character before is a digit. -/
def dropUnderscores : Bool → List Char → Option (List Char)
  | _, [] => some []
  | afterDigit, '_' :: c :: cs =>
    if afterDigit && c.isDigit then (dropUnderscores true cs).map (c :: ·) else none
  | _, c :: cs =>
    if c = '_' then none else (dropUnderscores c.isDigit cs).map (c :: ·)

/-- Blanks and digits of other scripts in their ASCII form; nothing else of other scripts is part of
a number. -/
def toAscii (c : Char) : Char :=
  if c.toNat < 128 then c
  else if Text.isBlank c then ' '
  else
    match Text.digitValue? c with
    | some d => Char.ofNat (48 + d)
    | none => '?'

/-- The blanks allowed around a number. -/
def isLayout (c : Char) : Bool :=
  c == ' ' || (9 ≤ c.toNat && c.toNat ≤ 13)

/-- A number in the widest sense, with its sign already taken off. -/
def magnitude? (negative : Bool) (cs : List Char) : Option Float :=
  let word := cs.map Char.toLower
  if word = "inf".toList ∨ word = "infinity".toList then
    some (ofCode negative (2047 <<< 52))
  else if word = "nan".toList then some (Float.ofBits 0x7ff8000000000000)
  else scientific? negative cs

/-- Reads a number in the widest sense. -/
def read? (text : String) : Option Float := do
  let cs := text.toList.map toAscii
  let cs := ((cs.dropWhile isLayout).reverse.dropWhile isLayout).reverse
  let (negative, rest) := spanSign (← dropUnderscores false cs)
  magnitude? negative rest

end Parlance.Number
