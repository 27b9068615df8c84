import Parlance.Json
import Parlance.Number.Reading

/-!
# Reading JSON

A reader takes a value off the front of a text and hands back the rest.  Containers may stand inside
each other only so far: `readValue` has room for as many levels, and a text that goes deeper is
refused where it does.

A text is made of characters, so half of a surrogate pair, which an escape can write on its own, has
no place in it; it is refused as well.
-/

namespace Parlance.Json

/-- Why a text is not read. -/
inductive ReadError
  | malformed
  | integerTooLong
  | halfCharacter
  | tooDeep
  deriving DecidableEq, Repr

/-- A reader of one thing at the front of a text. -/
abbrev Reader (α : Type) := List Char → Except ReadError (α × List Char)

/-- The text from its first character that is not layout. -/
def skipLayout (cs : List Char) : List Char :=
  cs.dropWhile fun c => c == ' ' || c == '\t' || c == '\n' || c == '\r'

/-- The value of a hexadecimal digit. -/
def hexDigit? (c : Char) : Option Nat :=
  if '0' ≤ c ∧ c ≤ '9' then some (c.toNat - 48)
  else if 'a' ≤ c ∧ c ≤ 'f' then some (c.toNat - 87)
  else if 'A' ≤ c ∧ c ≤ 'F' then some (c.toNat - 55)
  else none

/-- The value of four hexadecimal digits. -/
def hexCode? (a b c d : Char) : Option Nat := do
  return ((← hexDigit? a) * 16 + (← hexDigit? b)) * 256 + (← hexDigit? c) * 16 + (← hexDigit? d)

/-- What an escape of one letter stands for. -/
def unescape? : Char → Option Char
  | '"' => some '"'
  | '\\' => some '\\'
  | '/' => some '/'
  | 'b' => some '\x08'
  | 'f' => some '\x0c'
  | 'n' => some '\n'
  | 'r' => some '\r'
  | 't' => some '\t'
  | _ => none

/-- The codes of a text up to its closing quote, and what follows the quote. -/
def spanText? : List Char → Option (List Nat × List Char)
  | [] => none
  | '"' :: cs => some ([], cs)
  | '\\' :: 'u' :: a :: b :: c :: d :: cs => do
    let code ← hexCode? a b c d
    let (codes, rest) ← spanText? cs
    return (code :: codes, rest)
  | '\\' :: c :: cs => do
    let char ← unescape? c
    let (codes, rest) ← spanText? cs
    return (char.toNat :: codes, rest)
  | c :: cs => do
    if c = '\\' ∨ c.toNat < 32 then none
    let (codes, rest) ← spanText? cs
    return (c.toNat :: codes, rest)

/-- Characters from codes: two halves of a surrogate pair make one character, and one half alone
makes none. -/
def joinCodes : List Nat → Option (List Char)
  | [] => some []
  | code :: rest =>
    if 0xD800 ≤ code ∧ code < 0xE000 then
      match rest with
      | [] => none
      | low :: rest =>
        if code < 0xDC00 ∧ 0xDC00 ≤ low ∧ low < 0xE000 then
          (joinCodes rest).map
            (Char.ofNat (0x10000 + (code - 0xD800) * 0x400 + (low - 0xDC00)) :: ·)
        else none
    else (joinCodes rest).map (Char.ofNat code :: ·)

/-- A text, after its opening quote. -/
def readText : Reader String := fun cs =>
  match spanText? cs with
  | some (codes, rest) =>
    match joinCodes codes with
    | some chars => .ok (String.ofList chars, rest)
    | none => .error .halfCharacter
  | none => .error .malformed

/-- The digits at the front of a text.  A zero in front stands alone. -/
def spanWhole : List Char → List Nat × List Char
  | '0' :: cs => ([0], cs)
  | cs => Number.spanDigits Number.asciiDigit? cs

/-- The fraction at the front of a text, if there is one. -/
def spanFraction : List Char → List Nat × List Char
  | '.' :: cs =>
    match Number.spanDigits Number.asciiDigit? cs with
    | ([], _) => ([], '.' :: cs)
    | found => found
  | cs => ([], cs)

/-- The exponent at the front of a text, if there is one. -/
def spanExponent : List Char → Option Int × List Char
  | [] => (none, [])
  | c :: cs =>
    if c = 'e' ∨ c = 'E' then
      let (negative, rest) := Number.spanSign cs
      match Number.spanDigits Number.asciiDigit? rest with
      | ([], _) => (none, c :: cs)
      | (digits, rest) =>
        let size : Int := Number.ofDigits digits
        (some (if negative then -size else size), rest)
    else (none, c :: cs)

/-- A number whose sign has been taken off. -/
def readNumber (negative : Bool) : Reader Json := fun cs =>
  let (digits, rest) := spanWhole cs
  if digits.isEmpty then .error .malformed
  else
    let (fraction, rest) := spanFraction rest
    let (exponent, rest) := spanExponent rest
    if fraction.isEmpty && exponent.isNone then
      if maxDigits < digits.length then .error .integerTooLong
      else
        let size : Int := Number.ofDigits digits
        .ok (.int (if negative then -size else size), rest)
    else
      .ok (.number (Number.ofDecimal negative (Number.ofDigits (digits ++ fraction))
        (exponent.getD 0 - fraction.length)), rest)

/-- The items of a list, from an item on. -/
def readItems (value : Reader Json) : Nat → Reader (List Json)
  | 0, _ => .error .malformed
  | bound + 1, cs => do
    let (item, rest) ← value (skipLayout cs)
    match skipLayout rest with
    | ',' :: rest =>
      let (more, rest) ← readItems value bound rest
      return (item :: more, rest)
    | ']' :: rest => return ([item], rest)
    | _ => .error .malformed

/-- The fields of a record, from a name on. -/
def readFields (value : Reader Json) : Nat → Reader (List (String × Json))
  | 0, _ => .error .malformed
  | bound + 1, cs => do
    let '"' :: rest := skipLayout cs | .error .malformed
    let (name, rest) ← readText rest
    let ':' :: rest := skipLayout rest | .error .malformed
    let (item, rest) ← value (skipLayout rest)
    match skipLayout rest with
    | ',' :: rest =>
      let (more, rest) ← readFields value bound rest
      return ((name, item) :: more, rest)
    | '}' :: rest => return ([(name, item)], rest)
    | _ => .error .malformed

/-- A value that is no container, at the very front of a text. -/
def readScalar : Reader Json := fun cs =>
  match cs with
  | '"' :: rest => do
    let (s, rest) ← readText rest
    return (.text s, rest)
  | 'n' :: 'u' :: 'l' :: 'l' :: rest => .ok (.null, rest)
  | 't' :: 'r' :: 'u' :: 'e' :: rest => .ok (.flag true, rest)
  | 'f' :: 'a' :: 'l' :: 's' :: 'e' :: rest => .ok (.flag false, rest)
  | 'N' :: 'a' :: 'N' :: rest => .ok (.number (Float.ofBits 0x7ff8000000000000), rest)
  | 'I' :: 'n' :: 'f' :: 'i' :: 'n' :: 'i' :: 't' :: 'y' :: rest =>
    .ok (.number (Number.ofCode false (2047 <<< 52)), rest)
  | '-' :: 'I' :: 'n' :: 'f' :: 'i' :: 'n' :: 'i' :: 't' :: 'y' :: rest =>
    .ok (.number (Number.ofCode true (2047 <<< 52)), rest)
  | '-' :: rest => readNumber true rest
  | _ => readNumber false cs

/-- A value at the very front of a text, with room for so many containers inside each other. -/
def readValue : Nat → Reader Json
  | 0, cs =>
    match cs with
    | '[' :: _ | '{' :: _ => .error .tooDeep
    | _ => readScalar cs
  | room + 1, cs =>
    match cs with
    | '[' :: rest =>
      match skipLayout rest with
      | ']' :: rest => .ok (.list [], rest)
      | _ => do
        let (found, rest) ← readItems (readValue room) cs.length rest
        return (.list found, rest)
    | '{' :: rest =>
      match skipLayout rest with
      | '}' :: rest => .ok (.record [], rest)
      | _ => do
        let (found, rest) ← readFields (readValue room) cs.length rest
        return (.record found, rest)
    | _ => readScalar cs

/-- Reads a whole text as one value. -/
def read (room : Nat) (source : String) : Except ReadError Json :=
  match readValue room (skipLayout source.toList) with
  | .error e => .error e
  | .ok (found, rest) => if (skipLayout rest).isEmpty then .ok found else .error .malformed

end Parlance.Json
