import Parlance.Json
import Parlance.Number.Text
import Parlance.Text.Quoted

/-!
# Writing JSON

One writer with two layouts: `oneLine` puts a value on a single line, `indented` gives every element
and every field a line of its own, two blanks deeper than the container.  Texts are written as they
are but for quotes, backslashes and control characters.
-/

namespace Parlance.Json

/-- The words of JSON for what is not a finite number. -/
def special : Number.Special := ⟨"NaN", "Infinity"⟩

/-- One character of a text. -/
def escape (c : Char) : List Char :=
  if c = '"' then ['\\', '"']
  else if c = '\\' then ['\\', '\\']
  else if c = '\n' then ['\\', 'n']
  else if c = '\r' then ['\\', 'r']
  else if c = '\t' then ['\\', 't']
  else if c = '\x08' then ['\\', 'b']
  else if c = '\x0c' then ['\\', 'f']
  else if c.toNat < 32 then '\\' :: 'u' :: Text.hex 4 c.toNat
  else [c]

/-- A text between double quotes. -/
def quote (text : String) : List Char :=
  '"' :: text.toList.flatMap escape ++ ['"']

/-- How the parts of a container are set apart. -/
inductive Layout
  | oneLine
  | indented
  deriving DecidableEq, Repr

/-- What stands before a part of a container that is `depth` levels deep. -/
def Layout.lead : Layout → Nat → List Char
  | .oneLine, _ => []
  | .indented, depth => '\n' :: List.replicate (2 * depth) ' '

/-- What stands between two parts, before the lead. -/
def Layout.comma : Layout → List Char
  | .oneLine => [',', ' ']
  | .indented => [',']

mutual

/-- The text of a value inside `depth` containers. -/
def write (layout : Layout) (depth : Nat) : Json → List Char
  | .null => "null".toList
  | .flag true => "true".toList
  | .flag false => "false".toList
  | .int n => (Number.integerText n).toList
  | .number x => (Number.dataTextWith special x).toList
  | .text s => quote s
  | .list [] => ['[', ']']
  | .list (item :: items) =>
    '[' :: layout.lead (depth + 1) ++ write layout (depth + 1) item ++
      writeItems layout depth items ++ layout.lead depth ++ [']']
  | .record [] => ['{', '}']
  | .record ((name, value) :: fields) =>
    '{' :: layout.lead (depth + 1) ++ quote name ++ ':' :: ' ' :: write layout (depth + 1) value ++
      writeFields layout depth fields ++ layout.lead depth ++ ['}']

/-- The items of a list after the first. -/
def writeItems (layout : Layout) (depth : Nat) : List Json → List Char
  | [] => []
  | item :: items =>
    layout.comma ++ layout.lead (depth + 1) ++ write layout (depth + 1) item ++
      writeItems layout depth items

/-- The fields of a record after the first. -/
def writeFields (layout : Layout) (depth : Nat) : List (String × Json) → List Char
  | [] => []
  | (name, value) :: fields =>
    layout.comma ++ layout.lead (depth + 1) ++ quote name ++ ':' :: ' ' ::
      write layout (depth + 1) value ++ writeFields layout depth fields

end

mutual

/-- No integer in the value is too long to be written. -/
def isWritable : Json → Bool
  | .int n => (Nat.toDigits 10 n.natAbs).length ≤ maxDigits
  | .list items => itemsWritable items
  | .record fields => fieldsWritable fields
  | _ => true

/-- No integer in the items is too long to be written. -/
def itemsWritable : List Json → Bool
  | [] => true
  | item :: items => item.isWritable && itemsWritable items

/-- No integer in the fields is too long to be written. -/
def fieldsWritable : List (String × Json) → Bool
  | [] => true
  | (_, value) :: fields => value.isWritable && fieldsWritable fields

end

/-- The value on one line. -/
def oneLine (value : Json) : String :=
  String.ofList (write .oneLine 0 value)

/-- The value over several lines. -/
def indented (value : Json) : String :=
  String.ofList (write .indented 0 value)

end Parlance.Json
