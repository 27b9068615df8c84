import Parlance.Number.Text
import Parlance.Text.Quoted
import Parlance.Tree.Codec

/-!
# Values as text

`Tree.shown` is the text of a value in the output of a program.  Truth values, numbers and texts
have their forms in the language; whatever else a hand-made tree can hold is shown by `detail`,
where texts are quoted and a node is written as its kind with its parts in parentheses.

The text has no bound here.  Of a value nested hundreds of levels deep, or of an integer with more
than 4300 digits (`Json.maxDigits`), no text is made and the run breaks off; no source has such
values, and for hand-made trees this is left out.
-/

namespace Parlance

namespace Json

mutual

/-- The detailed form of a value.  A record is taken for a node: its first field is the kind. -/
def detail : Json → List Char
  | .null => "None".toList
  | .flag true => "True".toList
  | .flag false => "False".toList
  | .int n => (Number.integerText n).toList
  | .number x => (Number.dataText x).toList
  | .text s => (Text.quoted s).toList
  | .list items => '[' :: detailItems items ++ [']']
  | .record ((_, .text label) :: fields) => label.toList ++ '(' :: detailFields fields ++ [')']
  | .record _ => []

/-- The detailed forms of items, with commas between them. -/
def detailItems : List Json → List Char
  | [] => []
  | [item] => detail item
  | item :: next :: items => detail item ++ ',' :: ' ' :: detailItems (next :: items)

/-- The detailed forms of the parts of a node, with their names and with commas between them. -/
def detailFields : List (String × Json) → List Char
  | [] => []
  | [(name, value)] => name.toList ++ '=' :: detail value
  | (name, value) :: next :: fields =>
    name.toList ++ '=' :: detail value ++ ',' :: ' ' :: detailFields (next :: fields)

end

/-- The text of a value in a message: a text stands for itself, all else is in detail. -/
def plain : Json → String
  | .text s => s
  | other => String.ofList (detail other)

end Json

namespace Tree

/-- The text of a tree in a message. -/
def plain : Tree → String
  | .text s => s
  | other => String.ofList other.form.detail

/-- The text of a value in the output. -/
def shown : Tree → String
  | .flag true => "true"
  | .flag false => "false"
  | .number x => Number.display x
  | other => other.plain

/-- The name of the kind of a value. -/
def kindName : Tree → String
  | .flag _ => "boolean"
  | .number _ => "number"
  | .text _ => "text"
  | .int _ => "int"
  | .null => "NoneType"
  | .list _ => "list"
  | t => (t.kind?.map Kind.label).getD ""

/-- The two values are of one kind. -/
def sameKind (a b : Tree) : Bool :=
  a.kindName == b.kindName

/-- The name under which a message complains about a misplaced tree. -/
def className : Tree → String
  | .flag _ => "bool"
  | .number _ => "float"
  | .text _ => "str"
  | .int _ => "int"
  | .null => "NoneType"
  | .list _ => "list"
  | t => "parseon.ast." ++ (t.kind?.map Kind.label).getD ""

/-- The value of a flag that may be given by any tree: zero and what is empty count as false. -/
def isTrue : Tree → Bool
  | .null => false
  | .flag b => b
  | .int n => n != 0
  | .number x => !(x == 0)
  | .text s => !s.isEmpty
  | .list items => !items.isEmpty
  | _ => true

end Tree

end Parlance
