import Parlance.Json
import Parlance.Number.Reading
import Parlance.Tree

/-!
# Trees as JSON

A node is a record whose field `type` names its kind and whose other fields are its parts; values
and lists stand for themselves (`Tree.form`).  `Tree.toJson` writes, `Tree.ofJson` reads.  Reading
drops fields that the kind does not have, and makes a number of whatever a number literal holds.

Both go down a tree by recursion, and have only so much room for it: a value or a node takes one
unit, a list two, one of them for the loop over its items.  What lies deeper than the room is
neither written nor read, and the attempt fails with `tooDeep`.
-/

namespace Parlance

/-- Why a tree is not written, or a JSON value is no tree. -/
inductive CodecError
  | kindNotScalar
  | unknownKind (type : Json)
  | missingField (kind : Kind) (field : String)
  | numberUnreadable
  | numberTooLarge
  | notNumeric
  | tooDeep

namespace Tree

/-- The room that a command has for writing and reading trees, and the texts of their JSON forms. -/
def room : Nat := 900

/-- The record of a node. -/
def node (kind : Kind) (parts : List Json) : Json :=
  .record (("type", .text kind.label) :: kind.fields.zip parts)

/-- The parts of a node, in the order of its fields.  The value of a number literal is one. -/
def parts : Tree → List Tree
  | .program body => [body]
  | .block statements => [statements]
  | .declare name value fixed line => [name, value, fixed, line]
  | .assign name value line => [name, value, line]
  | .say value line | .display value line => [value, line]
  | .ask name line | .ident name line => [name, line]
  | .branch condition body line | .whilst condition body line => [condition, body, line]
  | .choose branches otherwise line => [branches, otherwise, line]
  | .range name first last body line => [name, first, last, body, line]
  | .leave line | .next line => [line]
  | .numberLit value line => [.number value, line]
  | .nanLit _ line => [.number Number.nan, line]
  | .textLit value line | .flagLit value line => [value, line]
  | .unary op operand line => [op, operand, line]
  | .binary op left right line => [op, left, right, line]
  | .call name args line => [name, args, line]
  | .null | .flag _ | .int _ | .number _ | .text _ | .list _ => []

mutual

/-- The JSON form of a tree, however deep it is. -/
def form : Tree → Json
  | .null => .null
  | .flag value => .flag value
  | .int value => .int value
  | .number value => .number value
  | .text value => .text value
  | .list items => .list (forms items)
  | .program body => node .program [body.form]
  | .block statements => node .block [statements.form]
  | .declare name value fixed line =>
    node .declare [name.form, value.form, fixed.form, line.form]
  | .assign name value line => node .assign [name.form, value.form, line.form]
  | .say value line => node .say [value.form, line.form]
  | .display value line => node .display [value.form, line.form]
  | .ask name line => node .ask [name.form, line.form]
  | .branch condition body line => node .branch [condition.form, body.form, line.form]
  | .choose branches otherwise line => node .choose [branches.form, otherwise.form, line.form]
  | .range name first last body line =>
    node .range [name.form, first.form, last.form, body.form, line.form]
  | .whilst condition body line => node .whilst [condition.form, body.form, line.form]
  | .leave line => node .leave [line.form]
  | .next line => node .next [line.form]
  | .numberLit value line => node .numberLit [.number value, line.form]
  | .nanLit _ line => node .numberLit [.number Number.nan, line.form]
  | .textLit value line => node .textLit [value.form, line.form]
  | .flagLit value line => node .flagLit [value.form, line.form]
  | .ident name line => node .ident [name.form, line.form]
  | .unary op operand line => node .unary [op.form, operand.form, line.form]
  | .binary op left right line => node .binary [op.form, left.form, right.form, line.form]
  | .call name args line => node .call [name.form, args.form, line.form]

/-- The JSON forms of trees. -/
def forms : List Tree → List Json
  | [] => []
  | t :: ts => t.form :: forms ts

end

/-- Writes a tree in its JSON form, the parts of a node and the items of a list one after the
other. -/
def toJson : Nat → Tree → Except CodecError Json
  | 0, _ | 1, .list _ => .error .tooDeep
  | room + 2, .list items => return .list (← items.mapM (toJson room))
  | room + 1, t =>
    match t.kind? with
    | some kind => return node kind (← t.parts.mapM (toJson room))
    | none => return t.form

/-- The number that a value stands for. -/
def toNumber : Tree → Except CodecError Float
  | .number x => .ok x
  | .flag b => .ok (if b then 1 else 0)
  | .int n =>
    let x := Number.ofInteger n
    if x.isFinite then .ok x else .error .numberTooLarge
  | .text s =>
    match Number.read? s with
    | some x => .ok x
    | none => .error .numberUnreadable
  | _ => .error .notNumeric

/-- A number literal at a place, from what it holds and the number which that stands for. -/
def literalAt (place : List Nat) (given : Tree) (value : Float) (line : Tree) : Tree :=
  match given with
  | .text _ => if value.isNaN then .nanLit place line else .numberLit value line
  | _ => .numberLit value line

/-- Makes a node from its parts, asked for in order; the number of a number literal is made last. -/
def build (kind : Kind) (place : List Nat) (part : String → Except CodecError Tree) :
    Except CodecError Tree :=
  match kind with
  | .program => return .program (← part "body")
  | .block => return .block (← part "statements")
  | .declare =>
    return .declare (← part "name") (← part "expr") (← part "is_const") (← part "line")
  | .assign => return .assign (← part "name") (← part "value") (← part "line")
  | .say => return .say (← part "expr") (← part "line")
  | .display => return .display (← part "expr") (← part "line")
  | .ask => return .ask (← part "name") (← part "line")
  | .branch => return .branch (← part "condition") (← part "block") (← part "line")
  | .choose => return .choose (← part "branches") (← part "else_block") (← part "line")
  | .range =>
    return .range (← part "var") (← part "start") (← part "end") (← part "body") (← part "line")
  | .whilst => return .whilst (← part "condition") (← part "body") (← part "line")
  | .leave => return .leave (← part "line")
  | .next => return .next (← part "line")
  | .numberLit => do
    let value ← part "value"
    let line ← part "line"
    return literalAt place value (← value.toNumber) line
  | .textLit => return .textLit (← part "value") (← part "line")
  | .flagLit => return .flagLit (← part "value") (← part "line")
  | .ident => return .ident (← part "name") (← part "line")
  | .unary => return .unary (← part "op") (← part "operand") (← part "line")
  | .binary => return .binary (← part "op") (← part "left") (← part "right") (← part "line")
  | .call => return .call (← part "name") (← part "args") (← part "line")

/-- The kind that a record claims to be of. -/
def claimedKind (fields : List (String × Json)) : Except CodecError Kind :=
  match (Json.lookup "type" fields).getD .null with
  | .text label =>
    match Kind.ofLabel? label with
    | some kind => .ok kind
    | none => .error (.unknownKind (.text label))
  | .list _ | .record _ => .error .kindNotScalar
  | other => .error (.unknownKind other)

/-- A part of a node, read from its field in the record. -/
def part (kind : Kind) (fields : List (String × Json)) (read : Json → Except CodecError Tree)
    (name : String) : Except CodecError Tree :=
  match Json.lookup name fields with
  | some value => read value
  | none => .error (.missingField kind name)

/-- Reads a tree from its JSON form at a place, which is the positions on the way to it, the last
one first.  Of a record only the fields of its kind are read, in their order. -/
def ofJsonAt : Nat → List Nat → Json → Except CodecError Tree
  | 0, _, _ | 1, _, .list _ => .error .tooDeep
  | room + 2, place, .list items =>
    return .list (← items.zipIdx.mapM fun item => ofJsonAt room (item.2 :: place) item.1)
  | room + 1, place, .record fields => do
    let kind ← claimedKind fields
    build kind place fun name =>
      part kind fields (ofJsonAt room (kind.fields.idxOf name :: place)) name
  | _ + 1, _, .null => .ok .null
  | _ + 1, _, .flag value => .ok (.flag value)
  | _ + 1, _, .int value => .ok (.int value)
  | _ + 1, _, .number value => .ok (.number value)
  | _ + 1, _, .text value => .ok (.text value)

/-- Reads a tree from its JSON form. -/
def ofJson (room : Nat) (json : Json) : Except CodecError Tree :=
  ofJsonAt room [] json

end Tree

end Parlance
