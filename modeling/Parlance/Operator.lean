import Parlance.Number.Operation
import Parlance.Problem
import Parlance.Tree.Compare

/-!
# What the operators do

Arithmetic is on numbers, and every result is finite: an infinite or undefined one is an overflow.
`+` also joins texts.  Comparisons are between values of one kind.  `and` and `or` are not applied
here, since they decide for themselves whether their right operand is looked at.
-/

namespace Parlance

/-- A finite result, or an overflow. -/
def finiteResult (x : Float) : Except Problem Tree :=
  if x.isFinite then .ok (.number x) else .error .overflow

/-- An operation on numbers. -/
def arithmetic (f : Float → Float → Except Problem Tree) : Tree → Tree → Except Problem Tree
  | .number x, .number y => f x y
  | _, _ => .error .arithmeticMismatch

/-- The sum of numbers, or one text after the other. -/
def addValues : Tree → Tree → Except Problem Tree
  | .text s, .text t => .ok (.text (s ++ t))
  | a, b => arithmetic (fun x y => finiteResult (x + y)) a b

/-- An operation that has no result at zero. -/
def unlessZero (f : Float → Float → Float) (x y : Float) : Except Problem Tree :=
  if y == 0 then .error .divisionByZero else finiteResult (f x y)

/-- A comparison by order.  Values without an order at all are a fault. -/
def compareBy (holds : Ordering → Bool) (line a b : Tree) : Except Failure Tree :=
  if a.sameKind b then
    match Tree.order a b with
    | .ordered o => .ok (.flag (holds o))
    | .unordered => .ok (.flag false)
    | .incomparable => .error (.fault .wrongType)
  else .error (.problem line .comparisonMismatch)

/-- A comparison for being equal. -/
def compareSame (wanted : Bool) (line a b : Tree) : Except Failure Tree :=
  if a.sameKind b then .ok (.flag (Tree.same a b == wanted))
  else .error (.problem line .comparisonMismatch)

/-- Puts a problem at a line. -/
def atLine (line : Tree) : Except Problem Tree → Except Failure Tree
  | .ok value => .ok value
  | .error problem => .error (.problem line problem)

/-- Applies an operator to its two operands. -/
def BinaryOp.apply (op : BinaryOp) (line a b : Tree) : Except Failure Tree :=
  match op with
  | .or | .and => .error (.problem line (.unknownOperator op.symbol))
  | .add => atLine line (addValues a b)
  | .subtract => atLine line (arithmetic (fun x y => finiteResult (x - y)) a b)
  | .multiply => atLine line (arithmetic (fun x y => finiteResult (x * y)) a b)
  | .divide => atLine line (arithmetic (unlessZero (· / ·)) a b)
  | .remainder => atLine line (arithmetic (unlessZero Number.remainder) a b)
  | .equal => compareSame true line a b
  | .unequal => compareSame false line a b
  | .less => compareBy (· == .lt) line a b
  | .lessEqual => compareBy (· != .gt) line a b
  | .greater => compareBy (· == .gt) line a b
  | .greaterEqual => compareBy (· != .lt) line a b

/-- Applies the operator that a tree names. -/
def applyBinary (op line a b : Tree) : Except Failure Tree :=
  match op with
  | .text s =>
    match BinaryOp.ofSymbol? s with
    | some known => known.apply line a b
    | none => .error (.problem line (.unknownOperator s))
  | .null | .flag _ | .int _ | .number _ => .error (.problem line (.unknownOperator op.plain))
  | _ => .error (.fault .wrongType)

/-- Applies the operator that a tree names to its one operand. -/
def applyUnary (op line operand : Tree) : Except Failure Tree :=
  match op with
  | .text "not" =>
    match operand with
    | .flag b => .ok (.flag !b)
    | _ => .error (.problem line .operandsNotFlags)
  | .text "-" =>
    match operand with
    | .number x => .ok (.number (-x))
    | _ => .error (.problem line .arithmeticMismatch)
  | _ => .error (.problem line (.unknownUnary op.plain))

end Parlance
