import Parlance.Tree.Shown

/-!
# Why a run stops

A `Problem` is a mistake of the program at a line.  A `Fault` is a tree that no program has: a value
where a node is due, a part that is not there.  Programs in the strict form never run into one.
-/

namespace Parlance

/-- A mistake of a running program, or its cancellation. -/
inductive Problem
  | cancelled
  | noInput
  | undefinedName (name : String)
  | redeclaredFixed (name : String)
  | assignedFixed (name : String)
  | conditionNotFlag
  | boundsNotNumbers
  | operandsNotFlags
  | arithmeticMismatch
  | comparisonMismatch
  | divisionByZero
  | overflow
  | unknownUnary (op : String)
  | unknownOperator (op : String)
  | unknownFunction (name : String)
  | wrongArity (name : String) (expected given : Nat)
  | argumentsNotNumbers (name : String)
  | outsideDomain
  | floorOfInfinity
  | floorOfNan
  | tooDeep
  | leaveOutsideLoop
  | nextOutsideLoop
  deriving DecidableEq, Repr

/-- The wording of a problem. -/
def Problem.message : Problem → String
  | .cancelled => "execution cancelled"
  | .noInput => "no input available"
  | .undefinedName name => "undefined variable '" ++ name ++ "'"
  | .redeclaredFixed name => "cannot redeclare immutable binding '" ++ name ++ "'"
  | .assignedFixed name => "cannot assign to immutable binding '" ++ name ++ "'"
  | .conditionNotFlag => "condition must be boolean"
  | .boundsNotNumbers => "loop bounds must be numbers"
  | .operandsNotFlags => "logical operator requires boolean operands"
  | .arithmeticMismatch => "type mismatch in arithmetic"
  | .comparisonMismatch => "type mismatch in comparison"
  | .divisionByZero => "division by zero"
  | .overflow => "numeric overflow"
  | .unknownUnary op => "unsupported unary operator " ++ op
  | .unknownOperator op => "unknown operator " ++ op
  | .unknownFunction name => "unknown function '" ++ name ++ "'"
  | .wrongArity name expected given =>
    "function '" ++ name ++ "' expects " ++ toString expected ++
      (if expected = 1 then " argument" else " arguments") ++ ", got " ++ toString given
  | .argumentsNotNumbers name => "function '" ++ name ++ "' expects number arguments"
  | .outsideDomain => "domain error"
  | .floorOfInfinity => "cannot convert float infinity to integer"
  | .floorOfNan => "cannot convert float NaN to integer"
  | .tooDeep => "expression too deeply nested"
  | .leaveOutsideLoop => "'break' outside of loop"
  | .nextOutsideLoop => "'continue' outside of loop"

/-- A tree that no program has. -/
inductive Fault
  | wrongType
  | noSuchPart
  | unexpectedStatement (found : Tree)
  | unexpectedExpression (found : Tree)

/-- The wording of a fault, where it has one. -/
def Fault.message? : Fault → Option String
  | .wrongType | .noSuchPart => none
  | .unexpectedStatement found =>
    some ("execute: unexpected node type <class '" ++ found.className ++ "'>")
  | .unexpectedExpression found =>
    some ("evaluate: unexpected node type <class '" ++ found.className ++ "'>")

/-- Why a run stops before its end.  `tooDeep` is a problem still without a line; `endless` says
that a loop went on for longer than the run was allowed to follow it. -/
inductive Failure
  | problem (line : Tree) (problem : Problem)
  | fault (fault : Fault)
  | tooDeep
  | endless

/-- Gives a nesting that went too deep the line of the statement it happened in. -/
def Failure.at (line : Tree) : Failure → Failure
  | .tooDeep => .problem line .tooDeep
  | other => other

end Parlance
