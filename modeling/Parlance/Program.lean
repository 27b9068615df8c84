/-!
# Programs

The abstract form of a program, as both front ends build it.  Every construct carries the line that
a report about it names.
-/

namespace Parlance

/-- Operators with one operand. -/
inductive UnaryOp
  | negate
  | not
  deriving DecidableEq, Repr

/-- The way an operator is written. -/
def UnaryOp.symbol : UnaryOp → String
  | .negate => "-"
  | .not => "not"

/-- Operators with two operands. -/
inductive BinaryOp
  | or | and
  | equal | unequal
  | less | lessEqual | greater | greaterEqual
  | add | subtract
  | multiply | divide | remainder
  deriving DecidableEq, Repr

namespace BinaryOp

/-- The way an operator is written. -/
def symbol : BinaryOp → String
  | .or => "or"
  | .and => "and"
  | .equal => "=="
  | .unequal => "!="
  | .less => "<"
  | .lessEqual => "<="
  | .greater => ">"
  | .greaterEqual => ">="
  | .add => "+"
  | .subtract => "-"
  | .multiply => "*"
  | .divide => "/"
  | .remainder => "%"

/-- All operators with two operands. -/
def all : List BinaryOp :=
  [.or, .and, .equal, .unequal, .less, .lessEqual, .greater, .greaterEqual, .add, .subtract,
   .multiply, .divide, .remainder]

/-- The operator written in the given way. -/
def ofSymbol? (s : String) : Option BinaryOp :=
  all.find? fun op => op.symbol == s

theorem ofSymbol?_symbol (op : BinaryOp) : ofSymbol? op.symbol = some op := by
  cases op <;> decide

end BinaryOp

/-- Expressions. -/
inductive Expr
  | number (value : Float) (line : Nat)
  | text (content : String) (line : Nat)
  | flag (value : Bool) (line : Nat)
  | name (name : String) (line : Nat)
  | unary (op : UnaryOp) (operand : Expr) (line : Nat)
  | binary (op : BinaryOp) (left right : Expr) (line : Nat)
  | call (name : String) (args : List Expr) (line : Nat)

/-- The line of an expression. -/
def Expr.line : Expr → Nat
  | .number _ line | .text _ line | .flag _ line | .name _ line => line
  | .unary _ _ line | .binary _ _ _ line | .call _ _ line => line

/-- An operation stands on the line of its left operand. -/
def Expr.join (op : BinaryOp) (left right : Expr) : Expr :=
  .binary op left right left.line

mutual

/-- Statements. -/
inductive Stmt
  | declare (name : String) (value : Expr) (fixed : Bool) (line : Nat)
  | assign (name : String) (value : Expr) (line : Nat)
  | say (value : Expr) (line : Nat)
  | display (value : Expr) (line : Nat)
  | ask (name : String) (line : Nat)
  | choose (branches : List Branch) (otherwise : Option (List Stmt)) (line : Nat)
  | range (name : String) (first last : Expr) (body : List Stmt) (line : Nat)
  | whilst (condition : Expr) (body : List Stmt) (line : Nat)
  | leave (line : Nat)
  | next (line : Nat)

/-- A condition and the statements it guards. -/
inductive Branch
  | mk (condition : Expr) (body : List Stmt) (line : Nat)

end

/-- A program is its statements in order. -/
structure Program where
  body : List Stmt

end Parlance
