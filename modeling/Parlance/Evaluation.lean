import Parlance.Builtin
import Parlance.Environment
import Parlance.Operator

/-!
# Evaluating expressions

An expression only reads the environment: evaluation is a function of the two.  Its first argument
is the room that is left for nesting.  Operands, arguments and the right sides of operators are one
level deeper than what they belong to; the left side of an operator is not, so a chain like
`1 + 2 + … + n` may be of any length.  To that end a chain is first laid out as its leftmost operand
and the links after it, and then worked through from the left.
-/

namespace Parlance

/-- An operator and its right operand, waiting for the value to its left. -/
structure Link where
  op : Tree
  right : Tree
  line : Tree

namespace Tree

/-- Lays out a chain of operators in front of the given links. -/
def chainOnto (links : List Link) : Tree → Tree × List Link
  | .binary op left right line => left.chainOnto (⟨op, right, line⟩ :: links)
  | head => (head, links)

/-- The leftmost operand of a chain of operators, and its links from left to right. -/
def chain (t : Tree) : Tree × List Link :=
  t.chainOnto []

end Tree

/-- Carries on from the value to the left of a link.  `and` and `or` look at their right operand
only if the left one does not decide. -/
def Link.resume (eval : Tree → Except Failure Tree) (left : Tree) (link : Link) :
    Except Failure Tree :=
  let second : Except Failure Tree := do
    match ← eval link.right with
    | .flag b => .ok (.flag b)
    | _ => .error (.problem link.line .operandsNotFlags)
  match link.op, left with
  | .text "and", .flag true => second
  | .text "and", .flag false => .ok (.flag false)
  | .text "or", .flag true => .ok (.flag true)
  | .text "or", .flag false => second
  | .text "and", _ => .error (.problem link.line .operandsNotFlags)
  | .text "or", _ => .error (.problem link.line .operandsNotFlags)
  | op, _ => do applyBinary op link.line left (← eval link.right)

/-- The value of an expression in an environment. -/
def evaluate (env : Environment) : Nat → Tree → Except Failure Tree
  | 0, _ => .error .tooDeep
  | room + 1, t =>
    match t with
    | .numberLit value _ => .ok (.number value)
    | .nanLit .. => .ok (.number Number.nan)
    | .textLit value _ => .ok value
    | .flagLit value _ => .ok value
    | .ident name line => env.get name line
    | .unary op operand line => do applyUnary op line (← evaluate env room operand)
    | .binary .. => do
      let (head, links) := t.chain
      links.foldlM (Link.resume (evaluate env room)) (← evaluate env room head)
    | .call name args line =>
      match args.elements? with
      | some items => do callBuiltin name line (← items.mapM (evaluate env room))
      | none => .error (.fault .wrongType)
    | other => .error (.fault (.unexpectedExpression other))

/-- The truth of a condition. -/
def evaluateCondition (env : Environment) (room : Nat) (condition : Tree) :
    Except Failure Bool := do
  match ← evaluate env room condition with
  | .flag b => .ok b
  | _ =>
    match condition.line? with
    | some line => .error (.problem line .conditionNotFlag)
    | none => .error (.fault .noSuchPart)

end Parlance
