import Parlance.Mistake
import Parlance.Number.Reading

/-!
# Expressions by descent

The levels of the grammar from loose to tight are `or`, `and`, `not`, the two kinds of comparison,
sums, products, the sign, and atoms.  Each binary level is a chain of operands of the next level,
read from the left.

Every step down a level takes one unit of room, and so does every `not`, sign and pair of
parentheses on the way; when none is left the expression is too deeply nested.
-/

namespace Parlance.Descent

/-- The word that the parser stopped at, none at the end of the source, and what is wrong. -/
structure Refusal where
  found : Option Token
  complaint : Complaint
  deriving DecidableEq, Repr

/-- A result or a refusal. -/
abbrev Attempt := Except Refusal

/-- A reader takes what it is after off the front of the tokens. -/
abbrev Reader (α : Type) := List Token → Attempt (α × List Token)

/-- Refuses the next token. -/
def refuse {α : Type} (ts : List Token) (complaint : Complaint) : Attempt α :=
  .error ⟨ts.head?, complaint⟩

/-- Takes the given word off the front. -/
def expect (word : Word) : List Token → Attempt (List Token)
  | t :: ts => if t.word = word then .ok ts else refuse (t :: ts) (.expectedWord word)
  | [] => refuse [] (.expectedWord word)

/-- Takes a name off the front. -/
def expectName : Reader String := fun ts =>
  match ts with
  | ⟨.name s, _, _⟩ :: rest => .ok (s, rest)
  | _ => refuse ts .expectedName

/-- The levels of the grammar of expressions. -/
inductive Level
  | disjunction | conjunction | negation | equality | comparison | sum | product | sign | atom
  deriving DecidableEq, Repr

/-- The binary operator that a word is on a level. -/
def Level.operator? : Level → Word → Option BinaryOp
  | .disjunction, .keyword .orWord => some .or
  | .conjunction, .keyword .andWord => some .and
  | .equality, .symbol .equal => some .equal
  | .equality, .symbol .unequal => some .unequal
  | .comparison, .symbol .less => some .less
  | .comparison, .symbol .lessEqual => some .lessEqual
  | .comparison, .symbol .greater => some .greater
  | .comparison, .symbol .greaterEqual => some .greaterEqual
  | .sum, .symbol .plus => some .add
  | .sum, .symbol .minus => some .subtract
  | .product, .symbol .star => some .multiply
  | .product, .symbol .slash => some .divide
  | .product, .symbol .percent => some .remainder
  | _, _ => none

/-- The rest of a chain after its first operands.  `bound` is at least the number of tokens left. -/
def chainAfter (operand : Reader Expr) (level : Level) : Nat → Expr → Reader Expr
  | 0, left, ts => .ok (left, ts)
  | _ + 1, left, [] => .ok (left, [])
  | bound + 1, left, t :: ts =>
    match level.operator? t.word with
    | some op => do
      let (right, rest) ← operand ts
      chainAfter operand level bound (Expr.join op left right) rest
    | none => .ok (left, t :: ts)

/-- A chain of operands. -/
def chain (operand : Reader Expr) (level : Level) (bound : Nat) : Reader Expr := fun ts => do
  let (first, rest) ← operand ts
  chainAfter operand level bound first rest

/-- The arguments of a call after the first, with the closing parenthesis.  `bound` is at least the
number of tokens left. -/
def argumentsAfter (operand : Reader Expr) : Nat → Reader (List Expr)
  | bound + 1, ⟨.symbol .comma, _, _⟩ :: ts => do
    let (arg, rest) ← operand ts
    let (args, rest) ← argumentsAfter operand bound rest
    return (arg :: args, rest)
  | _, ts => do
    let rest ← expect (.symbol .closeParen) ts
    return ([], rest)

/-- The arguments of a call after the opening parenthesis. -/
def arguments (operand : Reader Expr) (bound : Nat) : Reader (List Expr) := fun ts =>
  match ts with
  | ⟨.symbol .closeParen, _, _⟩ :: rest => .ok ([], rest)
  | _ => do
    let (arg, rest) ← operand ts
    let (args, rest) ← argumentsAfter operand bound rest
    return (arg :: args, rest)

/-- An operand without operators of its own. -/
def atom (expression : Reader Expr) (bound : Nat) : Reader Expr := fun ts =>
  match ts with
  | ⟨.number digits, line, _⟩ :: rest => .ok (.number (Number.literal digits) line, rest)
  | ⟨.text content, line, _⟩ :: rest => .ok (.text content line, rest)
  | ⟨.keyword .trueWord, line, _⟩ :: rest => .ok (.flag true line, rest)
  | ⟨.keyword .falseWord, line, _⟩ :: rest => .ok (.flag false line, rest)
  | ⟨.name s, line, _⟩ :: ⟨.symbol .openParen, _, _⟩ :: rest => do
    let (args, rest) ← arguments expression bound rest
    return (.call s args line, rest)
  | ⟨.name s, line, _⟩ :: rest => .ok (.name s line, rest)
  | ⟨.symbol .openParen, _, _⟩ :: rest => do
    let (inner, rest) ← expression rest
    let rest ← expect (.symbol .closeParen) rest
    return (inner, rest)
  | _ => refuse ts .notAnOperand

/-- An expression of a level, as far as it goes.  `bound` is at least the number of tokens. -/
def expression (bound : Nat) : Nat → Level → Reader Expr
  | 0, _, ts => refuse ts .tooDeep
  | room + 1, .disjunction, ts =>
    chain (expression bound room .conjunction) .disjunction bound ts
  | room + 1, .conjunction, ts => chain (expression bound room .negation) .conjunction bound ts
  | room + 1, .negation, ts =>
    match ts with
    | ⟨.keyword .notWord, line, _⟩ :: rest => do
      let (operand, rest) ← expression bound room .negation rest
      return (.unary .not operand line, rest)
    | _ => expression bound room .equality ts
  | room + 1, .equality, ts => chain (expression bound room .comparison) .equality bound ts
  | room + 1, .comparison, ts => chain (expression bound room .sum) .comparison bound ts
  | room + 1, .sum, ts => chain (expression bound room .product) .sum bound ts
  | room + 1, .product, ts => chain (expression bound room .sign) .product bound ts
  | room + 1, .sign, ts =>
    match ts with
    | ⟨.symbol .minus, line, _⟩ :: rest => do
      let (operand, rest) ← expression bound room .sign rest
      return (.unary .negate operand line, rest)
    | _ => expression bound room .atom ts
  | room + 1, .atom, ts => atom (expression bound room .disjunction) bound ts

end Parlance.Descent
