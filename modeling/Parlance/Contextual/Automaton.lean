import Parlance.Contextual.Lexeme
import Parlance.Mistake
import Parlance.Number.Reading

/-!
# A stack of unfinished constructs

The second front end goes through the source word by word.  What has been begun and not finished is
kept on two stacks: `Open` for the blocks around the current statement and `Pending` for the
operators and parentheses around the current operand.  So nesting costs no recursion and has no
limit.

Each word is looked for in the situation of the moment (`State.situation`) and then either advances
the state (`State.step`) or is the first word that fits no program.

This is the LALR automaton of the grammar with its stack read as data.  A step does all reductions
that the automaton does before it shifts the word, and builds their nodes: `settle` reduces the
operators that bind tightly enough, `Purpose.finish?` a simple statement, `Open.close` a block with
the statement around it.
-/

namespace Parlance.Contextual

/-- What an operand or a whole expression still has to be combined with. -/
inductive Pending
  | group
  | call (name : String) (line : Nat) (args : List Expr)
  | unary (op : UnaryOp) (line : Nat)
  | binary (op : BinaryOp) (left : Expr)

/-- What an expression is for. -/
inductive Purpose
  | declare (name : String) (fixed : Bool) (line : Nat)
  | assign (name : String) (line : Nat)
  | say (line : Nat)
  | display (line : Nat)
  | condition (line : Nat) (earlier : List Branch) (branchLine : Nat)
  | first (name : String) (line : Nat)
  | last (name : String) (first : Expr) (line : Nat)
  | whilst (line : Nat)

/-- What a name is for. -/
inductive Target
  | declare (fixed : Bool)
  | assign
  | ask
  | loop

/-- A block around the current statement, with the statements before it, latest first. -/
inductive Open
  | branch (before : List Stmt) (line : Nat) (earlier : List Branch) (condition : Expr)
      (branchLine : Nat)
  | otherwise (before : List Stmt) (line : Nat) (branches : List Branch)
  | range (before : List Stmt) (name : String) (first last : Expr) (line : Nat)
  | whilst (before : List Stmt) (condition : Expr) (line : Nat)

/-- How far the current statement has been read.  At `name` the operand that has just ended is a
bare name, so arguments may follow; at `operator` it is anything else.

A point is a place in the rule of the statement that is being read, or in that of an expression in
it; between statements it is the situation that tells the places apart. -/
inductive Point
  | statement (situation : Situation)
  | target (target : Target) (line : Nat)
  | assignment (purpose : Purpose)
  | condition (line : Nat)
  | body (condition : Expr) (line : Nat)
  | operand (purpose : Purpose) (pending : List Pending)
  | name (purpose : Purpose) (pending : List Pending) (name : String) (line : Nat)
  | operator (purpose : Purpose) (pending : List Pending) (value : Expr)

/-- The blocks around the current statement, the statements before it in its own block, latest
first, and the statement itself as far as it has been read. -/
structure State where
  blocks : List Open := []
  done : List Stmt := []
  point : Point := .statement .start

/-- How tightly an operator binds. -/
def binaryLevel : BinaryOp → Nat
  | .or => 1
  | .and => 2
  | .equal | .unequal => 4
  | .less | .lessEqual | .greater | .greaterEqual => 5
  | .add | .subtract => 6
  | .multiply | .divide | .remainder => 7

/-- How tightly an operator with one operand binds. -/
def unaryLevel : UnaryOp → Nat
  | .not => 3
  | .negate => 8

/-- Combines a value with the operators before it that bind at least as tightly as the level. -/
def settle (level : Nat) : List Pending → Expr → List Pending × Expr
  | .unary op line :: rest, value =>
    if level ≤ unaryLevel op then settle level rest (.unary op value line)
    else (.unary op line :: rest, value)
  | .binary op left :: rest, value =>
    if level ≤ binaryLevel op then settle level rest (Expr.join op left value)
    else (.binary op left :: rest, value)
  | pending, value => (pending, value)

/-- The situation before an operand. -/
def operandSituation : List Pending → Situation
  | .call _ _ [] :: _ => .argumentDue
  | .unary .negate _ :: _ => .tightDue
  | .binary .or _ :: _ | .binary .and _ :: _ => .operandDue
  | .binary _ _ :: _ => .tightDue
  | _ => .operandDue

/-- The statement that a complete expression finishes, if it finishes one. -/
def Purpose.finish? (purpose : Purpose) (value : Expr) : Option Stmt :=
  match purpose with
  | .declare name fixed line => some (.declare name value fixed line)
  | .assign name line => some (.assign name value line)
  | .say line => some (.say value line)
  | .display line => some (.display value line)
  | _ => none

/-- The situation at a point. -/
def Point.situation : Point → Situation
  | .statement situation => situation
  | .target .. => .nameDue
  | .assignment _ => .assignDue
  | .condition _ => .parenDue
  | .body .. => .doDue
  | .operand _ pending => operandSituation pending
  | .name .. => .nameDone
  | .operator .. => .operandDone

/-- The situation of the moment. -/
def State.situation (s : State) : Situation :=
  s.point.situation

/-- The branch that ends with the statements read so far. -/
def endBranch (done : List Stmt) (earlier : List Branch) (condition : Expr) (line : Nat) :
    List Branch :=
  earlier ++ [.mk condition done.reverse line]

/-- The statement that ends when a block does, and the statements before it. -/
def Open.close (done : List Stmt) : Open → List Stmt
  | .branch before line earlier condition branchLine =>
    .choose (endBranch done earlier condition branchLine) none line :: before
  | .otherwise before line branches => .choose branches (some done.reverse) line :: before
  | .range before name first last line => .range name first last done.reverse line :: before
  | .whilst before condition line => .whilst condition done.reverse line :: before

/-- A word between statements. -/
def stepStatement (blocks : List Open) (done : List Stmt) (word : Lexeme) : Option State :=
  let stay (point : Point) : Option State := some ⟨blocks, done, point⟩
  let add (stmt : Stmt) : Option State := some ⟨blocks, stmt :: done, .statement .between⟩
  match word.terminal with
  | .keyword .setWord => stay (.target (.declare false) word.line)
  | .keyword .keepWord => stay (.target (.declare true) word.line)
  | .keyword .changeWord => stay (.target .assign word.line)
  | .keyword .askWord => stay (.target .ask word.line)
  | .keyword .loopWord => stay (.target .loop word.line)
  | .name => stay (.assignment (.assign (String.ofList word.letters) word.line))
  | .keyword .sayWord => stay (.operand (.say word.line) [])
  | .keyword .showWord => stay (.operand (.display word.line) [])
  | .keyword .whenWord | .keyword .checkWord =>
    stay (.operand (.condition word.line [] word.line) [])
  | .keyword .repeatWord => stay (.condition word.line)
  | .keyword .breakWord => add (.leave word.line)
  | .keyword .continueWord => add (.next word.line)
  | .symbol .semicolon => stay (.statement .between)
  | .keyword .endWord =>
    match blocks with
    | block :: rest => some ⟨rest, block.close done, .statement .between⟩
    | [] => none
  | .keyword .otherwiseWord =>
    match blocks with
    | .branch before line earlier condition branchLine :: rest =>
      some ⟨.otherwise before line (endBranch done earlier condition branchLine) :: rest, [],
        .statement .blockStart⟩
    | _ => none
  | .otherwiseWhen =>
    match blocks with
    | .branch before line earlier condition branchLine :: rest =>
      some ⟨rest, before, .operand (.condition line (endBranch done earlier condition branchLine)
        (word.line + word.letters.count '\n')) []⟩
    | _ => none
  | _ => none

/-- A name that is due. -/
def stepTarget (blocks : List Open) (done : List Stmt) (target : Target) (line : Nat)
    (name : String) : State :=
  match target with
  | .declare fixed => ⟨blocks, done, .assignment (.declare name fixed line)⟩
  | .assign => ⟨blocks, done, .assignment (.assign name line)⟩
  | .loop => ⟨blocks, done, .assignment (.first name line)⟩
  | .ask => ⟨blocks, .ask name line :: done, .statement .between⟩

/-- A word where an operand is due. -/
def stepOperand (purpose : Purpose) (pending : List Pending) (word : Lexeme) : Option Point :=
  match word.terminal with
  | .number =>
    let value := Number.literal (String.ofList word.letters)
    some (.operator purpose pending (.number value word.line))
  | .text =>
    some (.operator purpose pending (.text (String.ofList word.letters.tail.dropLast) word.line))
  | .keyword .trueWord => some (.operator purpose pending (.flag true word.line))
  | .keyword .falseWord => some (.operator purpose pending (.flag false word.line))
  | .name => some (.name purpose pending (String.ofList word.letters) word.line)
  | .symbol .minus => some (.operand purpose (.unary .negate word.line :: pending))
  | .keyword .notWord => some (.operand purpose (.unary .not word.line :: pending))
  | .symbol .openParen => some (.operand purpose (.group :: pending))
  | .symbol .closeParen =>
    match pending with
    | .call name line [] :: rest => some (.operator purpose rest (.call name [] line))
    | _ => none
  | _ => none

/-- A word after an expression that no operator or parenthesis is waiting for. -/
def stepComplete (blocks : List Open) (done : List Stmt) (purpose : Purpose) (value : Expr)
    (word : Lexeme) : Option State :=
  match word.terminal, purpose with
  | .keyword .doWord, .condition line earlier branchLine =>
    some ⟨.branch done line earlier value branchLine :: blocks, [], .statement .between⟩
  | .keyword .doWord, .last name first line =>
    some ⟨.range done name first value line :: blocks, [], .statement .blockStart⟩
  | .keyword .toWord, .first name line =>
    some ⟨blocks, done, .operand (.last name value line) []⟩
  | .symbol .closeParen, .whilst line => some ⟨blocks, done, .body value line⟩
  | _, _ =>
    match purpose.finish? value with
    | some stmt => stepStatement blocks (stmt :: done) word
    | none => none

/-- A word after an operand. -/
def stepOperator (blocks : List Open) (done : List Stmt) (purpose : Purpose)
    (pending : List Pending) (value : Expr) (word : Lexeme) : Option State :=
  match word.terminal.operator? with
  | some op =>
    let (pending, left) := settle (binaryLevel op) pending value
    some ⟨blocks, done, .operand purpose (.binary op left :: pending)⟩
  | none =>
    match word.terminal, settle 0 pending value with
    | .symbol .closeParen, (.group :: rest, inner) =>
      some ⟨blocks, done, .operator purpose rest inner⟩
    | .symbol .closeParen, (.call name line args :: rest, last) =>
      some ⟨blocks, done, .operator purpose rest (.call name (args.reverse ++ [last]) line)⟩
    | .symbol .comma, (.call name line args :: rest, next) =>
      some ⟨blocks, done, .operand purpose (.call name line (next :: args) :: rest)⟩
    | _, ([], whole) => stepComplete blocks done purpose whole word
    | _, _ => none

/-- One word further, if it fits.  The automaton refuses the word where this gives nothing: it has
no action for it, or none after the reductions that come before. -/
def State.step (s : State) (word : Lexeme) : Option State :=
  match s.point with
  | .statement _ => stepStatement s.blocks s.done word
  | .target target line =>
    if word.terminal = .name then
      some (stepTarget s.blocks s.done target line (String.ofList word.letters))
    else none
  | .assignment purpose =>
    if word.terminal = .symbol .assign then some { s with point := .operand purpose [] } else none
  | .condition line =>
    if word.terminal = .symbol .openParen then some { s with point := .operand (.whilst line) [] }
    else none
  | .body condition line =>
    if word.terminal = .keyword .doWord then
      some ⟨.whilst s.done condition line :: s.blocks, [], .statement .blockStart⟩
    else none
  | .operand purpose pending =>
    (stepOperand purpose pending word).map fun point => { s with point }
  | .name purpose pending name line =>
    if word.terminal = .symbol .openParen then
      some { s with point := .operand purpose (.call name line [] :: pending) }
    else stepOperator s.blocks s.done purpose pending (.name name line) word
  | .operator purpose pending value => stepOperator s.blocks s.done purpose pending value word

/-- The statements of the source, if it can end here. -/
def State.finish? (s : State) : Option (List Stmt) :=
  let complete (purpose : Purpose) (pending : List Pending) (value : Expr) : Option (List Stmt) :=
    match settle 0 pending value with
    | ([], whole) => (purpose.finish? whole).map fun stmt => stmt :: s.done
    | _ => none
  if s.blocks.isEmpty then
    match s.point with
    | .statement _ => some s.done
    | .name purpose pending name line => complete purpose pending (.name name line)
    | .operator purpose pending value => complete purpose pending value
    | _ => none
  else none

/-- A word that fits no program. -/
def unexpectedWord (word : Lexeme) : Mistake :=
  let text := String.ofList word.letters
  .grammatical ⟨word.line, text, "'" ++ text ++ "'", .unexpected⟩

/-- A source that ends too early. -/
def unexpectedEnd (line : Nat) : Mistake :=
  .grammatical ⟨line, "", Word.finish.describe, .unexpected⟩

/-- What is wrong where no acceptable word can be read: another word stands there, or none. -/
def unreadable (line : Nat) (c : Char) (cs : List Char) : Mistake :=
  match span? (fun _ => true) c cs with
  | some (terminal, letters, _) => unexpectedWord ⟨terminal, letters, line⟩
  | none => .lexical ⟨line, if c = '"' then .unterminatedText else .strayCharacter c⟩

/-- Goes on from a state through the rest of the source. -/
def parseFrom (s : State) (line : Nat) (cs : List Char) : Except Mistake Program :=
  match skipped : skipGap false line cs with
  | (here, []) =>
    match s.finish? with
    | some body => .ok ⟨body.reverse⟩
    | none => .error (unexpectedEnd here)
  | (here, c :: rest) =>
    match found : span? s.situation.accepts c rest with
    | none => .error (unreadable here c rest)
    | some (terminal, letters, after) =>
      have shorter : after.length < cs.length := by
        have gap := length_skipGap_le false line cs
        rw [skipped] at gap
        exact Nat.lt_of_lt_of_le (length_of_span? found) gap
      match s.step ⟨terminal, letters, here⟩ with
      | none => .error (unexpectedWord ⟨terminal, letters, here⟩)
      | some next => parseFrom next (here + letters.count '\n') after
termination_by cs.length
decreasing_by exact shorter

/-- Reads a program from its source. -/
def parse (source : String) : Except Mistake Program :=
  parseFrom {} 1 source.toList

end Parlance.Contextual
