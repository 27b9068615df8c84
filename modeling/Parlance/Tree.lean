import Parlance.Program

/-!
# Trees

A tree is a program in its loose form, the one that is stored in files and that the evaluator walks:
any value may stand where a node is due, and any node where a value is due.  So the values of the
language are trees as well.  A program of the strict form has its tree (`Program.toTree`).

A number literal that spells out `nan` is a node of its own, `nanLit`, with the place that it was
read from: it is equal to itself, but not to another one.
-/

namespace Parlance

/-- A node, a value, or a list of trees. -/
inductive Tree
  | null
  | flag (value : Bool)
  | int (value : Int)
  | number (value : Float)
  | text (value : String)
  | list (items : List Tree)
  | program (body : Tree)
  | block (statements : Tree)
  | declare (name value fixed line : Tree)
  | assign (name value line : Tree)
  | say (value line : Tree)
  | display (value line : Tree)
  | ask (name line : Tree)
  | branch (condition block line : Tree)
  | choose (branches otherwise line : Tree)
  | range (name first last body line : Tree)
  | whilst (condition body line : Tree)
  | leave (line : Tree)
  | next (line : Tree)
  | numberLit (value : Float) (line : Tree)
  | nanLit (origin : List Nat) (line : Tree)
  | textLit (value line : Tree)
  | flagLit (value line : Tree)
  | ident (name line : Tree)
  | unary (op operand line : Tree)
  | binary (op left right line : Tree)
  | call (name args line : Tree)
  deriving Inhabited

/-- The kinds of nodes. -/
inductive Kind
  | program | block | declare | assign | say | display | ask | branch | choose | range | whilst
  | leave | next | numberLit | textLit | flagLit | ident | unary | binary | call
  deriving DecidableEq, Repr

namespace Kind

/-- All kinds of nodes. -/
def all : List Kind :=
  [.program, .block, .declare, .assign, .say, .display, .ask, .branch, .choose, .range, .whilst,
   .leave, .next, .numberLit, .textLit, .flagLit, .ident, .unary, .binary, .call]

/-- The name of a kind in files and messages. -/
def label : Kind → String
  | .program => "Program"
  | .block => "Block"
  | .declare => "VarDecl"
  | .assign => "Assign"
  | .say => "SayStmt"
  | .display => "ShowStmt"
  | .ask => "AskStmt"
  | .branch => "Branch"
  | .choose => "IfStmt"
  | .range => "RangeLoop"
  | .whilst => "WhileLoop"
  | .leave => "BreakStmt"
  | .next => "ContinueStmt"
  | .numberLit => "NumberLit"
  | .textLit => "TextLit"
  | .flagLit => "BoolLit"
  | .ident => "Ident"
  | .unary => "UnaryOp"
  | .binary => "BinaryOp"
  | .call => "Call"

/-- The names of the parts of a node, in order. -/
def fields : Kind → List String
  | .program => ["body"]
  | .block => ["statements"]
  | .declare => ["name", "expr", "is_const", "line"]
  | .assign => ["name", "value", "line"]
  | .say | .display => ["expr", "line"]
  | .ask | .ident => ["name", "line"]
  | .branch => ["condition", "block", "line"]
  | .choose => ["branches", "else_block", "line"]
  | .range => ["var", "start", "end", "body", "line"]
  | .whilst => ["condition", "body", "line"]
  | .leave | .next => ["line"]
  | .numberLit | .textLit | .flagLit => ["value", "line"]
  | .unary => ["op", "operand", "line"]
  | .binary => ["op", "left", "right", "line"]
  | .call => ["name", "args", "line"]

/-- The kind with the given name. -/
def ofLabel? (s : String) : Option Kind :=
  all.find? fun k => k.label == s

theorem ofLabel?_label (k : Kind) : ofLabel? k.label = some k := by
  cases k <;> decide

end Kind

namespace Tree

/-- The kind of a node; values and lists have none. -/
def kind? : Tree → Option Kind
  | .null | .flag _ | .int _ | .number _ | .text _ | .list _ => none
  | .program .. => some .program
  | .block .. => some .block
  | .declare .. => some .declare
  | .assign .. => some .assign
  | .say .. => some .say
  | .display .. => some .display
  | .ask .. => some .ask
  | .branch .. => some .branch
  | .choose .. => some .choose
  | .range .. => some .range
  | .whilst .. => some .whilst
  | .leave .. => some .leave
  | .next .. => some .next
  | .numberLit .. | .nanLit .. => some .numberLit
  | .textLit .. => some .textLit
  | .flagLit .. => some .flagLit
  | .ident .. => some .ident
  | .unary .. => some .unary
  | .binary .. => some .binary
  | .call .. => some .call

/-- The line of a node.  Programs, blocks, values and lists have none. -/
def line? : Tree → Option Tree
  | .declare _ _ _ line | .assign _ _ line => some line
  | .say _ line | .display _ line | .ask _ line => some line
  | .branch _ _ line | .choose _ _ line | .range _ _ _ _ line | .whilst _ _ line => some line
  | .leave line | .next line => some line
  | .numberLit _ line | .nanLit _ line => some line
  | .textLit _ line | .flagLit _ line | .ident _ line => some line
  | .unary _ _ line | .binary _ _ _ line | .call _ _ line => some line
  | _ => none

/-- The statements of a block. -/
def statements? : Tree → Option Tree
  | .block statements => some statements
  | _ => none

/-- The body of a program or a loop. -/
def body? : Tree → Option Tree
  | .program body | .range _ _ _ body _ | .whilst _ body _ => some body
  | _ => none

/-- What can be walked through one by one: a list, or a text, character by character. -/
def elements? : Tree → Option (List Tree)
  | .list items => some items
  | .text s => some (s.toList.map fun c => .text (String.singleton c))
  | _ => none

end Tree

/-- The tree of a line number. -/
def lineTree (line : Nat) : Tree :=
  .int line

mutual

/-- The tree of an expression. -/
def Expr.toTree : Expr → Tree
  | .number value line => .numberLit value (lineTree line)
  | .text content line => .textLit (.text content) (lineTree line)
  | .flag value line => .flagLit (.flag value) (lineTree line)
  | .name id line => .ident (.text id) (lineTree line)
  | .unary op operand line => .unary (.text op.symbol) operand.toTree (lineTree line)
  | .binary op left right line =>
    .binary (.text op.symbol) left.toTree right.toTree (lineTree line)
  | .call id args line => .call (.text id) (.list (Expr.toTrees args)) (lineTree line)

/-- The trees of expressions. -/
def Expr.toTrees : List Expr → List Tree
  | [] => []
  | e :: es => e.toTree :: Expr.toTrees es

end

mutual

/-- The tree of a statement. -/
def Stmt.toTree : Stmt → Tree
  | .declare name value fixed line =>
    .declare (.text name) value.toTree (.flag fixed) (lineTree line)
  | .assign name value line => .assign (.text name) value.toTree (lineTree line)
  | .say value line => .say value.toTree (lineTree line)
  | .display value line => .display value.toTree (lineTree line)
  | .ask name line => .ask (.text name) (lineTree line)
  | .choose branches none line =>
    .choose (.list (Branch.toTrees branches)) .null (lineTree line)
  | .choose branches (some body) line =>
    .choose (.list (Branch.toTrees branches)) (.block (.list (Stmt.toTrees body))) (lineTree line)
  | .range name first last body line =>
    .range (.text name) first.toTree last.toTree (.block (.list (Stmt.toTrees body)))
      (lineTree line)
  | .whilst condition body line =>
    .whilst condition.toTree (.block (.list (Stmt.toTrees body))) (lineTree line)
  | .leave line => .leave (lineTree line)
  | .next line => .next (lineTree line)

/-- The tree of a branch. -/
def Branch.toTree : Branch → Tree
  | .mk condition body line =>
    .branch condition.toTree (.block (.list (Stmt.toTrees body))) (lineTree line)

/-- The trees of statements. -/
def Stmt.toTrees : List Stmt → List Tree
  | [] => []
  | s :: ss => s.toTree :: Stmt.toTrees ss

/-- The trees of branches. -/
def Branch.toTrees : List Branch → List Tree
  | [] => []
  | b :: bs => b.toTree :: Branch.toTrees bs

end

/-- The tree of a program. -/
def Program.toTree (program : Program) : Tree :=
  .program (.list (Stmt.toTrees program.body))

theorem Expr.toTrees_eq_map (es : List Expr) : Expr.toTrees es = es.map Expr.toTree := by
  induction es with
  | nil => rfl
  | cons e es ih => simp [Expr.toTrees, ih]

theorem Stmt.toTrees_eq_map (ss : List Stmt) : Stmt.toTrees ss = ss.map Stmt.toTree := by
  induction ss with
  | nil => rfl
  | cons s ss ih => simp [Stmt.toTrees, ih]

theorem Branch.toTrees_eq_map (bs : List Branch) : Branch.toTrees bs = bs.map Branch.toTree := by
  induction bs with
  | nil => rfl
  | cons b bs ih => simp [Branch.toTrees, ih]

end Parlance
