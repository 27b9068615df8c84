import Mathlib
import Parlance.Proofs.DescentCompleteness
import Parlance.Proofs.Occurrences

/-!
# The lines of nodes and the tokens that they are read from

A node is an expression, a statement or a branch; these have lines.  `Extents ts phrase nodes` goes
along with the grammar: the tokens are a phrase, and the nodes of its tree are read from the tokens
that stand with them.  Parentheses around an expression add no node, so they belong to the tokens of
an operation whose operand they enclose, but not to those of the operand.

The line of a node is that of its first token, opening parentheses aside.  Only an operation with
two operands can begin with one, and then its line may be below the one where its tokens begin.
-/

namespace Parlance

open Descent (Level BeginsWith)

/-! ## Nodes -/

/-- A part of a program with a line. -/
inductive Node
  | expr (tree : Expr)
  | stmt (tree : Stmt)
  | branch (tree : Branch)

/-- The line of a statement. -/
def Stmt.line : Stmt → Nat
  | .declare _ _ _ line | .assign _ _ line | .say _ line | .display _ line | .ask _ line => line
  | .choose _ _ line | .range _ _ _ _ line | .whilst _ _ line | .leave line | .next line => line

/-- The line of a branch. -/
def Branch.line : Branch → Nat
  | .mk _ _ line => line

namespace Node

/-- The line of a node. -/
def line : Node → Nat
  | .expr e => e.line
  | .stmt s => s.line
  | .branch b => b.line

/-- The node is an operation with two operands. -/
def IsBinary : Node → Prop
  | .expr (.binary ..) => True
  | _ => False

end Node

/-- The nodes of an expression. -/
def Expr.nodes (e : Expr) : List Node :=
  e.parts.map .expr

mutual

/-- The nodes of a statement. -/
def Stmt.nodes (s : Stmt) : List Node :=
  .stmt s :: match s with
    | .declare _ value _ _ | .assign _ value _ | .say value _ | .display value _ => value.nodes
    | .ask .. | .leave _ | .next _ => []
    | .choose branches none _ => Branch.allNodes branches
    | .choose branches (some body) _ => Branch.allNodes branches ++ Stmt.allNodes body
    | .range _ first last body _ => first.nodes ++ last.nodes ++ Stmt.allNodes body
    | .whilst condition body _ => condition.nodes ++ Stmt.allNodes body

/-- The nodes of a branch. -/
def Branch.nodes (b : Branch) : List Node :=
  .branch b :: match b with
    | .mk condition body _ => condition.nodes ++ Stmt.allNodes body

/-- The nodes of some statements. -/
def Stmt.allNodes : List Stmt → List Node
  | [] => []
  | s :: ss => s.nodes ++ Stmt.allNodes ss

/-- The nodes of some branches. -/
def Branch.allNodes : List Branch → List Node
  | [] => []
  | b :: bs => b.nodes ++ Branch.allNodes bs

end

/-- The nodes of the tree of a phrase. -/
def Phrase.nodes : Phrase → List Node
  | .expr _ e => e.nodes
  | .args es => (Expr.allParts es).map .expr
  | .stmt s => s.nodes
  | .body ss => Stmt.allNodes ss
  | .tail bs last => Branch.allNodes bs ++ Stmt.allNodes (last.getD [])

/-- The nodes of a program. -/
def Program.nodes (program : Program) : List Node :=
  Stmt.allNodes program.body

theorem Stmt.nodes_choose (branches : List Branch) (last : Option (List Stmt)) (line : Nat) :
    (Stmt.choose branches last line).nodes =
      .stmt (.choose branches last line) ::
        (Branch.allNodes branches ++ Stmt.allNodes (last.getD [])) := by
  cases last <;> simp [nodes, allNodes]

/-! ## The tokens of nodes -/

/-- The tokens are a phrase, and the nodes of its tree are read from the tokens that stand with
them.  The rules are those of the grammar, with the nodes in the order of the tree. -/
inductive Extents : List Token → Phrase → List (Node × List Token) → Prop
  -- Expressions.  A looser level and parentheses make no node.
  | tighter {level ts e ns} (loose : level ≠ .atom)
      (inner : Extents ts (.expr level.tighter e) ns) : Extents ts (.expr level e) ns
  | group {ts us e l₁ c₁ l₂ c₂ ns} (inner : Extents us (.expr .disjunction e) ns)
      (whole : ts = ⟨.symbol .openParen, l₁, c₁⟩ :: us ++ [⟨.symbol .closeParen, l₂, c₂⟩]) :
    Extents ts (.expr .atom e) ns
  | binary {op : BinaryOp} {level ts left right l r line column ms ns} (own : op.level = level)
      (first : Extents left (.expr level l) ms)
      (second : Extents right (.expr level.tighter r) ns)
      (whole : ts = left ++ ⟨op.word, line, column⟩ :: right) :
    Extents ts (.expr level (Expr.join op l r)) ((.expr (Expr.join op l r), ts) :: (ms ++ ns))
  | not {ts us e line column ns} (operand : Extents us (.expr .negation e) ns)
      (whole : ts = ⟨.keyword .notWord, line, column⟩ :: us) :
    Extents ts (.expr .negation (.unary .not e line)) ((.expr (.unary .not e line), ts) :: ns)
  | negate {ts us e line column ns} (operand : Extents us (.expr .sign e) ns)
      (whole : ts = ⟨.symbol .minus, line, column⟩ :: us) :
    Extents ts (.expr .sign (.unary .negate e line)) ((.expr (.unary .negate e line), ts) :: ns)
  | number {ts digits line column} (whole : ts = [⟨.number digits, line, column⟩]) :
    Extents ts (.expr .atom (.number (Number.literal digits) line))
      [(.expr (.number (Number.literal digits) line), ts)]
  | text {ts content line column} (whole : ts = [⟨.text content, line, column⟩]) :
    Extents ts (.expr .atom (.text content line)) [(.expr (.text content line), ts)]
  | trueWord {ts line column} (whole : ts = [⟨.keyword .trueWord, line, column⟩]) :
    Extents ts (.expr .atom (.flag true line)) [(.expr (.flag true line), ts)]
  | falseWord {ts line column} (whole : ts = [⟨.keyword .falseWord, line, column⟩]) :
    Extents ts (.expr .atom (.flag false line)) [(.expr (.flag false line), ts)]
  | name {ts s line column} (whole : ts = [⟨.name s, line, column⟩]) :
    Extents ts (.expr .atom (.name s line)) [(.expr (.name s line), ts)]
  | callNone {ts s line column l₁ c₁ l₂ c₂}
      (whole : ts = [⟨.name s, line, column⟩, ⟨.symbol .openParen, l₁, c₁⟩,
        ⟨.symbol .closeParen, l₂, c₂⟩]) :
    Extents ts (.expr .atom (.call s [] line)) [(.expr (.call s [] line), ts)]
  | call {ts us s line column es l₁ c₁ l₂ c₂ ns} (arguments : Extents us (.args es) ns)
      (whole : ts = ⟨.name s, line, column⟩ :: ⟨.symbol .openParen, l₁, c₁⟩ :: us ++
        [⟨.symbol .closeParen, l₂, c₂⟩]) :
    Extents ts (.expr .atom (.call s es line)) ((.expr (.call s es line), ts) :: ns)
  -- The arguments of a call.
  | lastArg {ts e ns} (arg : Extents ts (.expr .disjunction e) ns) : Extents ts (.args [e]) ns
  | moreArgs {ts us e es line column ms ns} (arg : Extents ts (.expr .disjunction e) ms)
      (more : Extents us (.args es) ns) :
    Extents (ts ++ ⟨.symbol .comma, line, column⟩ :: us) (.args (e :: es)) (ms ++ ns)
  -- Statements.
  | set {ts us s e line column l₁ c₁ l₂ c₂ ns} (value : Extents us (.expr .disjunction e) ns)
      (whole : ts = ⟨.keyword .setWord, line, column⟩ :: ⟨.name s, l₁, c₁⟩ ::
        ⟨.symbol .assign, l₂, c₂⟩ :: us) :
    Extents ts (.stmt (.declare s e false line)) ((.stmt (.declare s e false line), ts) :: ns)
  | keep {ts us s e line column l₁ c₁ l₂ c₂ ns} (value : Extents us (.expr .disjunction e) ns)
      (whole : ts = ⟨.keyword .keepWord, line, column⟩ :: ⟨.name s, l₁, c₁⟩ ::
        ⟨.symbol .assign, l₂, c₂⟩ :: us) :
    Extents ts (.stmt (.declare s e true line)) ((.stmt (.declare s e true line), ts) :: ns)
  | change {ts us s e line column l₁ c₁ l₂ c₂ ns} (value : Extents us (.expr .disjunction e) ns)
      (whole : ts = ⟨.keyword .changeWord, line, column⟩ :: ⟨.name s, l₁, c₁⟩ ::
        ⟨.symbol .assign, l₂, c₂⟩ :: us) :
    Extents ts (.stmt (.assign s e line)) ((.stmt (.assign s e line), ts) :: ns)
  | assign {ts us s e line column l₁ c₁ ns} (value : Extents us (.expr .disjunction e) ns)
      (whole : ts = ⟨.name s, line, column⟩ :: ⟨.symbol .assign, l₁, c₁⟩ :: us) :
    Extents ts (.stmt (.assign s e line)) ((.stmt (.assign s e line), ts) :: ns)
  | say {ts us e line column ns} (value : Extents us (.expr .disjunction e) ns)
      (whole : ts = ⟨.keyword .sayWord, line, column⟩ :: us) :
    Extents ts (.stmt (.say e line)) ((.stmt (.say e line), ts) :: ns)
  | display {ts us e line column ns} (value : Extents us (.expr .disjunction e) ns)
      (whole : ts = ⟨.keyword .showWord, line, column⟩ :: us) :
    Extents ts (.stmt (.display e line)) ((.stmt (.display e line), ts) :: ns)
  | ask {ts s line column l₁ c₁}
      (whole : ts = [⟨.keyword .askWord, line, column⟩, ⟨.name s, l₁, c₁⟩]) :
    Extents ts (.stmt (.ask s line)) [(.stmt (.ask s line), ts)]
  | leave {ts line column} (whole : ts = [⟨.keyword .breakWord, line, column⟩]) :
    Extents ts (.stmt (.leave line)) [(.stmt (.leave line), ts)]
  | next {ts line column} (whole : ts = [⟨.keyword .continueWord, line, column⟩]) :
    Extents ts (.stmt (.next line)) [(.stmt (.next line), ts)]
  | range {ts us vs ws s first last ss line column l₁ c₁ l₂ c₂ l₃ c₃ l₄ c₄ l₅ c₅ ls ms ns}
      (start : Extents us (.expr .disjunction first) ls)
      (stop : Extents vs (.expr .disjunction last) ms) (inside : Extents ws (.body ss) ns)
      (whole : ts = ⟨.keyword .loopWord, line, column⟩ :: ⟨.name s, l₁, c₁⟩ ::
        ⟨.symbol .assign, l₂, c₂⟩ :: us ++ ⟨.keyword .toWord, l₃, c₃⟩ :: vs ++
        ⟨.keyword .doWord, l₄, c₄⟩ :: ws ++ [⟨.keyword .endWord, l₅, c₅⟩]) :
    Extents ts (.stmt (.range s first last ss line))
      ((.stmt (.range s first last ss line), ts) :: (ls ++ ms ++ ns))
  | whilst {ts us vs e ss line column l₁ c₁ l₂ c₂ l₃ c₃ l₄ c₄ ms ns}
      (test : Extents us (.expr .disjunction e) ms) (inside : Extents vs (.body ss) ns)
      (whole : ts = ⟨.keyword .repeatWord, line, column⟩ :: ⟨.symbol .openParen, l₁, c₁⟩ :: us ++
        ⟨.symbol .closeParen, l₂, c₂⟩ :: ⟨.keyword .doWord, l₃, c₃⟩ :: vs ++
        [⟨.keyword .endWord, l₄, c₄⟩]) :
    Extents ts (.stmt (.whilst e ss line)) ((.stmt (.whilst e ss line), ts) :: (ms ++ ns))
  | choose {k ts us vs ws first e ss bs last line column l₁ c₁ ls ms ns}
      (opens : Keyword.opensBranch k) (test : Extents us (.expr .disjunction e) ls)
      (inside : Extents vs (.body ss) ms) (others : Extents ws (.tail bs last) ns)
      (guarded : first = ⟨.keyword k, line, column⟩ :: us ++ ⟨.keyword .doWord, l₁, c₁⟩ :: vs)
      (whole : ts = first ++ ws) :
    Extents ts (.stmt (.choose (.mk e ss line :: bs) last line))
      ((.stmt (.choose (.mk e ss line :: bs) last line), ts) ::
        (.branch (.mk e ss line), first) :: (ls ++ ms ++ ns))
  -- What follows the first branch of a choice.
  | close {line column} : Extents [⟨.keyword .endWord, line, column⟩] (.tail [] none) []
  | otherwise {ts ss l₁ c₁ l₂ c₂ ns} (separate : ¬ OpensBranch ts)
      (inside : Extents ts (.body ss) ns) :
    Extents (⟨.keyword .otherwiseWord, l₁, c₁⟩ :: ts ++ [⟨.keyword .endWord, l₂, c₂⟩])
      (.tail [] (some ss)) ns
  | branch {k us vs ws first e ss bs last line column l₁ c₁ l₂ c₂ ls ms ns}
      (opens : Keyword.opensBranch k) (test : Extents us (.expr .disjunction e) ls)
      (inside : Extents vs (.body ss) ms) (others : Extents ws (.tail bs last) ns)
      (guarded : first = ⟨.keyword k, line, column⟩ :: us ++ ⟨.keyword .doWord, l₂, c₂⟩ :: vs) :
    Extents (⟨.keyword .otherwiseWord, l₁, c₁⟩ :: first ++ ws) (.tail (.mk e ss line :: bs) last)
      ((.branch (.mk e ss line), first) :: (ls ++ ms ++ ns))
  -- Programs and the insides of blocks.
  | nothing : Extents [] (.body []) []
  | semicolon {ts ss line column ns} (more : Extents ts (.body ss) ns) :
    Extents (⟨.symbol .semicolon, line, column⟩ :: ts) (.body ss) ns
  | sequence {ts us s ss ms ns} (first : Extents ts (.stmt s) ms)
      (more : Extents us (.body ss) ns) : Extents (ts ++ us) (.body (s :: ss)) (ms ++ ns)

/-- The nodes of every phrase have their tokens. -/
theorem Derives.exists_extents {ts : List Token} {phrase : Phrase} (derived : Derives ts phrase) :
    ∃ ns, Extents ts phrase ns := by
  induction derived with
  | tighter loose inner ih => exact ih.imp fun _ => .tighter loose
  | binary own first second ihFirst ihSecond =>
    obtain ⟨⟨ms, first⟩, ⟨ns, second⟩⟩ := And.intro ihFirst ihSecond
    exact ⟨_, .binary own first second rfl⟩
  | not operand ih => exact ih.elim fun _ operand => ⟨_, .not operand rfl⟩
  | negate operand ih => exact ih.elim fun _ operand => ⟨_, .negate operand rfl⟩
  | number => exact ⟨_, .number rfl⟩
  | text => exact ⟨_, .text rfl⟩
  | trueWord => exact ⟨_, .trueWord rfl⟩
  | falseWord => exact ⟨_, .falseWord rfl⟩
  | name => exact ⟨_, .name rfl⟩
  | group inner ih => exact ih.elim fun _ inner => ⟨_, .group inner rfl⟩
  | callNone => exact ⟨_, .callNone rfl⟩
  | call arguments ih => exact ih.elim fun _ arguments => ⟨_, .call arguments rfl⟩
  | lastArg arg ih => exact ih.imp fun _ => .lastArg
  | moreArgs arg more ihArg ihMore =>
    obtain ⟨ms, arg⟩ := ihArg
    obtain ⟨ns, more⟩ := ihMore
    exact ⟨_, .moreArgs arg more⟩
  | set value ih => exact ih.elim fun _ value => ⟨_, .set value rfl⟩
  | keep value ih => exact ih.elim fun _ value => ⟨_, .keep value rfl⟩
  | change value ih => exact ih.elim fun _ value => ⟨_, .change value rfl⟩
  | assign value ih => exact ih.elim fun _ value => ⟨_, .assign value rfl⟩
  | say value ih => exact ih.elim fun _ value => ⟨_, .say value rfl⟩
  | display value ih => exact ih.elim fun _ value => ⟨_, .display value rfl⟩
  | ask => exact ⟨_, .ask rfl⟩
  | leave => exact ⟨_, .leave rfl⟩
  | next => exact ⟨_, .next rfl⟩
  | range start stop inside ihStart ihStop ihInside =>
    obtain ⟨ls, start⟩ := ihStart
    obtain ⟨ms, stop⟩ := ihStop
    obtain ⟨ns, inside⟩ := ihInside
    exact ⟨_, .range start stop inside rfl⟩
  | whilst test inside ihTest ihInside =>
    obtain ⟨ms, test⟩ := ihTest
    obtain ⟨ns, inside⟩ := ihInside
    exact ⟨_, .whilst test inside rfl⟩
  | choose opens test inside others ihTest ihInside ihOthers =>
    obtain ⟨ls, test⟩ := ihTest
    obtain ⟨ms, inside⟩ := ihInside
    obtain ⟨ns, others⟩ := ihOthers
    exact ⟨_, .choose opens test inside others rfl rfl⟩
  | close => exact ⟨_, .close⟩
  | otherwise separate inside ih => exact ih.imp fun _ => .otherwise separate
  | branch opens test inside others ihTest ihInside ihOthers =>
    obtain ⟨ls, test⟩ := ihTest
    obtain ⟨ms, inside⟩ := ihInside
    obtain ⟨ns, others⟩ := ihOthers
    exact ⟨_, by simpa using Extents.branch opens test inside others rfl⟩
  | nothing => exact ⟨_, .nothing⟩
  | semicolon more ih => exact ih.imp fun _ => .semicolon
  | sequence first more ihFirst ihMore =>
    obtain ⟨ms, first⟩ := ihFirst
    obtain ⟨ns, more⟩ := ihMore
    exact ⟨_, .sequence first more⟩

namespace Extents

variable {ts : List Token} {phrase : Phrase} {ns : List (Node × List Token)}

/-- An expression of a level is one of every looser level. -/
theorem loosen {level other : Level} {e : Expr} (inner : Extents ts (.expr other e) ns)
    (looser : level.rank ≤ other.rank) : Extents ts (.expr level e) ns := by
  induction gap : other.rank - level.rank generalizing level with
  | zero =>
    obtain rfl : level = other := Level.rank_injective (by omega)
    exact inner
  | succ gap ih =>
    have below := other.rank_le_atom
    have loose : level ≠ .atom := by
      rintro rfl
      have tightest : Level.rank .atom = 8 := rfl
      omega
    have next := Level.rank_tighter loose
    exact .tighter loose (ih (by omega) (by omega))

/-- Only phrases of the grammar have nodes with tokens. -/
theorem derives (extents : Extents ts phrase ns) : Derives ts phrase := by
  induction extents with
  | tighter loose _ inner => exact .tighter loose inner
  | group _ whole inner => exact whole ▸ .group inner
  | binary own _ _ whole first second => exact whole ▸ .binary own first second
  | not _ whole operand => exact whole ▸ .not operand
  | negate _ whole operand => exact whole ▸ .negate operand
  | number whole => exact whole ▸ .number
  | text whole => exact whole ▸ .text
  | trueWord whole => exact whole ▸ .trueWord
  | falseWord whole => exact whole ▸ .falseWord
  | name whole => exact whole ▸ .name
  | callNone whole => exact whole ▸ .callNone
  | call _ whole arguments => exact whole ▸ .call arguments
  | lastArg _ arg => exact .lastArg arg
  | moreArgs _ _ arg more => exact .moreArgs arg more
  | set _ whole value => exact whole ▸ .set value
  | keep _ whole value => exact whole ▸ .keep value
  | change _ whole value => exact whole ▸ .change value
  | assign _ whole value => exact whole ▸ .assign value
  | say _ whole value => exact whole ▸ .say value
  | display _ whole value => exact whole ▸ .display value
  | ask whole => exact whole ▸ .ask
  | leave whole => exact whole ▸ .leave
  | next whole => exact whole ▸ .next
  | range _ _ _ whole start stop inside => exact whole ▸ .range start stop inside
  | whilst _ _ whole test inside => exact whole ▸ .whilst test inside
  | choose opens _ _ _ guarded whole test inside others =>
    rw [whole, guarded]
    exact .choose opens test inside others
  | close => exact .close
  | otherwise separate _ inside => exact .otherwise separate inside
  | branch opens _ _ _ guarded test inside others =>
    rw [guarded]
    simpa using Derives.branch opens test inside others
  | nothing => exact .nothing
  | semicolon _ more => exact .semicolon more
  | sequence _ _ first more => exact .sequence first more

/-- The nodes with tokens are the nodes of the tree. -/
theorem map_fst (extents : Extents ts phrase ns) : ns.map Prod.fst = phrase.nodes := by
  induction extents with
  | tighter loose inner ih => exact ih
  | group inner whole ih => exact ih
  | binary own first second whole ihFirst ihSecond =>
    rw [List.map_cons, List.map_append, ihFirst, ihSecond]
    simp [Phrase.nodes, Expr.nodes, Expr.join, Expr.parts]
  | not operand whole ih | negate operand whole ih =>
    rw [List.map_cons, ih]
    simp [Phrase.nodes, Expr.nodes, Expr.parts]
  | call arguments whole ih =>
    rw [List.map_cons, ih]
    simp [Phrase.nodes, Expr.nodes, Expr.parts]
  | lastArg arg ih =>
    rw [ih]
    simp [Phrase.nodes, Expr.nodes, Expr.allParts]
  | moreArgs arg more ihArg ihMore =>
    rw [List.map_append, ihArg, ihMore]
    simp [Phrase.nodes, Expr.nodes, Expr.allParts]
  | set value whole ih | keep value whole ih | change value whole ih | assign value whole ih
  | say value whole ih | display value whole ih =>
    rw [List.map_cons, ih]
    simp [Phrase.nodes, Stmt.nodes]
  | range start stop inside whole ihStart ihStop ihInside =>
    rw [List.map_cons, List.map_append, List.map_append, ihStart, ihStop, ihInside]
    simp [Phrase.nodes, Stmt.nodes]
  | whilst test inside whole ihTest ihInside =>
    rw [List.map_cons, List.map_append, ihTest, ihInside]
    simp [Phrase.nodes, Stmt.nodes]
  | choose opens test inside others guarded whole ihTest ihInside ihOthers =>
    rw [List.map_cons, List.map_cons, List.map_append, List.map_append, ihTest, ihInside, ihOthers]
    simp [Phrase.nodes, Stmt.nodes_choose, Branch.allNodes, Branch.nodes]
  | branch opens test inside others guarded ihTest ihInside ihOthers =>
    rw [List.map_cons, List.map_append, List.map_append, ihTest, ihInside, ihOthers]
    simp [Phrase.nodes, Branch.allNodes, Branch.nodes]
  | sequence first more ihFirst ihMore =>
    rw [List.map_append, ihFirst, ihMore]
    simp [Phrase.nodes, Stmt.allNodes]
  | otherwise separate inside ih =>
    rw [ih]
    simp [Phrase.nodes, Branch.allNodes]
  | semicolon more ih => exact ih
  | number | text | trueWord | falseWord | name | callNone =>
    simp [Phrase.nodes, Expr.nodes, Expr.parts, Expr.allParts]
  | ask | leave | next => simp [Phrase.nodes, Stmt.nodes]
  | close | nothing => rfl

end Extents

/-! ## Lines -/

/-- The line of the first token that is no opening parenthesis. -/
def leadingLine (ts : List Token) : Option Nat :=
  (ts.find? fun t => t.word ≠ .symbol .openParen).map Token.line

/-- The line of the first token. -/
def firstLine (ts : List Token) : Option Nat :=
  ts.head?.map Token.line

theorem leadingLine_cons {t : Token} (ts : List Token) (other : t.word ≠ .symbol .openParen) :
    leadingLine (t :: ts) = some t.line := by
  simp [leadingLine, other]

theorem leadingLine_append {ts : List Token} {line : Nat} (leads : leadingLine ts = some line)
    (us : List Token) : leadingLine (ts ++ us) = some line := by
  obtain ⟨t, found, rfl⟩ := Option.map_eq_some_iff.1 leads
  rw [leadingLine, List.find?_append, found]
  rfl

theorem leadingLine_group (l c : Nat) (ts : List Token) :
    leadingLine (⟨.symbol .openParen, l, c⟩ :: ts) = leadingLine ts := by
  simp [leadingLine]

/-- An expression is on the line of its first token, opening parentheses aside. -/
theorem Derives.leadingLine_eq {ts : List Token} {level : Level} {e : Expr}
    (derived : Derives ts (.expr level e)) : leadingLine ts = some e.line := by
  generalize same : Phrase.expr level e = phrase at derived
  induction derived generalizing level e with
  | tighter loose inner ih =>
    cases same
    exact ih rfl
  | binary own first second ihFirst =>
    cases same
    exact leadingLine_append (ihFirst rfl) _
  | group inner ih =>
    cases same
    rw [List.cons_append, leadingLine_group]
    exact leadingLine_append (ih rfl) _
  | not | negate | number | text | trueWord | falseWord | name | callNone | call =>
    cases same
    rfl
  | _ => cases same

/-- Without parentheses in front the first line is that of the first token. -/
theorem firstLine_eq_leadingLine {ts : List Token}
    (other : ¬ BeginsWith (.symbol .openParen) ts) : firstLine ts = leadingLine ts := by
  cases ts with
  | nil => rfl
  | cons t ts =>
    obtain ⟨word, line, column⟩ := t
    rw [leadingLine_cons ts fun same => other ⟨line, column, ts, by rw [← same]⟩]
    rfl

/-- The node is on the line of its first token, opening parentheses aside; and on that of its first
token, unless it is an operation with two operands that begins with a parenthesis. -/
def OnItsLine (n : Node × List Token) : Prop :=
  leadingLine n.2 = some n.1.line ∧
    (n.1.IsBinary ∧ BeginsWith (.symbol .openParen) n.2 ∨ firstLine n.2 = some n.1.line)

theorem onItsLine_binary {op : BinaryOp} {left right : Expr} {line : Nat} {ts : List Token}
    (leads : leadingLine ts = some line) : OnItsLine (.expr (.binary op left right line), ts) := by
  refine ⟨leads, ?_⟩
  by_cases begins : BeginsWith (.symbol .openParen) ts
  · exact .inl ⟨trivial, begins⟩
  · rw [← firstLine_eq_leadingLine begins] at leads
    exact .inr leads

theorem onItsLine_cons {node : Node} {t : Token} {ts : List Token} (line : node.line = t.line)
    (other : t.word ≠ .symbol .openParen) : OnItsLine (node, t :: ts) := by
  refine ⟨?_, .inr ?_⟩
  · rw [leadingLine_cons ts other, line]
  · rw [line]
    rfl

namespace Extents

variable {ts : List Token} {phrase : Phrase} {ns : List (Node × List Token)}

/-- The nodes of every phrase are on their lines. -/
theorem onItsLine (extents : Extents ts phrase ns) : ∀ n ∈ ns, OnItsLine n := by
  induction extents with
  | tighter loose inner ih => exact ih
  | group inner whole ih => exact ih
  | binary own first second whole ihFirst ihSecond =>
    have leads := (Extents.binary own first second whole).derives.leadingLine_eq
    exact List.forall_mem_cons.2
      ⟨onItsLine_binary leads, List.forall_mem_append.2 ⟨ihFirst, ihSecond⟩⟩
  | not inner whole ih | negate inner whole ih | call inner whole ih | set inner whole ih
  | keep inner whole ih | change inner whole ih | assign inner whole ih | say inner whole ih
  | display inner whole ih =>
    rw [whole]
    exact List.forall_mem_cons.2 ⟨onItsLine_cons rfl (by simp), ih⟩
  | number whole | text whole | trueWord whole | falseWord whole | name whole | callNone whole
  | ask whole | leave whole | next whole =>
    rw [whole]
    exact List.forall_mem_singleton.2 (onItsLine_cons rfl (by simp))
  | range start stop inside whole ihStart ihStop ihInside =>
    rw [whole]
    refine List.forall_mem_cons.2 ⟨onItsLine_cons rfl (by simp), ?_⟩
    exact List.forall_mem_append.2 ⟨List.forall_mem_append.2 ⟨ihStart, ihStop⟩, ihInside⟩
  | whilst test inside whole ihTest ihInside =>
    rw [whole]
    refine List.forall_mem_cons.2 ⟨onItsLine_cons rfl (by simp), ?_⟩
    exact List.forall_mem_append.2 ⟨ihTest, ihInside⟩
  | choose opens test inside others guarded whole ihTest ihInside ihOthers =>
    rw [whole, guarded]
    refine List.forall_mem_cons.2 ⟨onItsLine_cons rfl (by simp), ?_⟩
    refine List.forall_mem_cons.2 ⟨onItsLine_cons rfl (by simp), ?_⟩
    exact List.forall_mem_append.2 ⟨List.forall_mem_append.2 ⟨ihTest, ihInside⟩, ihOthers⟩
  | branch opens test inside others guarded ihTest ihInside ihOthers =>
    rw [guarded]
    refine List.forall_mem_cons.2 ⟨onItsLine_cons rfl (by simp), ?_⟩
    exact List.forall_mem_append.2 ⟨List.forall_mem_append.2 ⟨ihTest, ihInside⟩, ihOthers⟩
  | lastArg arg ih => exact ih
  | moreArgs arg more ihArg ihMore => exact List.forall_mem_append.2 ⟨ihArg, ihMore⟩
  | otherwise separate inside ih => exact ih
  | semicolon more ih => exact ih
  | sequence first more ihFirst ihMore => exact List.forall_mem_append.2 ⟨ihFirst, ihMore⟩
  | close | nothing => simp

end Extents

namespace Descent

/-- The nodes of a program that is read from a source, in whatever room, have their tokens, and
every node is on the line of the first of them that is no opening parenthesis.  That is its first
token, unless the node is an operation with two operands and begins with a parenthesis around the
left one. -/
theorem parse_locates_nodes {room : Nat} {source : String} {program : Program}
    (accepted : parseWithin room source = .ok program) :
    ∃ scan, Scan.ofSource source = .ok scan ∧
      (∃ ns, Extents scan.tokens (.body program.body) ns) ∧
      ∀ ns, Extents scan.tokens (.body program.body) ns →
        ns.map Prod.fst = program.nodes ∧ ∀ n ∈ ns,
          leadingLine n.2 = some n.1.line ∧
          (n.1.IsBinary ∧ BeginsWith (.symbol .openParen) n.2 ∨
            firstLine n.2 = some n.1.line) := by
  obtain ⟨scan, scanned, found⟩ := parseWithin_eq_ok_iff.1 accepted
  have derived := derivedFrom_of_program found
  refine ⟨scan, scanned, Derives.exists_extents derived, fun ns extents => ?_⟩
  exact ⟨extents.map_fst, extents.onItsLine⟩

/-- A choice with a sum over three lines. -/
theorem parse_locates_sum_in_branch :
    let source := "when a do say f(\n(\nb) - c\n) end"
    let difference : Expr := .binary .subtract (.name "b" 3) (.name "c" 3) 3
    let said : Stmt := .say (.call "f" [difference] 1) 1
    let program : Program := ⟨[.choose [.mk (.name "a" 1) [said] 1] none 1]⟩
    parse source = .ok program ∧
    ∃ scan, Scan.ofSource source = .ok scan ∧
      (∃ ns, Extents scan.tokens (.body program.body) ns) ∧
      ∀ ns, Extents scan.tokens (.body program.body) ns →
        ns.map Prod.fst = program.nodes ∧ ∀ n ∈ ns,
          leadingLine n.2 = some n.1.line ∧
          (n.1.IsBinary ∧ BeginsWith (.symbol .openParen) n.2 ∨
            firstLine n.2 = some n.1.line) := by
  intro source difference said program
  have accepted : parse source = .ok program := by cbv
  exact ⟨accepted, parse_locates_nodes accepted⟩

/-- A sum that begins with a parenthesis on the line above its first operand is not on the line of
its first token. -/
theorem parse_sum_below_parenthesis :
    let source := "say (\na) + b"
    let sum : Expr := .binary .add (.name "a" 2) (.name "b" 2) 2
    let tokens : List Token := [⟨.symbol .openParen, 1, 5⟩, ⟨.name "a", 2, 1⟩,
      ⟨.symbol .closeParen, 2, 2⟩, ⟨.symbol .plus, 2, 4⟩, ⟨.name "b", 2, 6⟩]
    parse source = .ok ⟨[.say sum 1]⟩ ∧
      (∃ scan ns, Scan.ofSource source = .ok scan ∧ Extents scan.tokens (.body [.say sum 1]) ns ∧
        (.expr sum, tokens) ∈ ns) ∧
      firstLine tokens = some 1 ∧ sum.line = 2 := by
  intro source sum tokens
  have accepted : parse source = .ok ⟨[.say sum 1]⟩ := by cbv
  have scanned : Scan.ofSource source =
      .ok ⟨⟨.keyword .sayWord, 1, 1⟩ :: tokens, ⟨2, 7⟩⟩ := by cbv
  have inside : Extents [⟨.name "a", 2, 1⟩] (.expr .disjunction (.name "a" 2)) _ :=
    (Extents.name rfl).loosen (by decide)
  have left : Extents [⟨.symbol .openParen, 1, 5⟩, ⟨.name "a", 2, 1⟩, ⟨.symbol .closeParen, 2, 2⟩]
      (.expr .sum (.name "a" 2)) _ :=
    (Extents.group inside rfl).loosen (by decide)
  have right : Extents [⟨.name "b", 2, 6⟩] (.expr .product (.name "b" 2)) _ :=
    (Extents.name rfl).loosen (by decide)
  have added : Extents tokens (.expr .sum sum) _ := .binary rfl left right rfl
  have value : Extents tokens (.expr .disjunction sum) _ := added.loosen (by decide)
  have said : Extents (⟨.keyword .sayWord, 1, 1⟩ :: tokens) (.stmt (.say sum 1)) _ :=
    .say value rfl
  have body : Extents (⟨.keyword .sayWord, 1, 1⟩ :: tokens) (.body [.say sum 1]) _ :=
    .sequence said .nothing
  refine ⟨accepted, ⟨_, _, scanned, body, ?_⟩, rfl, rfl⟩
  exact List.mem_cons_of_mem _ List.mem_cons_self

end Descent

end Parlance
