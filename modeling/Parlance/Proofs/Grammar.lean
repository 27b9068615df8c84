import Parlance.Descent.Expression

/-!
# The grammar of programs

`Derives ts phrase` says that the tokens `ts` are a phrase of the language and that its tree is the
one in `phrase`.  The rules are those of an ordinary grammar: each names the tokens of the phrase
from left to right, concatenates the tokens of its parts, and says which line the tree gets.  What
comes after a phrase is in no rule, so the relation knows nothing of looking ahead.

Binary levels are left-recursive, which is what makes operators associate to the left.  The one rule
with a side condition on tokens is the last alternative of a choice: its statements must not begin
with `when` or `check`, since those words after `otherwise` open another branch.
-/

namespace Parlance

open Descent (Level)

/-- The word that a binary operator is written as. -/
def BinaryOp.word : BinaryOp → Word
  | .or => .keyword .orWord
  | .and => .keyword .andWord
  | .equal => .symbol .equal
  | .unequal => .symbol .unequal
  | .less => .symbol .less
  | .lessEqual => .symbol .lessEqual
  | .greater => .symbol .greater
  | .greaterEqual => .symbol .greaterEqual
  | .add => .symbol .plus
  | .subtract => .symbol .minus
  | .multiply => .symbol .star
  | .divide => .symbol .slash
  | .remainder => .symbol .percent

/-- The level of expressions that a binary operator makes. -/
def BinaryOp.level : BinaryOp → Level
  | .or => .disjunction
  | .and => .conjunction
  | .equal | .unequal => .equality
  | .less | .lessEqual | .greater | .greaterEqual => .comparison
  | .add | .subtract => .sum
  | .multiply | .divide | .remainder => .product

namespace Descent.Level

/-- The level of the operands of a level. -/
def tighter : Level → Level
  | .disjunction => .conjunction
  | .conjunction => .negation
  | .negation => .equality
  | .equality => .comparison
  | .comparison => .sum
  | .sum => .product
  | .product => .sign
  | .sign => .atom
  | .atom => .atom

/-- The place of a level in the order from loose to tight. -/
def rank : Level → Nat
  | .disjunction => 0
  | .conjunction => 1
  | .negation => 2
  | .equality => 3
  | .comparison => 4
  | .sum => 5
  | .product => 6
  | .sign => 7
  | .atom => 8

theorem rank_tighter {level : Level} (loose : level ≠ .atom) :
    level.tighter.rank = level.rank + 1 := by
  cases level with
  | atom => exact absurd rfl loose
  | _ => rfl

theorem rank_le_atom (level : Level) : level.rank ≤ 8 := by
  cases level <;> decide

theorem rank_injective {level other : Level} (same : level.rank = other.rank) : level = other := by
  revert same
  cases level <;> cases other <;> decide

/-- A word is an operator of a level exactly if the grammar says so. -/
theorem operator?_eq_some_iff {level : Level} {word : Word} {op : BinaryOp} :
    level.operator? word = some op ↔ op.level = level ∧ op.word = word := by
  constructor
  · intro found
    unfold operator? at found
    split at found <;> simp at found <;> subst found <;> exact ⟨rfl, rfl⟩
  · rintro ⟨rfl, rfl⟩
    cases op <;> rfl

end Descent.Level

/-- A phrase of the language, with its tree.  `body` is a program or the inside of a block, and
`tail` what follows the first branch of a choice, up to its closing word. -/
inductive Phrase
  | expr (level : Level) (tree : Expr)
  | args (trees : List Expr)
  | stmt (tree : Stmt)
  | body (trees : List Stmt)
  | tail (branches : List Branch) (last : Option (List Stmt))

/-- The words that open a branch. -/
def Keyword.opensBranch (k : Keyword) : Prop :=
  k = .whenWord ∨ k = .checkWord

/-- The tokens begin with a word that opens a branch. -/
def OpensBranch : List Token → Prop
  | ⟨.keyword k, _, _⟩ :: _ => k.opensBranch
  | _ => False

/-- The tokens are a phrase. -/
inductive Derives : List Token → Phrase → Prop
  -- Expressions.
  | tighter {level ts e} (loose : level ≠ .atom) (inner : Derives ts (.expr level.tighter e)) :
    Derives ts (.expr level e)
  | binary {op : BinaryOp} {level left right l r line column} (own : op.level = level)
      (first : Derives left (.expr level l)) (second : Derives right (.expr level.tighter r)) :
    Derives (left ++ ⟨op.word, line, column⟩ :: right) (.expr level (Expr.join op l r))
  | not {ts e line column} (operand : Derives ts (.expr .negation e)) :
    Derives (⟨.keyword .notWord, line, column⟩ :: ts) (.expr .negation (.unary .not e line))
  | negate {ts e line column} (operand : Derives ts (.expr .sign e)) :
    Derives (⟨.symbol .minus, line, column⟩ :: ts) (.expr .sign (.unary .negate e line))
  | number {digits line column} :
    Derives [⟨.number digits, line, column⟩] (.expr .atom (.number (Number.literal digits) line))
  | text {content line column} :
    Derives [⟨.text content, line, column⟩] (.expr .atom (.text content line))
  | trueWord {line column} :
    Derives [⟨.keyword .trueWord, line, column⟩] (.expr .atom (.flag true line))
  | falseWord {line column} :
    Derives [⟨.keyword .falseWord, line, column⟩] (.expr .atom (.flag false line))
  | name {s line column} :
    Derives [⟨.name s, line, column⟩] (.expr .atom (.name s line))
  | group {ts e l₁ c₁ l₂ c₂} (inner : Derives ts (.expr .disjunction e)) :
    Derives (⟨.symbol .openParen, l₁, c₁⟩ :: ts ++ [⟨.symbol .closeParen, l₂, c₂⟩]) (.expr .atom e)
  | callNone {s line column l₁ c₁ l₂ c₂} :
    Derives [⟨.name s, line, column⟩, ⟨.symbol .openParen, l₁, c₁⟩, ⟨.symbol .closeParen, l₂, c₂⟩]
      (.expr .atom (.call s [] line))
  | call {s line column ts es l₁ c₁ l₂ c₂} (arguments : Derives ts (.args es)) :
    Derives (⟨.name s, line, column⟩ :: ⟨.symbol .openParen, l₁, c₁⟩ :: ts ++
        [⟨.symbol .closeParen, l₂, c₂⟩])
      (.expr .atom (.call s es line))
  -- The arguments of a call, at least one.
  | lastArg {ts e} (arg : Derives ts (.expr .disjunction e)) : Derives ts (.args [e])
  | moreArgs {ts us e es line column} (arg : Derives ts (.expr .disjunction e))
      (more : Derives us (.args es)) :
    Derives (ts ++ ⟨.symbol .comma, line, column⟩ :: us) (.args (e :: es))
  -- Statements.
  | set {s ts e line column l₁ c₁ l₂ c₂} (value : Derives ts (.expr .disjunction e)) :
    Derives (⟨.keyword .setWord, line, column⟩ :: ⟨.name s, l₁, c₁⟩ ::
        ⟨.symbol .assign, l₂, c₂⟩ :: ts)
      (.stmt (.declare s e false line))
  | keep {s ts e line column l₁ c₁ l₂ c₂} (value : Derives ts (.expr .disjunction e)) :
    Derives (⟨.keyword .keepWord, line, column⟩ :: ⟨.name s, l₁, c₁⟩ ::
        ⟨.symbol .assign, l₂, c₂⟩ :: ts)
      (.stmt (.declare s e true line))
  | change {s ts e line column l₁ c₁ l₂ c₂} (value : Derives ts (.expr .disjunction e)) :
    Derives (⟨.keyword .changeWord, line, column⟩ :: ⟨.name s, l₁, c₁⟩ ::
        ⟨.symbol .assign, l₂, c₂⟩ :: ts)
      (.stmt (.assign s e line))
  | assign {s ts e line column l₁ c₁} (value : Derives ts (.expr .disjunction e)) :
    Derives (⟨.name s, line, column⟩ :: ⟨.symbol .assign, l₁, c₁⟩ :: ts) (.stmt (.assign s e line))
  | say {ts e line column} (value : Derives ts (.expr .disjunction e)) :
    Derives (⟨.keyword .sayWord, line, column⟩ :: ts) (.stmt (.say e line))
  | display {ts e line column} (value : Derives ts (.expr .disjunction e)) :
    Derives (⟨.keyword .showWord, line, column⟩ :: ts) (.stmt (.display e line))
  | ask {s line column l₁ c₁} :
    Derives [⟨.keyword .askWord, line, column⟩, ⟨.name s, l₁, c₁⟩] (.stmt (.ask s line))
  | leave {line column} :
    Derives [⟨.keyword .breakWord, line, column⟩] (.stmt (.leave line))
  | next {line column} :
    Derives [⟨.keyword .continueWord, line, column⟩] (.stmt (.next line))
  | range {s ts us vs first last ss line column l₁ c₁ l₂ c₂ l₃ c₃ l₄ c₄ l₅ c₅}
      (start : Derives ts (.expr .disjunction first)) (stop : Derives us (.expr .disjunction last))
      (inside : Derives vs (.body ss)) :
    Derives (⟨.keyword .loopWord, line, column⟩ :: ⟨.name s, l₁, c₁⟩ :: ⟨.symbol .assign, l₂, c₂⟩ ::
        ts ++ ⟨.keyword .toWord, l₃, c₃⟩ :: us ++ ⟨.keyword .doWord, l₄, c₄⟩ :: vs ++
        [⟨.keyword .endWord, l₅, c₅⟩])
      (.stmt (.range s first last ss line))
  | whilst {ts us e ss line column l₁ c₁ l₂ c₂ l₃ c₃ l₄ c₄}
      (test : Derives ts (.expr .disjunction e)) (inside : Derives us (.body ss)) :
    Derives (⟨.keyword .repeatWord, line, column⟩ :: ⟨.symbol .openParen, l₁, c₁⟩ :: ts ++
        ⟨.symbol .closeParen, l₂, c₂⟩ :: ⟨.keyword .doWord, l₃, c₃⟩ :: us ++
        [⟨.keyword .endWord, l₄, c₄⟩])
      (.stmt (.whilst e ss line))
  | choose {k ts us vs e ss bs last line column l₁ c₁} (opens : Keyword.opensBranch k)
      (test : Derives ts (.expr .disjunction e)) (inside : Derives us (.body ss))
      (others : Derives vs (.tail bs last)) :
    Derives (⟨.keyword k, line, column⟩ :: ts ++ ⟨.keyword .doWord, l₁, c₁⟩ :: us ++ vs)
      (.stmt (.choose (.mk e ss line :: bs) last line))
  -- What follows the first branch of a choice.
  | close {line column} : Derives [⟨.keyword .endWord, line, column⟩] (.tail [] none)
  | otherwise {ts ss l₁ c₁ l₂ c₂} (separate : ¬ OpensBranch ts) (inside : Derives ts (.body ss)) :
    Derives (⟨.keyword .otherwiseWord, l₁, c₁⟩ :: ts ++ [⟨.keyword .endWord, l₂, c₂⟩])
      (.tail [] (some ss))
  | branch {k ts us vs e ss bs last line column l₁ c₁ l₂ c₂} (opens : Keyword.opensBranch k)
      (test : Derives ts (.expr .disjunction e)) (inside : Derives us (.body ss))
      (others : Derives vs (.tail bs last)) :
    Derives (⟨.keyword .otherwiseWord, l₁, c₁⟩ :: ⟨.keyword k, line, column⟩ :: ts ++
        ⟨.keyword .doWord, l₂, c₂⟩ :: us ++ vs)
      (.tail (.mk e ss line :: bs) last)
  -- Programs and the insides of blocks.
  | nothing : Derives [] (.body [])
  | semicolon {ts ss line column} (more : Derives ts (.body ss)) :
    Derives (⟨.symbol .semicolon, line, column⟩ :: ts) (.body ss)
  | sequence {ts us s ss} (first : Derives ts (.stmt s)) (more : Derives us (.body ss)) :
    Derives (ts ++ us) (.body (s :: ss))

/-! ## The first word of a phrase -/

/-- The word can begin an expression of the level. -/
def Word.opensOperand (level : Level) : Word → Bool
  | .number _ | .text _ | .name _ | .keyword .trueWord | .keyword .falseWord => true
  | .symbol .openParen => true
  | .symbol .minus => level.rank ≤ 7
  | .keyword .notWord => level.rank ≤ 2
  | _ => false

/-- The word can begin a statement. -/
def Word.opensStatement : Word → Bool
  | .name _ => true
  | .keyword .setWord | .keyword .keepWord | .keyword .changeWord | .keyword .sayWord => true
  | .keyword .showWord | .keyword .askWord | .keyword .whenWord | .keyword .checkWord => true
  | .keyword .loopWord | .keyword .repeatWord => true
  | .keyword .breakWord | .keyword .continueWord => true
  | _ => false

theorem Word.opensOperand_of_rank_le {level other : Level} {w : Word}
    (looser : level.rank ≤ other.rank) (opens : w.opensOperand other = true) :
    w.opensOperand level = true := by
  unfold Word.opensOperand at opens ⊢
  split at opens <;> simp_all <;> omega

/-- How the tokens of a phrase begin. -/
def Phrase.Opening (ts : List Token) : Phrase → Prop
  | .expr level _ => ∃ t rest, ts = t :: rest ∧ t.word.opensOperand level = true
  | .args _ => ∃ t rest, ts = t :: rest ∧ t.word.opensOperand .disjunction = true
  | .stmt _ => ∃ t rest, ts = t :: rest ∧ t.word.opensStatement = true
  | .body _ =>
    ts = [] ∨ ∃ t rest, ts = t :: rest ∧
      (t.word = .symbol .semicolon ∨ t.word.opensStatement = true)
  | .tail _ _ =>
    ∃ t rest, ts = t :: rest ∧
      (t.word = .keyword .endWord ∨ t.word = .keyword .otherwiseWord)

/-- A phrase begins with a word that phrases of its kind can begin with, and only a body may be
empty. -/
theorem Derives.opening {ts : List Token} {phrase : Phrase} (derived : Derives ts phrase) :
    phrase.Opening ts := by
  induction derived with
  | @tighter level ts e loose inner ih =>
    obtain ⟨t, rest, rfl, opens⟩ := ih
    have := Level.rank_tighter loose
    exact ⟨t, rest, rfl, Word.opensOperand_of_rank_le (by omega) opens⟩
  | binary own first second ihFirst ihSecond =>
    obtain ⟨t, rest, rfl, opens⟩ := ihFirst
    exact ⟨t, _, rfl, opens⟩
  | lastArg arg ih => exact ih
  | moreArgs arg more ihArg ihMore =>
    obtain ⟨t, rest, rfl, opens⟩ := ihArg
    exact ⟨t, _, rfl, opens⟩
  | choose opens test inside others =>
    rcases opens with rfl | rfl
    · exact ⟨_, _, rfl, rfl⟩
    · exact ⟨_, _, rfl, rfl⟩
  | close => exact ⟨_, _, rfl, .inl rfl⟩
  | otherwise separate inside => exact ⟨_, _, rfl, .inr rfl⟩
  | branch opens test inside others => exact ⟨_, _, rfl, .inr rfl⟩
  | nothing => exact .inl rfl
  | semicolon more => exact .inr ⟨_, _, rfl, .inl rfl⟩
  | sequence first more ihFirst ihMore =>
    obtain ⟨t, rest, rfl, opens⟩ := ihFirst
    exact .inr ⟨t, _, rfl, .inr opens⟩
  | _ => exact ⟨_, _, rfl, rfl⟩

/-- The tokens are a program. -/
def Program.DerivedFrom (p : Program) (ts : List Token) : Prop :=
  Derives ts (.body p.body)

end Parlance
