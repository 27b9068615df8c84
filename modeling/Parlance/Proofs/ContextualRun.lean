import Parlance.Contextual.Automaton
import Parlance.Proofs.Grammar

/-!
# The stack machine follows derivations

`Run s ts s'` says that the second front end, fed the tokens `ts` one after the other, goes from the
state `s` to the state `s'`, and that each word is looked for where it comes.  An `otherwise` that a
`when` or `check` follows is fed together with it.

The machine does not combine an operand with the operators before it until it sees what comes next.
So after the tokens of an expression its state is only as good as one that holds the expression
(`Holds`): settling the two from any level up to that of the expression gives the same.  Likewise
after a statement that ends in an expression (`AtStatement`).
-/

namespace Parlance

open Descent (Level)

/-- The class of a word. -/
def Word.terminal? : Word → Option Contextual.Terminal
  | .keyword k => some (.keyword k)
  | .name _ => some .name
  | .number _ => some .number
  | .text _ => some .text
  | .symbol s => some (.symbol s)
  | .finish => none

end Parlance

namespace Parlance.Contextual

open Descent (Level)

/-- The machine goes through tokens from one state to another. -/
inductive Run : State → List Token → State → Prop
  | refl {s} : Run s [] s
  | word {s s' s'' t ts terminal} (known : t.word.terminal? = some terminal)
      (accepted : s.situation.accepts terminal = true)
      (stepped : s.step ⟨terminal, t.word.spelling, t.line⟩ = some s')
      (apart : t.word = .keyword .otherwiseWord → ts ≠ [] ∧ ¬ OpensBranch ts)
      (more : Run s' ts s'') :
    Run s (t :: ts) s''
  | otherwiseWhen {s s' s'' ts k l c line column} (opens : k.opensBranch)
      (accepted : s.situation.accepts .otherwiseWhen = true)
      (stepped : ∀ letters : List Char, l + letters.count '\n' = line →
        s.step ⟨.otherwiseWhen, letters, l⟩ = some s')
      (more : Run s' ts s'') :
    Run s (⟨.keyword .otherwiseWord, l, c⟩ :: ⟨.keyword k, line, column⟩ :: ts) s''

/-- Whether a branch is opened is seen at the first token. -/
theorem opensBranch_of_append {ts us : List Token} (some : ts ≠ [])
    (opens : OpensBranch (ts ++ us)) : OpensBranch ts := by
  cases ts with
  | nil => exact absurd rfl some
  | cons t ts =>
    obtain ⟨word, line, column⟩ := t
    cases word with
    | keyword k => exact opens
    | _ => exact opens.elim

/-- Runs are joined; the end of the first one does not part an `otherwise` from its `when`. -/
theorem Run.trans {s s' s'' : State} {ts us : List Token} (first : Run s ts s')
    (second : Run s' us s'') : Run s (ts ++ us) s'' := by
  induction first with
  | refl => exact second
  | word known accepted stepped apart _ ih =>
    refine .word known accepted stepped (fun same => ?_) (ih second)
    obtain ⟨some, separate⟩ := apart same
    exact ⟨by simp [some], fun opens => separate (opensBranch_of_append some opens)⟩
  | otherwiseWhen opens accepted stepped _ ih =>
    exact .otherwiseWhen opens accepted stepped (ih second)

/-! ## Settling -/

/-- How tightly the last pending operator binds. -/
def strength : List Pending → Nat
  | .unary op _ :: _ => unaryLevel op
  | .binary op _ :: _ => binaryLevel op
  | _ => 0

/-- An operator that binds less tightly stays pending. -/
theorem settle_of_strength_lt {level : Nat} {pending : List Pending}
    (weak : strength pending < level) (value : Expr) :
    settle level pending value = (pending, value) := by
  unfold settle
  split
  · next op line rest =>
    have loose : ¬ level ≤ unaryLevel op := Nat.not_le.2 weak
    rw [if_neg loose]
  · next op left rest =>
    have loose : ¬ level ≤ binaryLevel op := Nat.not_le.2 weak
    rw [if_neg loose]
  · rfl

theorem settle_unary {level : Nat} {op : UnaryOp} (tight : level ≤ unaryLevel op) (line : Nat)
    (pending : List Pending) (value : Expr) :
    settle level (.unary op line :: pending) value =
      settle level pending (.unary op value line) := by
  rw [settle, if_pos tight]

theorem settle_binary {level : Nat} {op : BinaryOp} (tight : level ≤ binaryLevel op) (left : Expr)
    (pending : List Pending) (value : Expr) :
    settle level (.binary op left :: pending) value =
      settle level pending (Expr.join op left value) := by
  rw [settle, if_pos tight]

theorem binaryLevel_eq (op : BinaryOp) : binaryLevel op = op.level.rank + 1 := by
  cases op <;> rfl

/-- The strength of pending operators that an expression of the level can come after. -/
def cap (level : Level) : Nat :=
  match level with
  | .negation => 3
  | .sign => 8
  | .atom => 8
  | level => level.rank

theorem cap_le_tighter (level : Level) : cap level ≤ cap level.tighter := by
  cases level <;> decide

theorem binaryLevel_le_cap (op : BinaryOp) : binaryLevel op ≤ cap op.level.tighter := by
  cases op <;> decide

theorem cap_lt_binaryLevel (op : BinaryOp) : cap op.level < binaryLevel op := by
  cases op <;> decide

/-! ## After an operand -/

/-- The machine has just read an operand. -/
inductive Rests (blocks : List Open) (done : List Stmt) (purpose : Purpose)
    (pending : List Pending) : Expr → State → Prop
  | name (name : String) (line : Nat) :
    Rests blocks done purpose pending (.name name line)
      ⟨blocks, done, .name purpose pending name line⟩
  | operator (value : Expr) :
    Rests blocks done purpose pending value ⟨blocks, done, .operator purpose pending value⟩

/-- The state of the machine is as good as one that has just read the expression as an operand. -/
def Holds (blocks : List Open) (done : List Stmt) (purpose : Purpose) (level : Level)
    (pending : List Pending) (e : Expr) (s : State) : Prop :=
  ∃ pending' value, Rests blocks done purpose pending' value s ∧
    ∀ k ≤ level.rank + 1, settle k pending' value = settle k pending e

section Holds

variable {blocks : List Open} {done : List Stmt} {purpose : Purpose} {level : Level}
  {pending : List Pending} {value e : Expr} {s : State}

theorem Rests.accepts (rests : Rests blocks done purpose pending value s) {t : Terminal}
    (follows : t.followsOperand = true) : s.situation.accepts t = true := by
  cases rests with
  | name name line => simp [State.situation, Point.situation, Situation.accepts, follows]
  | operator value => exact follows

theorem Rests.step_eq (rests : Rests blocks done purpose pending value s) {word : Lexeme}
    (closed : word.terminal ≠ .symbol .openParen) :
    s.step word = stepOperator blocks done purpose pending value word := by
  cases rests with
  | name name line => simp [State.step, closed]
  | operator value => rfl

theorem Holds.of_rests (rests : Rests blocks done purpose pending e s) :
    Holds blocks done purpose level pending e s :=
  ⟨pending, e, rests, fun _ _ => rfl⟩

theorem Holds.accepts (holds : Holds blocks done purpose level pending e s) {t : Terminal}
    (follows : t.followsOperand = true) : s.situation.accepts t = true := by
  obtain ⟨pending', value, rests, _⟩ := holds
  exact rests.accepts follows

/-- An operator of a level takes what the machine holds as its left operand. -/
theorem Holds.step_operator (holds : Holds blocks done purpose level pending e s) {op : BinaryOp}
    (own : op.level = level) (weak : strength pending ≤ cap level) {word : Lexeme}
    (found : word.terminal.operator? = some op) :
    s.step word = some ⟨blocks, done, .operand purpose (.binary op e :: pending)⟩ := by
  obtain ⟨pending', value, rests, same⟩ := holds
  subst own
  have closed : word.terminal ≠ .symbol .openParen := by
    intro paren
    rw [paren] at found
    cases found
  have settled : settle (binaryLevel op) pending' value = (pending, e) := by
    rw [same _ (Nat.le_of_eq (binaryLevel_eq op))]
    exact settle_of_strength_lt (Nat.lt_of_le_of_lt weak (cap_lt_binaryLevel op)) e
  rw [rests.step_eq closed]
  simp only [stepOperator, found, settled]

theorem Holds.settle_zero (holds : Holds blocks done purpose level pending e s) :
    ∃ pending' value, Rests blocks done purpose pending' value s ∧
      settle 0 pending' value = settle 0 pending e := by
  obtain ⟨pending', value, rests, same⟩ := holds
  exact ⟨pending', value, rests, same 0 (Nat.zero_le _)⟩

theorem Holds.step_group (holds : Holds blocks done purpose level (.group :: pending) e s)
    {word : Lexeme} (closing : word.terminal = .symbol .closeParen) :
    s.step word = some ⟨blocks, done, .operator purpose pending e⟩ := by
  obtain ⟨pending', value, rests, settled⟩ := holds.settle_zero
  have grouped : settle 0 pending' value = (.group :: pending, e) := settled
  rw [rests.step_eq (by simp [closing])]
  simp [stepOperator, closing, Terminal.operator?, grouped]

/-- A closing parenthesis makes the expression the last argument of its call. -/
theorem Holds.step_call {name : String} {line : Nat} {args : List Expr}
    (holds : Holds blocks done purpose level (.call name line args :: pending) e s)
    {word : Lexeme} (closing : word.terminal = .symbol .closeParen) :
    s.step word =
      some ⟨blocks, done, .operator purpose pending (.call name (args.reverse ++ [e]) line)⟩ := by
  obtain ⟨pending', value, rests, settled⟩ := holds.settle_zero
  have called : settle 0 pending' value = (.call name line args :: pending, e) := settled
  rw [rests.step_eq (by simp [closing])]
  simp [stepOperator, closing, Terminal.operator?, called]

/-- A comma makes the expression one more argument of its call. -/
theorem Holds.step_comma {name : String} {line : Nat} {args : List Expr}
    (holds : Holds blocks done purpose level (.call name line args :: pending) e s)
    {word : Lexeme} (comma : word.terminal = .symbol .comma) :
    s.step word =
      some ⟨blocks, done, .operand purpose (.call name line (e :: args) :: pending)⟩ := by
  obtain ⟨pending', value, rests, settled⟩ := holds.settle_zero
  have called : settle 0 pending' value = (.call name line args :: pending, e) := settled
  rw [rests.step_eq (by simp [comma])]
  simp [stepOperator, comma, Terminal.operator?, called]

/-- A word that is no operator and no parenthesis of the expression comes after the whole of it. -/
theorem Holds.step_complete (holds : Holds blocks done purpose level [] e s) {word : Lexeme}
    (plain : word.terminal.operator? = none) (closed : word.terminal ≠ .symbol .openParen) :
    s.step word = stepComplete blocks done purpose e word := by
  obtain ⟨pending', value, rests, settled⟩ := holds.settle_zero
  have whole : settle 0 pending' value = ([], e) := settled
  rw [rests.step_eq closed]
  simp only [stepOperator, plain, whole]

/-- A word after an expression that finishes a statement comes after that statement. -/
theorem stepComplete_of_finish? {stmt : Stmt} (finished : purpose.finish? e = some stmt)
    (word : Lexeme) :
    stepComplete blocks done purpose e word = stepStatement blocks (stmt :: done) word := by
  unfold stepComplete
  split
  -- The purposes that wait for a word of their own finish no statement.
  case h_5 => rw [finished]
  all_goals cases finished

end Holds

/-! ## Expressions -/

theorem Run.one {s s' : State} {t : Token} {terminal : Terminal}
    (known : t.word.terminal? = some terminal) (accepted : s.situation.accepts terminal = true)
    (stepped : s.step ⟨terminal, t.word.spelling, t.line⟩ = some s')
    (plain : t.word ≠ .keyword .otherwiseWord) : Run s [t] s' :=
  .word known accepted stepped (fun same => absurd same plain) .refl

theorem accepts_operand (pending : List Pending) {t : Terminal} (starts : t.startsOperand = true) :
    (operandSituation pending).accepts t = true := by
  unfold operandSituation
  split <;> simp [Situation.accepts, starts]

/-- Where an expression that may begin with `not` is due, `not` is looked for. -/
theorem accepts_not {pending : List Pending} (weak : strength pending ≤ cap .negation) :
    (operandSituation pending).accepts (.keyword .notWord) = true := by
  unfold operandSituation
  split
  · rfl
  · exact absurd weak (by simp [strength, unaryLevel, cap])
  · rfl
  · rfl
  · next op left rest notOr notAnd =>
    cases op with
    | or => exact absurd rfl notOr
    | and => exact absurd rfl notAnd
    | _ => exact absurd weak (by simp [strength, binaryLevel, cap])
  · rfl

theorem operator_terminal (op : BinaryOp) :
    ∃ t, op.word.terminal? = some t ∧ t.operator? = some op ∧ t.followsOperand = true := by
  cases op <;> exact ⟨_, rfl, rfl, rfl⟩

/-- The machine reads the expression where an operand is due. -/
def FollowsExpr (level : Level) (ts : List Token) (e : Expr) : Prop :=
  ∀ (blocks : List Open) (done : List Stmt) (purpose : Purpose) (pending : List Pending),
    strength pending ≤ cap level →
    ∃ s, Run ⟨blocks, done, .operand purpose pending⟩ ts s ∧
      Holds blocks done purpose level pending e s

theorem followsExpr_tighter {level : Level} {ts : List Token} {e : Expr} (loose : level ≠ .atom)
    (inner : FollowsExpr level.tighter ts e) : FollowsExpr level ts e := by
  intro blocks done purpose pending weak
  obtain ⟨s, run, pending', value, rests, same⟩ :=
    inner blocks done purpose pending (Nat.le_trans weak (cap_le_tighter level))
  have rank := Level.rank_tighter loose
  exact ⟨s, run, pending', value, rests, fun k low => same k (by omega)⟩

/-- The machine follows an operation of two operands: the operator settles what binds at least as
tightly, and no more than the left operand. -/
theorem followsExpr_binary {op : BinaryOp} {level : Level} {left right : List Token} {l r : Expr}
    {line column : Nat} (own : op.level = level) (first : FollowsExpr level left l)
    (second : FollowsExpr level.tighter right r) :
    FollowsExpr level (left ++ ⟨op.word, line, column⟩ :: right) (Expr.join op l r) := by
  intro blocks done purpose pending weak
  obtain ⟨s, runLeft, holds⟩ := first blocks done purpose pending weak
  obtain ⟨t, known, found, follows⟩ := operator_terminal op
  have runOp : Run s [⟨op.word, line, column⟩]
      ⟨blocks, done, .operand purpose (.binary op l :: pending)⟩ :=
    .one known (holds.accepts follows) (holds.step_operator own weak found)
      (by cases op <;> simp [BinaryOp.word])
  have weak' : strength (.binary op l :: pending) ≤ cap level.tighter := by
    rw [← own]
    exact binaryLevel_le_cap op
  obtain ⟨s', runRight, pending', value, rests, same⟩ :=
    second blocks done purpose (.binary op l :: pending) weak'
  refine ⟨s', runLeft.trans (runOp.trans runRight), pending', value, rests, fun k low => ?_⟩
  have loose : level ≠ .atom := by
    rw [← own]
    cases op <;> decide
  have rank := Level.rank_tighter loose
  have tight : k ≤ binaryLevel op := by
    rw [binaryLevel_eq, own]
    exact low
  rw [same k (by omega), settle_binary tight]

/-- The machine follows an operation of one operand, whose operator stays pending until the operand
has been read. -/
theorem followsExpr_unary {op : UnaryOp} {level : Level} {ts : List Token} {e : Expr} {t : Token}
    {terminal : Terminal} (operand : FollowsExpr level ts e) (own : unaryLevel op = level.rank + 1)
    (fits : unaryLevel op ≤ cap level) (known : t.word.terminal? = some terminal)
    (accepted : ∀ pending, strength pending ≤ cap level →
      (operandSituation pending).accepts terminal = true)
    (stepped : ∀ purpose pending letters, stepOperand purpose pending ⟨terminal, letters, t.line⟩ =
      some (.operand purpose (.unary op t.line :: pending)))
    (plain : t.word ≠ .keyword .otherwiseWord) :
    FollowsExpr level (t :: ts) (.unary op e t.line) := by
  intro blocks done purpose pending weak
  have runOp : Run ⟨blocks, done, .operand purpose pending⟩ [t]
      ⟨blocks, done, .operand purpose (.unary op t.line :: pending)⟩ :=
    .one known (accepted pending weak) (by simp [State.step, stepped]) plain
  obtain ⟨s, run, pending', value, rests, same⟩ :=
    operand blocks done purpose (.unary op t.line :: pending) fits
  refine ⟨s, runOp.trans run, pending', value, rests, fun k low => ?_⟩
  rw [same k low, settle_unary (by omega)]

/-- An operand that is one token. -/
theorem followsExpr_token {t : Token} {e : Expr} {terminal : Terminal}
    (known : t.word.terminal? = some terminal) (starts : terminal.startsOperand = true)
    (stepped : ∀ purpose pending,
      stepOperand purpose pending ⟨terminal, t.word.spelling, t.line⟩ =
        some (.operator purpose pending e)) : FollowsExpr .atom [t] e := by
  intro blocks done purpose pending _
  refine ⟨⟨blocks, done, .operator purpose pending e⟩, ?_, .of_rests (.operator e)⟩
  refine .one known (accepts_operand pending starts) (by simp [State.step, stepped]) ?_
  intro same
  rw [same] at known
  cases known
  cases starts

theorem run_name {blocks : List Open} {done : List Stmt} {purpose : Purpose}
    {pending : List Pending} {name : String} {line column : Nat} :
    Run ⟨blocks, done, .operand purpose pending⟩ [⟨.name name, line, column⟩]
      ⟨blocks, done, .name purpose pending name line⟩ :=
  .one rfl (accepts_operand pending rfl) (by simp [State.step, stepOperand, Word.spelling]) nofun

/-- The machine follows an expression in parentheses. -/
theorem followsExpr_group {ts : List Token} {e : Expr} {l c l' c' : Nat}
    (inner : FollowsExpr .disjunction ts e) :
    FollowsExpr .atom (⟨.symbol .openParen, l, c⟩ :: ts ++ [⟨.symbol .closeParen, l', c'⟩]) e := by
  intro blocks done purpose pending _
  have opened : Run ⟨blocks, done, .operand purpose pending⟩ [⟨.symbol .openParen, l, c⟩]
      ⟨blocks, done, .operand purpose (.group :: pending)⟩ :=
    .one rfl (accepts_operand pending rfl) rfl nofun
  obtain ⟨s, run, holds⟩ := inner blocks done purpose (.group :: pending) (Nat.zero_le _)
  have closed : Run s [⟨.symbol .closeParen, l', c'⟩] ⟨blocks, done, .operator purpose pending e⟩ :=
    .one rfl (holds.accepts rfl) (holds.step_group rfl) nofun
  exact ⟨_, (opened.trans run).trans closed, .of_rests (.operator e)⟩

/-- The machine reads arguments, up to the closing parenthesis. -/
def FollowsArgs (ts : List Token) (es : List Expr) : Prop :=
  ∀ (blocks : List Open) (done : List Stmt) (purpose : Purpose) (pending : List Pending)
    (name : String) (line : Nat) (before : List Expr),
    ∃ s init last, es = init ++ [last] ∧
      Run ⟨blocks, done, .operand purpose (.call name line before :: pending)⟩ ts s ∧
      Holds blocks done purpose .disjunction
        (.call name line (init.reverse ++ before) :: pending) last s

theorem followsArgs_last {ts : List Token} {e : Expr} (arg : FollowsExpr .disjunction ts e) :
    FollowsArgs ts [e] := by
  intro blocks done purpose pending name line before
  obtain ⟨s, run, holds⟩ :=
    arg blocks done purpose (.call name line before :: pending) (Nat.zero_le _)
  exact ⟨s, [], e, rfl, run, holds⟩

/-- The machine follows one more argument with a comma behind it. -/
theorem followsArgs_more {ts us : List Token} {e : Expr} {es : List Expr} {l c : Nat}
    (arg : FollowsExpr .disjunction ts e) (more : FollowsArgs us es) :
    FollowsArgs (ts ++ ⟨.symbol .comma, l, c⟩ :: us) (e :: es) := by
  intro blocks done purpose pending name line before
  obtain ⟨s, run, holds⟩ :=
    arg blocks done purpose (.call name line before :: pending) (Nat.zero_le _)
  have comma : Run s [⟨.symbol .comma, l, c⟩]
      ⟨blocks, done, .operand purpose (.call name line (e :: before) :: pending)⟩ :=
    .one rfl (holds.accepts rfl) (holds.step_comma rfl) nofun
  obtain ⟨s', init, last, rfl, run', holds'⟩ :=
    more blocks done purpose pending name line (e :: before)
  exact ⟨s', e :: init, last, rfl, run.trans (comma.trans run'), by simpa using holds'⟩

theorem run_callOpen {blocks : List Open} {done : List Stmt} {purpose : Purpose}
    {pending : List Pending} {name : String} {line l c : Nat} :
    Run ⟨blocks, done, .name purpose pending name line⟩ [⟨.symbol .openParen, l, c⟩]
      ⟨blocks, done, .operand purpose (.call name line [] :: pending)⟩ :=
  .one rfl rfl rfl nofun

/-- The machine follows a call without arguments. -/
theorem followsExpr_callNone {name : String} {line column l c l' c' : Nat} :
    FollowsExpr .atom [⟨.name name, line, column⟩, ⟨.symbol .openParen, l, c⟩,
      ⟨.symbol .closeParen, l', c'⟩] (.call name [] line) := by
  intro blocks done purpose pending _
  have closed : Run ⟨blocks, done, .operand purpose (.call name line [] :: pending)⟩
      [⟨.symbol .closeParen, l', c'⟩]
      ⟨blocks, done, .operator purpose pending (.call name [] line)⟩ :=
    .one rfl rfl rfl nofun
  exact ⟨_, run_name.trans (run_callOpen.trans closed), .of_rests (.operator _)⟩

/-- The machine follows a call with arguments. -/
theorem followsExpr_call {name : String} {ts : List Token} {es : List Expr}
    {line column l c l' c' : Nat} (args : FollowsArgs ts es) :
    FollowsExpr .atom (⟨.name name, line, column⟩ :: ⟨.symbol .openParen, l, c⟩ :: ts ++
      [⟨.symbol .closeParen, l', c'⟩]) (.call name es line) := by
  intro blocks done purpose pending _
  obtain ⟨s, init, last, rfl, run, holds⟩ := args blocks done purpose pending name line []
  have closed : Run s [⟨.symbol .closeParen, l', c'⟩]
      ⟨blocks, done, .operator purpose pending (.call name (init ++ [last]) line)⟩ := by
    refine .one rfl (holds.accepts rfl) ?_ nofun
    simpa using holds.step_call rfl
  exact ⟨_, run_name.trans (run_callOpen.trans (run.trans closed)), .of_rests (.operator _)⟩

/-! ## Between statements -/

/-- The machine is between two statements, or has just read an expression that ends one. -/
inductive AtStatement (blocks : List Open) : List Stmt → State → Prop
  | between {done situation}
      (known : situation = .start ∨ situation = .blockStart ∨ situation = .between) :
    AtStatement blocks done ⟨blocks, done, .statement situation⟩
  | after {before purpose e stmt s}
      (holds : Holds blocks before purpose .disjunction [] e s)
      (finished : purpose.finish? e = some stmt) :
    AtStatement blocks (stmt :: before) s

/-- Every word that closes a block or a branch is looked for. -/
def Closable (s : State) : Prop :=
  ∀ t : Terminal, t.closesBlock = true → s.situation.accepts t = true

section AtStatement

variable {blocks : List Open} {done : List Stmt} {s : State}

theorem AtStatement.accepts (here : AtStatement blocks done s) {t : Terminal}
    (starts : t.startsStatement = true) : s.situation.accepts t = true := by
  cases here with
  | between known =>
    rcases known with rfl | rfl | rfl <;>
      simp [State.situation, Point.situation, Situation.accepts, starts]
  | after holds _ => exact holds.accepts (by simp [Terminal.followsOperand, starts])

/-- A word that begins a statement or closes a block acts on the statements read so far. -/
theorem AtStatement.step_eq (here : AtStatement blocks done s) {word : Lexeme}
    (outside : word.terminal.startsStatement = true ∨ word.terminal.closesBlock = true) :
    s.step word = stepStatement blocks done word := by
  cases here with
  | between known => rfl
  | @after before purpose e stmt s holds finished =>
    obtain ⟨terminal, letters, line⟩ := word
    have plain : terminal.operator? = none := by
      unfold Terminal.operator?
      split <;> simp_all [Terminal.startsStatement, Terminal.closesBlock]
    have closed : terminal ≠ .symbol .openParen := by
      rintro rfl
      simp [Terminal.startsStatement, Terminal.closesBlock] at outside
    rw [holds.step_complete plain closed, stepComplete_of_finish? finished]

theorem closable_of_holds {purpose : Purpose} {level : Level} {pending : List Pending} {e : Expr}
    (holds : Holds blocks done purpose level pending e s) : Closable s :=
  fun t closes => holds.accepts (by simp [Terminal.followsOperand, closes])

theorem closable_between : Closable ⟨blocks, done, .statement .between⟩ := by
  intro t closes
  simp [State.situation, Point.situation, Situation.accepts, closes]

/-- A state can be closed if it has not moved or has come to one that can. -/
theorem closable_of_moved {s' : State} (closable : Closable s) (moved : s' = s ∨ Closable s') :
    Closable s' := by
  rcases moved with rfl | closable'
  · exact closable
  · exact closable'

theorem atStatement_between : AtStatement blocks done ⟨blocks, done, .statement .between⟩ :=
  .between (.inr (.inr rfl))

/-- The first word of a statement. -/
theorem AtStatement.run_first (here : AtStatement blocks done s) {s' : State} {t : Token}
    {terminal : Terminal} (known : t.word.terminal? = some terminal)
    (starts : terminal.startsStatement = true)
    (stepped : stepStatement blocks done ⟨terminal, t.word.spelling, t.line⟩ = some s') :
    Run s [t] s' := by
  refine .one known (here.accepts starts) ((here.step_eq (.inl starts)).trans stepped) ?_
  intro same
  rw [same] at known
  cases known
  cases starts

/-- The word that closes a block. -/
theorem AtStatement.run_end {block : Open} (here : AtStatement (block :: blocks) done s)
    {line column : Nat} (looked : s.situation.accepts (.keyword .endWord) = true) :
    Run s [⟨.keyword .endWord, line, column⟩]
      ⟨blocks, block.close done, .statement .between⟩ :=
  .one rfl looked (here.step_eq (.inr rfl)) nofun

end AtStatement

/-! ## Statements -/

/-- The machine reads the statement where one is due. -/
def FollowsStmt (ts : List Token) (stmt : Stmt) : Prop :=
  ∀ ⦃blocks : List Open⦄ ⦃done : List Stmt⦄ ⦃s : State⦄, AtStatement blocks done s →
    ∃ s', Run s ts s' ∧ AtStatement blocks (stmt :: done) s' ∧ Closable s'

/-- The machine reads the statements where they are due. -/
def FollowsBody (ts : List Token) (ss : List Stmt) : Prop :=
  ∀ ⦃blocks : List Open⦄ ⦃done : List Stmt⦄ ⦃s : State⦄, AtStatement blocks done s →
    ∃ s', Run s ts s' ∧ AtStatement blocks (ss.reverse ++ done) s' ∧ (s' = s ∨ Closable s')

/-- The machine reads what follows a branch and is done with the choice. -/
def FollowsTail (ts : List Token) (bs : List Branch) (last : Option (List Stmt)) : Prop :=
  ∀ ⦃blocks : List Open⦄ ⦃before done : List Stmt⦄ ⦃line branchLine : Nat⦄
    ⦃earlier : List Branch⦄ ⦃condition : Expr⦄ ⦃s : State⦄,
    AtStatement (.branch before line earlier condition branchLine :: blocks) done s → Closable s →
    ∃ s', Run s ts s' ∧
      AtStatement blocks
        (.choose (endBranch done earlier condition branchLine ++ bs) last line :: before) s' ∧
      Closable s'

/-- A statement that ends in an expression, after the words before it. -/
theorem followsStmt_value {us ts : List Token} {e : Expr} {stmt : Stmt} (purpose : Purpose)
    (value : FollowsExpr .disjunction ts e) (finished : purpose.finish? e = some stmt)
    (front : ∀ ⦃blocks : List Open⦄ ⦃done : List Stmt⦄ ⦃s : State⦄, AtStatement blocks done s →
      Run s us ⟨blocks, done, .operand purpose []⟩) : FollowsStmt (us ++ ts) stmt := by
  intro blocks done s here
  obtain ⟨s', run, holds⟩ := value blocks done purpose [] (Nat.zero_le _)
  exact ⟨s', (front here).trans run, .after holds finished, closable_of_holds holds⟩

theorem run_assign {blocks : List Open} {done : List Stmt} {purpose : Purpose} {l c : Nat} :
    Run ⟨blocks, done, .assignment purpose⟩ [⟨.symbol .assign, l, c⟩]
      ⟨blocks, done, .operand purpose []⟩ :=
  .one rfl rfl rfl nofun

/-- A name where it is due. -/
theorem run_target {blocks : List Open} {done : List Stmt} {target : Target} {name : String}
    {line l c : Nat} :
    Run ⟨blocks, done, .target target line⟩ [⟨.name name, l, c⟩]
      (stepTarget blocks done target line name) :=
  .one rfl rfl (by simp [State.step, Word.spelling]) nofun

/-- A word, a name and `=`. -/
theorem AtStatement.run_assignment {blocks : List Open} {done : List Stmt} {s : State}
    (here : AtStatement blocks done s) {k : Keyword} {target : Target} {purpose : Purpose}
    {name : String} {line column l c l' c' : Nat}
    (starts : (Terminal.keyword k).startsStatement = true)
    (stepped : stepStatement blocks done ⟨.keyword k, k.letters, line⟩ =
      some ⟨blocks, done, .target target line⟩)
    (made : stepTarget blocks done target line name = ⟨blocks, done, .assignment purpose⟩) :
    Run s [⟨.keyword k, line, column⟩, ⟨.name name, l, c⟩, ⟨.symbol .assign, l', c'⟩]
      ⟨blocks, done, .operand purpose []⟩ := by
  have named : Run ⟨blocks, done, .target target line⟩ [⟨.name name, l, c⟩]
      ⟨blocks, done, .assignment purpose⟩ := made ▸ run_target
  have first : Run s [⟨.keyword k, line, column⟩] ⟨blocks, done, .target target line⟩ :=
    here.run_first rfl starts stepped
  exact first.trans (named.trans run_assign)

/-- The machine follows an assignment that begins with its name. -/
theorem followsStmt_assign {name : String} {ts : List Token} {e : Expr} {line column l c : Nat}
    (value : FollowsExpr .disjunction ts e) :
    FollowsStmt (⟨.name name, line, column⟩ :: ⟨.symbol .assign, l, c⟩ :: ts)
      (.assign name e line) := by
  suffices front : ∀ ⦃blocks : List Open⦄ ⦃done : List Stmt⦄ ⦃s : State⦄,
      AtStatement blocks done s → Run s [⟨.name name, line, column⟩, ⟨.symbol .assign, l, c⟩]
        ⟨blocks, done, .operand (.assign name line) []⟩ from
    followsStmt_value (.assign name line) value rfl front
  intro blocks done s here
  have first : Run s [⟨.name name, line, column⟩]
      ⟨blocks, done, .assignment (.assign name line)⟩ :=
    here.run_first rfl rfl (by simp [stepStatement, Word.spelling])
  exact first.trans run_assign

theorem followsStmt_ask {name : String} {line column l c : Nat} :
    FollowsStmt [⟨.keyword .askWord, line, column⟩, ⟨.name name, l, c⟩] (.ask name line) := by
  intro blocks done s here
  have run : Run s [⟨.keyword .askWord, line, column⟩, ⟨.name name, l, c⟩]
      ⟨blocks, .ask name line :: done, .statement .between⟩ :=
    (here.run_first rfl rfl rfl).trans run_target
  exact ⟨_, run, atStatement_between, closable_between⟩

/-- A statement that is one word. -/
theorem followsStmt_word {k : Keyword} {stmt : Stmt} {line column : Nat}
    (starts : (Terminal.keyword k).startsStatement = true)
    (stepped : ∀ blocks done, stepStatement blocks done ⟨.keyword k, k.letters, line⟩ =
      some ⟨blocks, stmt :: done, .statement .between⟩) :
    FollowsStmt [⟨.keyword k, line, column⟩] stmt := by
  intro blocks done s here
  exact ⟨_, here.run_first rfl starts (stepped blocks done), atStatement_between,
    closable_between⟩

/-- The statements of a loop or of a last alternative, up to the closing word. -/
theorem run_enclosed {blocks : List Open} {block : Open} {ts : List Token} {ss : List Stmt}
    {l c : Nat} (inside : FollowsBody ts ss) :
    Run ⟨block :: blocks, [], .statement .blockStart⟩ (ts ++ [⟨.keyword .endWord, l, c⟩])
      ⟨blocks, block.close ss.reverse, .statement .between⟩ := by
  obtain ⟨s, run, here, moved⟩ := inside (.between (.inr (.inl rfl)))
  rw [List.append_nil] at here
  have looked : s.situation.accepts (.keyword .endWord) = true := by
    rcases moved with rfl | closable
    · rfl
    · exact closable _ rfl
  exact run.trans (here.run_end looked)

/-- The machine follows a loop over a range. -/
theorem followsStmt_range {name : String} {ts us vs : List Token} {first last : Expr}
    {ss : List Stmt} {line column l₁ c₁ l₂ c₂ l₃ c₃ l₄ c₄ l₅ c₅ : Nat}
    (start : FollowsExpr .disjunction ts first) (stop : FollowsExpr .disjunction us last)
    (inside : FollowsBody vs ss) :
    FollowsStmt (⟨.keyword .loopWord, line, column⟩ :: ⟨.name name, l₁, c₁⟩ ::
        ⟨.symbol .assign, l₂, c₂⟩ :: ts ++ ⟨.keyword .toWord, l₃, c₃⟩ :: us ++
        ⟨.keyword .doWord, l₄, c₄⟩ :: vs ++ [⟨.keyword .endWord, l₅, c₅⟩])
      (.range name first last ss line) := by
  intro blocks done s here
  have front : Run s [⟨.keyword .loopWord, line, column⟩, ⟨.name name, l₁, c₁⟩,
      ⟨.symbol .assign, l₂, c₂⟩] ⟨blocks, done, .operand (.first name line) []⟩ :=
    here.run_assignment rfl rfl rfl
  obtain ⟨s₁, runStart, holdsStart⟩ := start blocks done (.first name line) [] (Nat.zero_le _)
  have toRun : Run s₁ [⟨.keyword .toWord, l₃, c₃⟩]
      ⟨blocks, done, .operand (.last name first line) []⟩ :=
    .one rfl (holdsStart.accepts rfl) (holdsStart.step_complete rfl nofun) nofun
  obtain ⟨s₂, runStop, holdsStop⟩ := stop blocks done (.last name first line) [] (Nat.zero_le _)
  have doRun : Run s₂ [⟨.keyword .doWord, l₄, c₄⟩]
      ⟨.range done name first last line :: blocks, [], .statement .blockStart⟩ :=
    .one rfl (holdsStop.accepts rfl) (holdsStop.step_complete rfl nofun) nofun
  have rest : Run ⟨.range done name first last line :: blocks, [], .statement .blockStart⟩
      (vs ++ [⟨.keyword .endWord, l₅, c₅⟩])
      ⟨blocks, .range name first last ss line :: done, .statement .between⟩ := by
    simpa [Open.close] using run_enclosed inside
  have whole := front.trans (runStart.trans (toRun.trans (runStop.trans (doRun.trans rest))))
  exact ⟨_, by simpa using whole, atStatement_between, closable_between⟩

/-- The machine follows a loop with a condition. -/
theorem followsStmt_whilst {ts us : List Token} {e : Expr} {ss : List Stmt}
    {line column l₁ c₁ l₂ c₂ l₃ c₃ l₄ c₄ : Nat} (test : FollowsExpr .disjunction ts e)
    (inside : FollowsBody us ss) :
    FollowsStmt (⟨.keyword .repeatWord, line, column⟩ :: ⟨.symbol .openParen, l₁, c₁⟩ :: ts ++
        ⟨.symbol .closeParen, l₂, c₂⟩ :: ⟨.keyword .doWord, l₃, c₃⟩ :: us ++
        [⟨.keyword .endWord, l₄, c₄⟩])
      (.whilst e ss line) := by
  intro blocks done s here
  have front : Run s [⟨.keyword .repeatWord, line, column⟩] ⟨blocks, done, .condition line⟩ :=
    here.run_first rfl rfl rfl
  have opened : Run ⟨blocks, done, .condition line⟩ [⟨.symbol .openParen, l₁, c₁⟩]
      ⟨blocks, done, .operand (.whilst line) []⟩ :=
    .one rfl rfl rfl nofun
  obtain ⟨s₁, run, holds⟩ := test blocks done (.whilst line) [] (Nat.zero_le _)
  have closed : Run s₁ [⟨.symbol .closeParen, l₂, c₂⟩] ⟨blocks, done, .body e line⟩ :=
    .one rfl (holds.accepts rfl) (holds.step_complete rfl nofun) nofun
  have doRun : Run ⟨blocks, done, .body e line⟩ [⟨.keyword .doWord, l₃, c₃⟩]
      ⟨.whilst done e line :: blocks, [], .statement .blockStart⟩ :=
    .one rfl rfl rfl nofun
  have rest : Run ⟨.whilst done e line :: blocks, [], .statement .blockStart⟩
      (us ++ [⟨.keyword .endWord, l₄, c₄⟩])
      ⟨blocks, .whilst e ss line :: done, .statement .between⟩ := by
    simpa [Open.close] using run_enclosed inside
  have whole := front.trans (opened.trans (run.trans (closed.trans (doRun.trans rest))))
  exact ⟨_, by simpa using whole, atStatement_between, closable_between⟩

/-! ## Choices -/

/-- The condition and the statements of a branch and what follows them. -/
theorem follows_branch {blocks : List Open} {done : List Stmt} {line branchLine : Nat}
    {earlier bs : List Branch} {ts us vs : List Token} {e : Expr} {ss : List Stmt}
    {last : Option (List Stmt)} {l c : Nat} (test : FollowsExpr .disjunction ts e)
    (inside : FollowsBody us ss) (others : FollowsTail vs bs last) :
    ∃ s, Run ⟨blocks, done, .operand (.condition line earlier branchLine) []⟩
        (ts ++ ⟨.keyword .doWord, l, c⟩ :: us ++ vs) s ∧
      AtStatement blocks (.choose (earlier ++ .mk e ss branchLine :: bs) last line :: done) s ∧
      Closable s := by
  obtain ⟨s₁, run, holds⟩ :=
    test blocks done (.condition line earlier branchLine) [] (Nat.zero_le _)
  have doRun : Run s₁ [⟨.keyword .doWord, l, c⟩]
      ⟨.branch done line earlier e branchLine :: blocks, [], .statement .between⟩ :=
    .one rfl (holds.accepts rfl) (holds.step_complete rfl nofun) nofun
  obtain ⟨s₂, runInside, here, moved⟩ :=
    @inside (.branch done line earlier e branchLine :: blocks) [] _ atStatement_between
  rw [List.append_nil] at here
  have closable : Closable s₂ := closable_of_moved closable_between moved
  obtain ⟨s₃, runOthers, after, closable'⟩ := others here closable
  have whole := run.trans (doRun.trans (runInside.trans runOthers))
  exact ⟨s₃, by simpa using whole, by simpa [endBranch] using after, closable'⟩

/-- The machine follows a choice by its first branch and whatever comes behind that. -/
theorem followsStmt_choose {k : Keyword} {ts us vs : List Token} {e : Expr} {ss : List Stmt}
    {bs : List Branch} {last : Option (List Stmt)} {line column l c : Nat} (opens : k.opensBranch)
    (test : FollowsExpr .disjunction ts e) (inside : FollowsBody us ss)
    (others : FollowsTail vs bs last) :
    FollowsStmt (⟨.keyword k, line, column⟩ :: ts ++ ⟨.keyword .doWord, l, c⟩ :: us ++ vs)
      (.choose (.mk e ss line :: bs) last line) := by
  intro blocks done s here
  have front : Run s [⟨.keyword k, line, column⟩]
      ⟨blocks, done, .operand (.condition line [] line) []⟩ := by
    rcases opens with rfl | rfl
    · exact here.run_first rfl rfl rfl
    · exact here.run_first rfl rfl rfl
  obtain ⟨s', run, after, closable⟩ := follows_branch test inside others
  exact ⟨s', front.trans run, after, closable⟩

theorem followsTail_close {line column : Nat} :
    FollowsTail [⟨.keyword .endWord, line, column⟩] [] none := by
  intro blocks before done line branchLine earlier condition s here closable
  refine ⟨_, here.run_end (closable _ rfl), ?_, closable_between⟩
  simpa [Open.close] using atStatement_between

/-- The machine follows the last alternative of a choice. -/
theorem followsTail_otherwise {ts : List Token} {ss : List Stmt} {l₁ c₁ l₂ c₂ : Nat}
    (separate : ¬ OpensBranch ts) (inside : FollowsBody ts ss) :
    FollowsTail (⟨.keyword .otherwiseWord, l₁, c₁⟩ :: ts ++ [⟨.keyword .endWord, l₂, c₂⟩]) []
      (some ss) := by
  intro blocks before done line branchLine earlier condition s here closable
  have apart : ¬ OpensBranch (ts ++ [⟨.keyword .endWord, l₂, c₂⟩]) := by
    cases ts with
    | nil => rintro (same | same) <;> cases same
    | cons t ts => exact fun opens => separate (opensBranch_of_append (List.cons_ne_nil t ts) opens)
  refine ⟨_, .word rfl (closable _ rfl) (here.step_eq (.inr rfl)) (fun _ => ⟨by simp, apart⟩)
    (run_enclosed inside), ?_, closable_between⟩
  simpa [Open.close] using atStatement_between

/-- The machine follows one more branch of a choice, with `otherwise when` as one word. -/
theorem followsTail_branch {k : Keyword} {ts us vs : List Token} {e : Expr} {ss : List Stmt}
    {bs : List Branch} {last : Option (List Stmt)} {l₁ c₁ line column l₂ c₂ : Nat}
    (opens : k.opensBranch) (test : FollowsExpr .disjunction ts e) (inside : FollowsBody us ss)
    (others : FollowsTail vs bs last) :
    FollowsTail (⟨.keyword .otherwiseWord, l₁, c₁⟩ :: ⟨.keyword k, line, column⟩ :: ts ++
      ⟨.keyword .doWord, l₂, c₂⟩ :: us ++ vs) (.mk e ss line :: bs) last := by
  intro blocks before done choiceLine branchLine earlier condition s here closable
  obtain ⟨s', run, after, closable'⟩ := follows_branch test inside others
  refine ⟨s', .otherwiseWhen opens (closable _ rfl) (fun letters lines => ?_) run, after,
    closable'⟩
  rw [here.step_eq (.inr rfl), ← lines]
  rfl

/-! ## Sequences -/

theorem followsBody_semicolon {ts : List Token} {ss : List Stmt} {l c : Nat}
    (more : FollowsBody ts ss) : FollowsBody (⟨.symbol .semicolon, l, c⟩ :: ts) ss := by
  intro blocks done s here
  have passed : Run s [⟨.symbol .semicolon, l, c⟩] ⟨blocks, done, .statement .between⟩ :=
    here.run_first rfl rfl rfl
  obtain ⟨s', run, after, moved⟩ := more atStatement_between
  exact ⟨s', passed.trans run, after, .inr (closable_of_moved closable_between moved)⟩

theorem followsBody_sequence {ts us : List Token} {stmt : Stmt} {ss : List Stmt}
    (first : FollowsStmt ts stmt) (more : FollowsBody us ss) :
    FollowsBody (ts ++ us) (stmt :: ss) := by
  intro blocks done s here
  obtain ⟨s₁, run, between, closable⟩ := first here
  obtain ⟨s₂, run', after, moved⟩ := more between
  exact ⟨s₂, run.trans run', by simpa using after, .inr (closable_of_moved closable moved)⟩

/-! ## Derivations -/

/-- The machine reads a phrase. -/
def Follows (ts : List Token) : Phrase → Prop
  | .expr level e => FollowsExpr level ts e
  | .args es => FollowsArgs ts es
  | .stmt stmt => FollowsStmt ts stmt
  | .body ss => FollowsBody ts ss
  | .tail bs last => FollowsTail ts bs last

/-- The machine follows every phrase of the grammar, by induction on its derivation. -/
theorem follows_of_derives {ts : List Token} {phrase : Phrase} (derived : Derives ts phrase) :
    Follows ts phrase := by
  induction derived with
  | tighter loose _ inner => exact followsExpr_tighter loose inner
  | binary own _ _ first second => exact followsExpr_binary own first second
  | not _ operand =>
    exact followsExpr_unary operand rfl (by decide) rfl (fun _ weak => accepts_not weak)
      (fun _ _ _ => rfl) nofun
  | negate _ operand =>
    exact followsExpr_unary operand rfl (by decide) rfl (fun _ _ => accepts_operand _ rfl)
      (fun _ _ _ => rfl) nofun
  | number =>
    exact followsExpr_token rfl rfl fun _ _ => by simp [stepOperand, Word.spelling]
  | text =>
    exact followsExpr_token rfl rfl fun _ _ => by simp [stepOperand, Word.spelling]
  | trueWord => exact followsExpr_token rfl rfl fun _ _ => rfl
  | falseWord => exact followsExpr_token rfl rfl fun _ _ => rfl
  | name =>
    intro blocks done purpose pending _
    exact ⟨_, run_name, .of_rests (.name _ _)⟩
  | group _ inner => exact followsExpr_group inner
  | callNone => exact followsExpr_callNone
  | call _ args => exact followsExpr_call args
  | lastArg _ arg => exact followsArgs_last arg
  | moreArgs _ _ arg more => exact followsArgs_more arg more
  | set _ value =>
    exact followsStmt_value (.declare _ false _) value rfl
      fun _ _ _ here => here.run_assignment rfl rfl rfl
  | keep _ value =>
    exact followsStmt_value (.declare _ true _) value rfl
      fun _ _ _ here => here.run_assignment rfl rfl rfl
  | change _ value =>
    exact followsStmt_value (.assign _ _) value rfl
      fun _ _ _ here => here.run_assignment rfl rfl rfl
  | assign _ value => exact followsStmt_assign value
  | say _ value =>
    exact followsStmt_value (.say _) value rfl fun _ _ _ here => here.run_first rfl rfl rfl
  | display _ value =>
    exact followsStmt_value (.display _) value rfl fun _ _ _ here => here.run_first rfl rfl rfl
  | ask => exact followsStmt_ask
  | leave => exact followsStmt_word rfl fun _ _ => rfl
  | next => exact followsStmt_word rfl fun _ _ => rfl
  | range _ _ _ start stop inside => exact followsStmt_range start stop inside
  | whilst _ _ test inside => exact followsStmt_whilst test inside
  | choose opens _ _ _ test inside others => exact followsStmt_choose opens test inside others
  | close => exact followsTail_close
  | otherwise separate _ inside => exact followsTail_otherwise separate inside
  | branch opens _ _ _ test inside others => exact followsTail_branch opens test inside others
  | nothing => exact fun _ _ s here => ⟨s, .refl, here, .inl rfl⟩
  | semicolon _ more => exact followsBody_semicolon more
  | sequence _ _ first more => exact followsBody_sequence first more

/-- Between the statements of the program itself the source may end. -/
theorem AtStatement.finish?_eq {done : List Stmt} {s : State} (here : AtStatement [] done s) :
    s.finish? = some done := by
  cases here with
  | between known => rfl
  | after holds finished =>
    obtain ⟨pending, value, rests, settled⟩ := holds.settle_zero
    have whole : settle 0 pending value = ([], _) := settled
    cases rests with
    | name name line => simp [State.finish?, whole, finished]
    | operator value => simp [State.finish?, whole, finished]

/-- The machine reads every program of the grammar and gives its statements. -/
theorem run_of_derivedFrom {p : Program} {ts : List Token} (derived : p.DerivedFrom ts) :
    ∃ s, Run {} ts s ∧ s.finish? = some p.body.reverse := by
  have follows : FollowsBody ts p.body := follows_of_derives derived
  obtain ⟨s, run, here, _⟩ := follows (.between (.inl rfl))
  rw [List.append_nil] at here
  exact ⟨s, run, here.finish?_eq⟩

end Parlance.Contextual
