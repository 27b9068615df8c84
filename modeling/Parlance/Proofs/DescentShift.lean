import Parlance.Proofs.DescentCompleteness
import Parlance.Proofs.LineShift

/-!
# The descent parser on tokens further down, with more tokens after them

What a reader takes off the front of some tokens it also takes off the front of the same tokens
further down, whatever follows them, as long as that does not go on with an expression.  The room
for nesting is the same on both sides: the tokens that follow are not looked into.

`Carries` says this of a reader, and each lemma goes from the readers inside to the one around them.
A sequence of statements that has come to the end of its tokens goes on with what follows; all other
readers stop where they did.
-/

namespace Parlance.Descent

section Carries

variable {size k : Nat} {more : List Token}

/-- The tokens further down, with more tokens after them. -/
def onto (k : Nat) (more ts : List Token) : List Token :=
  ts.map (Token.moved k) ++ more

/-- What the first reader takes off the front of few tokens, the second one takes off the front of
the tokens further down. -/
def Carries {α : Type} (size k : Nat) (more : List Token) (move : α → α)
    (reader reader' : Reader α) : Prop :=
  ∀ {ts : List Token} {found : α} {rest : List Token}, ts.length ≤ size →
    reader ts = .ok (found, rest) →
      rest.length < ts.length ∧ reader' (onto k more ts) = .ok (move found, onto k more rest)

theorem carries_expect (k : Nat) (more : List Token) {word : Word} {ts rest : List Token}
    (taken : expect word ts = .ok rest) :
    rest.length < ts.length ∧ expect word (onto k more ts) = .ok (onto k more rest) := by
  obtain ⟨line, column, rfl⟩ := expect_eq_ok taken
  exact ⟨Nat.lt_succ_self _, expect_self ..⟩

theorem carries_expectName : Carries size k more id expectName expectName := by
  intro ts name rest _ taken
  obtain ⟨line, column, rfl⟩ := expectName_eq_ok taken
  exact ⟨Nat.lt_succ_self _, rfl⟩

/-! ## Expressions -/

/-- What a chain takes, it takes further down, with its lines moved.  It stops at the same place,
because the tokens behind the piece end its level, too. -/
theorem carries_chainAfter {operand operand' : Reader Expr} {level : Level}
    (operands : Carries size k more (Expr.moved k) operand operand') (ends : Ends level more)
    {bound : Nat} (bound' : Nat) {left e : Expr} {ts rest : List Token} (small : ts.length ≤ size)
    (enough : ts.length ≤ bound) (enough' : ts.length ≤ bound')
    (taken : chainAfter operand level bound left ts = .ok (e, rest)) :
    rest.length ≤ ts.length ∧
      chainAfter operand' level bound' (left.moved k) (onto k more ts) =
        .ok (e.moved k, onto k more rest) := by
  induction bound generalizing bound' left ts with
  | zero =>
    obtain rfl := List.eq_nil_of_length_eq_zero (Nat.le_zero.1 enough)
    cases taken
    exact ⟨Nat.le_refl _, chainAfter_of_ends ends⟩
  | succ bound ih =>
    cases ts with
    | nil =>
      cases taken
      exact ⟨Nat.le_refl _, chainAfter_of_ends ends⟩
    | cons t ts =>
      simp only [List.length_cons] at small enough enough'
      obtain ⟨bound', rfl⟩ : ∃ n, bound' = n + 1 := ⟨bound' - 1, by omega⟩
      have opened : onto k more (t :: ts) = t.moved k :: onto k more ts := rfl
      have word : (t.moved k).word = t.word := rfl
      rw [chainAfter] at taken
      rw [opened, chainAfter, word]
      split at taken
      · next op found =>
        obtain ⟨⟨right, after⟩, rightTaken, next⟩ := bind_eq_ok.1 taken
        obtain ⟨shorter, rightCarried⟩ := operands (by omega) rightTaken
        obtain ⟨shorter', carried⟩ := ih bound' (by omega) (by omega) (by omega) next
        rw [Expr.moved_join] at carried
        exact ⟨by simp only [List.length_cons]; omega, bind_eq_ok.2 ⟨_, rightCarried, carried⟩⟩
      · cases taken
        exact ⟨Nat.le_refl _, rfl⟩

/-- A level of operators carries what it takes if its operands do. -/
theorem carries_chain {operand operand' : Reader Expr} {level : Level}
    (operands : Carries size k more (Expr.moved k) operand operand') (ends : Ends level more)
    {bound bound' : Nat} (enough : size ≤ bound) (enough' : size ≤ bound') :
    Carries size k more (Expr.moved k) (chain operand level bound)
      (chain operand' level bound') := by
  intro ts e rest small taken
  obtain ⟨⟨first, after⟩, firstTaken, next⟩ := bind_eq_ok.1 taken
  obtain ⟨shorter, firstCarried⟩ := operands small firstTaken
  obtain ⟨shorter', carried⟩ :=
    carries_chainAfter operands ends bound' (by omega) (by omega) (by omega) next
  exact ⟨by omega, bind_eq_ok.2 ⟨_, firstCarried, carried⟩⟩

/-- Further arguments are carried, up to the parenthesis that closes them. -/
theorem carries_argumentsAfter {operand operand' : Reader Expr}
    (operands : Carries size k more (Expr.moved k) operand operand') {bound : Nat} (bound' : Nat)
    {args : List Expr} {ts rest : List Token} (small : ts.length ≤ size)
    (enough : ts.length ≤ bound') (taken : argumentsAfter operand bound ts = .ok (args, rest)) :
    rest.length < ts.length ∧
      argumentsAfter operand' bound' (onto k more ts) =
        .ok (Expr.allMoved k args, onto k more rest) := by
  fun_induction argumentsAfter operand bound ts generalizing bound' args with
  | case1 bound line column ts ih =>
    simp only [List.length_cons] at small enough
    obtain ⟨bound', rfl⟩ : ∃ n, bound' = n + 1 := ⟨bound' - 1, by omega⟩
    obtain ⟨⟨next, afterNext⟩, nextTaken, others⟩ := bind_eq_ok.1 taken
    obtain ⟨⟨others, afterOthers⟩, othersTaken, same⟩ := bind_eq_ok.1 others
    cases same
    obtain ⟨shorter, nextCarried⟩ := operands (by omega) nextTaken
    obtain ⟨shorter', othersCarried⟩ := ih _ bound' (by omega) (by omega) othersTaken
    refine ⟨by simp only [List.length_cons]; omega, ?_⟩
    exact bind_eq_ok.2 ⟨_, nextCarried, bind_eq_ok.2 ⟨_, othersCarried, rfl⟩⟩
  | case2 bound ts _ =>
    obtain ⟨after, closed, same⟩ := bind_eq_ok.1 taken
    cases same
    obtain ⟨line, column, rfl⟩ := expect_eq_ok closed
    exact ⟨Nat.lt_succ_self _, argumentsAfter_close ..⟩

/-- Tokens begin with the same word further down. -/
theorem beginsWith_of_onto {word : Word} {ts : List Token} (some : 0 < ts.length)
    (begins : BeginsWith word (onto k more ts)) : BeginsWith word ts := by
  cases ts with
  | nil => exact absurd some (Nat.lt_irrefl 0)
  | cons t ts =>
    obtain ⟨line, column, rest, same⟩ := begins
    have word' : t.word = word := congrArg Token.word (List.cons.inj same).1
    exact ⟨t.line, t.column, ts, by rw [← word']⟩

/-- The arguments of a call are carried. -/
theorem carries_arguments {operand operand' : Reader Expr}
    (operands : Carries size k more (Expr.moved k) operand operand') {bound bound' : Nat}
    (enough : size ≤ bound') :
    Carries size k more (Expr.allMoved k) (arguments operand bound)
      (arguments operand' bound') := by
  intro ts args rest small taken
  by_cases closed : BeginsWith (.symbol .closeParen) ts
  · obtain ⟨line, column, after, rfl⟩ := closed
    cases taken
    exact ⟨Nat.lt_succ_self _, rfl⟩
  · rw [arguments_of_open closed] at taken
    obtain ⟨⟨arg, after⟩, argTaken, next⟩ := bind_eq_ok.1 taken
    obtain ⟨⟨args, after'⟩, argsTaken, same⟩ := bind_eq_ok.1 next
    cases same
    obtain ⟨shorter, argCarried⟩ := operands small argTaken
    obtain ⟨shorter', argsCarried⟩ :=
      carries_argumentsAfter operands bound' (by omega) (by omega) argsTaken
    refine ⟨by omega, ?_⟩
    rw [arguments_of_open fun begins => closed (beginsWith_of_onto (by omega) begins)]
    exact bind_eq_ok.2 ⟨_, argCarried, bind_eq_ok.2 ⟨_, argsCarried, rfl⟩⟩

/-- A name without parentheses after it stays one. -/
theorem not_beginsWith_paren_onto (ends : Ends .disjunction more) {ts : List Token}
    (plain : ¬ BeginsWith (.symbol .openParen) ts) :
    ¬ BeginsWith (.symbol .openParen) (onto k more ts) := by
  cases ts with
  | nil => exact ends.not_beginsWith
  | cons t ts => exact fun begins => plain (beginsWith_of_onto (Nat.succ_pos _) begins)

/-- Atoms are carried.  A name at the end of the piece is no call further down, since the tokens
behind end an expression. -/
theorem carries_atom {expression expression' : Reader Expr}
    (inner : Carries size k more (Expr.moved k) expression expression')
    (ends : Ends .disjunction more) {bound bound' : Nat} (enough : size ≤ bound') :
    Carries size k more (Expr.moved k) (atom expression bound) (atom expression' bound') := by
  intro ts e rest small taken
  unfold atom at taken
  split at taken
  · cases taken
    exact ⟨Nat.lt_succ_self _, rfl⟩
  · cases taken
    exact ⟨Nat.lt_succ_self _, rfl⟩
  · cases taken
    exact ⟨Nat.lt_succ_self _, rfl⟩
  · cases taken
    exact ⟨Nat.lt_succ_self _, rfl⟩
  · simp only [List.length_cons] at small ⊢
    obtain ⟨⟨args, after⟩, argsTaken, same⟩ := bind_eq_ok.1 taken
    cases same
    obtain ⟨shorter, argsCarried⟩ := carries_arguments inner enough (by omega) argsTaken
    exact ⟨by omega, bind_eq_ok.2 ⟨_, argsCarried, rfl⟩⟩
  · next s line column us plain =>
    cases taken
    refine ⟨Nat.lt_succ_self _, atom_name (not_beginsWith_paren_onto ends ?_)⟩
    rintro ⟨l, c, after, rfl⟩
    exact plain l c after rfl
  · simp only [List.length_cons] at small ⊢
    obtain ⟨⟨inside, after⟩, insideTaken, next⟩ := bind_eq_ok.1 taken
    obtain ⟨after', closed, same⟩ := bind_eq_ok.1 next
    cases same
    obtain ⟨shorter, insideCarried⟩ := inner (by omega) insideTaken
    obtain ⟨shorter', closedCarried⟩ := carries_expect k more closed
    exact ⟨by omega, bind_eq_ok.2 ⟨_, insideCarried, bind_eq_ok.2 ⟨_, closedCarried, rfl⟩⟩⟩
  · exact absurd taken refuse_ne_ok

/-- Expressions are carried, whatever their level and the room. -/
theorem carries_expression (ends : Ends .disjunction more) {bound bound' : Nat}
    (enough : size ≤ bound) (enough' : size ≤ bound') (room : Nat) (level : Level) :
    Carries size k more (Expr.moved k) (expression bound room level)
      (expression bound' room level) := by
  induction room generalizing level with
  | zero => exact fun _ taken => absurd taken refuse_ne_ok
  | succ room ih =>
    intro ts e rest small taken
    have ends' : Ends level more := ends.of_rank_le (Nat.zero_le _)
    by_cases binary : level.isBinary = true
    · rw [expression_of_isBinary binary] at taken ⊢
      exact carries_chain (ih level.tighter) ends' enough enough' small taken
    · cases level with
      | negation =>
        by_cases negated : BeginsWith (.keyword .notWord) ts
        · obtain ⟨line, column, after, rfl⟩ := negated
          simp only [List.length_cons] at small ⊢
          obtain ⟨⟨operand, after'⟩, operandTaken, same⟩ := bind_eq_ok.1 taken
          cases same
          obtain ⟨shorter, carried⟩ := ih .negation (by omega) operandTaken
          exact ⟨by omega, bind_eq_ok.2 ⟨_, carried, rfl⟩⟩
        · rw [expression_negation negated] at taken
          obtain ⟨shorter, carried⟩ := ih .equality small taken
          rw [expression_negation fun begins => negated (beginsWith_of_onto (by omega) begins)]
          exact ⟨shorter, carried⟩
      | sign =>
        by_cases negative : BeginsWith (.symbol .minus) ts
        · obtain ⟨line, column, after, rfl⟩ := negative
          simp only [List.length_cons] at small ⊢
          obtain ⟨⟨operand, after'⟩, operandTaken, same⟩ := bind_eq_ok.1 taken
          cases same
          obtain ⟨shorter, carried⟩ := ih .sign (by omega) operandTaken
          exact ⟨by omega, bind_eq_ok.2 ⟨_, carried, rfl⟩⟩
        · rw [expression_sign negative] at taken
          obtain ⟨shorter, carried⟩ := ih .atom small taken
          rw [expression_sign fun begins => negative (beginsWith_of_onto (by omega) begins)]
          exact ⟨shorter, carried⟩
      | atom => exact carries_atom (ih .disjunction) ends enough' small taken
      | _ => exact absurd rfl binary

/-! ## Sequences of statements -/

/-- The attempt at a sequence of statements, with statements before them. -/
def precede (ss : List Stmt) (attempt : Attempt (List Stmt × List Token)) :
    Attempt (List Stmt × List Token) :=
  attempt.map fun found => (ss ++ found.1, found.2)

theorem precede_cons (s : Stmt) (ss : List Stmt) (attempt : Attempt (List Stmt × List Token)) :
    (do
      let (later, rest) ← precede ss attempt
      return (s :: later, rest)) = precede (s :: ss) attempt := by
  cases attempt <;> rfl

theorem precede_nil (attempt : Attempt (List Stmt × List Token)) :
    precede [] attempt = attempt := by
  cases attempt <;> rfl

/-- The second reader of statements runs through the tokens further down and then goes on with the
rest. -/
def RunsThrough (k : Nat) (more : List Token) (statement : Reader Stmt) (closers : List Keyword)
    (ts : List Token) (ss : List Stmt) (rest : List Token) : Prop :=
  rest.length ≤ ts.length ∧ ∃ steps ≤ ts.length, ∀ left, steps ≤ left →
    sequence statement closers left (onto k more ts) =
      precede (Stmt.allMoved k ss) (sequence statement closers (left - steps) (onto k more rest))

theorem runsThrough_nothing {statement : Reader Stmt} {closers : List Keyword} {ts : List Token} :
    RunsThrough k more statement closers ts [] ts :=
  ⟨Nat.le_refl _, 0, Nat.zero_le _, fun _ _ => (precede_nil _).symm⟩

/-- One more statement at the front. -/
theorem RunsThrough.cons {statement : Reader Stmt} {closers : List Keyword} {t : Token}
    {ts after rest : List Token} {s : Stmt} {ss : List Stmt}
    (opened : ∀ left, sequence statement closers (left + 1) (onto k more (t :: ts)) = (do
      let (first, rest) ← statement (onto k more (t :: ts))
      let (later, rest) ← sequence statement closers left rest
      return (first :: later, rest)))
    (shorter : after.length < (t :: ts).length)
    (first : statement (onto k more (t :: ts)) = .ok (s.moved k, onto k more after))
    (others : RunsThrough k more statement closers after ss rest) :
    RunsThrough k more statement closers (t :: ts) (s :: ss) rest := by
  obtain ⟨shorter', steps, few, runs⟩ := others
  refine ⟨by omega, steps + 1, by omega, fun left enough => ?_⟩
  obtain ⟨left, rfl⟩ : ∃ n, left = n + 1 := ⟨left - 1, by omega⟩
  rw [opened, first, Nat.add_sub_add_right, Stmt.allMoved, ← precede_cons, ← runs left (by omega)]
  rfl

/-- A sequence of statements stops at its end or at a closing word; further down it gets as far and
goes on. -/
theorem carries_sequence {statement statement' : Reader Stmt}
    (statements : Carries size k more (Stmt.moved k) statement statement')
    {closers : List Keyword} {left : Nat} {ts rest : List Token} {ss : List Stmt}
    (small : ts.length ≤ size) (enough : ts.length ≤ left)
    (taken : sequence statement closers left ts = .ok (ss, rest)) :
    Stops closers rest ∧ RunsThrough k more statement' closers ts ss rest := by
  induction left generalizing ts ss with
  | zero =>
    obtain rfl := List.eq_nil_of_length_eq_zero (Nat.le_zero.1 enough)
    cases taken
    exact ⟨.inl rfl, runsThrough_nothing⟩
  | succ left ih =>
    cases ts with
    | nil =>
      cases taken
      exact ⟨.inl rfl, runsThrough_nothing⟩
    | cons t ts =>
      obtain ⟨word, line, column⟩ := t
      simp only [List.length_cons] at enough
      by_cases separates : word = .symbol .semicolon
      · subst separates
        have small' : ts.length + 1 ≤ size := small
        obtain ⟨stops, shorter, steps, few, runs⟩ := ih (by omega) (by omega) taken
        refine ⟨stops, Nat.le_succ_of_le shorter, steps + 1, Nat.succ_le_succ few, ?_⟩
        intro left enough
        obtain ⟨left, rfl⟩ : ∃ n, left = n + 1 := ⟨left - 1, by omega⟩
        rw [Nat.add_sub_add_right]
        exact runs left (by omega)
      by_cases closes : ∃ closer ∈ closers, word = .keyword closer
      · obtain ⟨closer, listed, rfl⟩ := closes
        rw [sequence_of_stops listed] at taken
        cases taken
        exact ⟨.inr ⟨closer, line, column, ts, rfl, listed⟩, runsThrough_nothing⟩
      · have unlisted : ∀ closer ∈ closers, word ≠ .keyword closer :=
          fun closer listed same => closes ⟨closer, listed, same⟩
        rw [sequence_of_other separates unlisted] at taken
        obtain ⟨⟨first, after⟩, firstTaken, next⟩ := bind_eq_ok.1 taken
        obtain ⟨⟨later, after'⟩, laterTaken, same⟩ := bind_eq_ok.1 next
        cases same
        obtain ⟨shorter, carried⟩ := statements small firstTaken
        have shorter' : after.length < ts.length + 1 := shorter
        obtain ⟨stops, runs⟩ := ih (by omega) (by omega) laterTaken
        exact ⟨stops, runs.cons (fun _ => sequence_of_other separates unlisted) shorter carried⟩

/-- A block is carried up to the word that closes it. -/
theorem carries_block {statement statement' : Reader Stmt}
    (statements : Carries size k more (Stmt.moved k) statement statement')
    {closers : List Keyword} {bound bound' : Nat} (enough : size ≤ bound) (enough' : size ≤ bound')
    {ts rest : List Token} {ss : List Stmt} (small : ts.length ≤ size)
    (taken : block statement bound closers ts = .ok (ss, rest)) :
    rest.length ≤ ts.length ∧ block statement' bound' closers (onto k more ts) =
      .ok (Stmt.allMoved k ss, onto k more rest) := by
  obtain ⟨⟨found, after⟩, foundTaken, next⟩ := bind_eq_ok.1 taken
  cases after with
  | nil => exact absurd next refuse_ne_ok
  | cons t after =>
    cases next
    obtain ⟨stops, shorter, steps, few, runs⟩ :=
      carries_sequence statements small (by omega) foundTaken
    refine ⟨shorter, ?_⟩
    rcases stops with same | ⟨closer, line, column, after', same, listed⟩
    · cases same
    · cases same
      have opened : onto k more (⟨.keyword closer, line, column⟩ :: after) =
        ⟨.keyword closer, line + k, column⟩ :: onto k more after := rfl
      have stopped := runs bound' (by omega)
      rw [opened, sequence_of_stops listed, precede, Except.map, List.append_nil] at stopped
      exact bind_eq_ok.2 ⟨_, stopped, rfl⟩

/-! ## Statements -/

/-- A branch is carried with its condition, its statements and its line. -/
theorem carries_branch {statement statement' : Reader Stmt} {condition condition' : Reader Expr}
    (statements : Carries size k more (Stmt.moved k) statement statement')
    (conditions : Carries size k more (Expr.moved k) condition condition')
    {bound bound' : Nat} (enough : size ≤ bound) (enough' : size ≤ bound') (line : Nat) :
    Carries size k more (Branch.moved k) (branch statement condition bound line)
      (branch statement' condition' bound' (line + k)) := by
  intro ts found rest small taken
  obtain ⟨⟨test, afterTest⟩, testTaken, next⟩ := bind_eq_ok.1 taken
  obtain ⟨afterDo, doTaken, next'⟩ := bind_eq_ok.1 next
  obtain ⟨⟨body, after⟩, bodyTaken, same⟩ := bind_eq_ok.1 next'
  cases same
  obtain ⟨shorter, testCarried⟩ := conditions small testTaken
  obtain ⟨shorter', doCarried⟩ := carries_expect k more doTaken
  have fewer : afterDo.length < afterTest.length := shorter'
  obtain ⟨shorter'', bodyCarried⟩ := carries_block statements enough enough' (by omega) bodyTaken
  refine ⟨by omega, bind_eq_ok.2 ⟨_, testCarried, bind_eq_ok.2 ⟨_, doCarried, ?_⟩⟩⟩
  exact bind_eq_ok.2 ⟨_, bodyCarried, rfl⟩

theorem opensBranch_of_onto {ts : List Token} (some : 0 < ts.length)
    (opens : OpensBranch (onto k more ts)) : OpensBranch ts := by
  obtain ⟨opener, opening, begins⟩ := opensBranch_iff.1 opens
  exact opensBranch_iff.2 ⟨opener, opening, beginsWith_of_onto some begins⟩

/-- Moves what follows the first branch of a choice. -/
def moveTail (k : Nat) (tail : List Branch × Option (List Stmt)) :
    List Branch × Option (List Stmt) :=
  (Branch.allMoved k tail.1, tail.2.map (Stmt.allMoved k))

/-- The last alternative of a choice, after its `otherwise`. -/
theorem carries_otherwise {statement statement' : Reader Stmt}
    (statements : Carries size k more (Stmt.moved k) statement statement')
    {bound bound' : Nat} (enough : size ≤ bound) (enough' : size ≤ bound') {ts rest : List Token}
    {found : List Branch × Option (List Stmt)} (small : ts.length ≤ size)
    (taken : (do
      let (last, rest) ← block statement bound [.endWord] ts
      let rest ← expect (.keyword .endWord) rest
      return (([], some last), rest)) = .ok (found, rest)) :
    rest.length < ts.length ∧ (do
      let (last, rest) ← block statement' bound' [.endWord] (onto k more ts)
      let rest ← expect (.keyword .endWord) rest
      return (([], some last), rest)) = .ok (moveTail k found, onto k more rest) := by
  obtain ⟨⟨body, afterBody⟩, bodyTaken, next⟩ := bind_eq_ok.1 taken
  obtain ⟨after, endTaken, same⟩ := bind_eq_ok.1 next
  cases same
  obtain ⟨shorter, bodyCarried⟩ := carries_block statements enough enough' small bodyTaken
  obtain ⟨shorter', endCarried⟩ := carries_expect k more endTaken
  exact ⟨by omega, bind_eq_ok.2 ⟨_, bodyCarried, bind_eq_ok.2 ⟨_, endCarried, rfl⟩⟩⟩

/-- The rest of a choice is carried, branch by branch. -/
theorem carries_branchesAfter {statement statement' : Reader Stmt}
    {condition condition' : Reader Expr}
    (statements : Carries size k more (Stmt.moved k) statement statement')
    (conditions : Carries size k more (Expr.moved k) condition condition')
    {bound bound' : Nat} (enough : size ≤ bound) (enough' : size ≤ bound') {left : Nat}
    (left' : Nat) {ts rest : List Token} {found : List Branch × Option (List Stmt)}
    (small : ts.length ≤ size) (few : ts.length ≤ left')
    (taken : branchesAfter statement condition bound left ts = .ok (found, rest)) :
    rest.length < ts.length ∧
      branchesAfter statement' condition' bound' left' (onto k more ts) =
        .ok (moveTail k found, onto k more rest) := by
  fun_induction branchesAfter statement condition bound left ts generalizing left' found with
  | case1 left l c opener line column ts opens ih =>
    simp only [List.length_cons] at small few ⊢
    obtain ⟨left', rfl⟩ : ∃ n, left' = n + 1 := ⟨left' - 1, by omega⟩
    obtain ⟨⟨first, afterFirst⟩, firstTaken, next⟩ := bind_eq_ok.1 taken
    obtain ⟨⟨⟨later, last⟩, after⟩, laterTaken, same⟩ := bind_eq_ok.1 next
    cases same
    obtain ⟨shorter, firstCarried⟩ :=
      carries_branch statements conditions enough enough' line (by omega) firstTaken
    obtain ⟨shorter', laterCarried⟩ := ih _ left' (by omega) (by omega) laterTaken
    refine ⟨by omega, ?_⟩
    have opened : onto k more (⟨.keyword .otherwiseWord, l, c⟩ ::
        ⟨.keyword opener, line, column⟩ :: ts) = ⟨.keyword .otherwiseWord, l + k, c⟩ ::
        ⟨.keyword opener, line + k, column⟩ :: onto k more ts := rfl
    rw [opened, branchesAfter_branch opens]
    exact bind_eq_ok.2 ⟨_, firstCarried, bind_eq_ok.2 ⟨_, laterCarried, rfl⟩⟩
  | case2 left l c opener line column ts closed =>
    obtain ⟨left', rfl⟩ : ∃ n, left' = n + 1 :=
      ⟨left' - 1, by simp only [List.length_cons] at few; omega⟩
    obtain ⟨shorter, carried⟩ :=
      carries_otherwise statements enough enough' (Nat.le_of_succ_le small) taken
    have separate : ¬ OpensBranch (onto k more (⟨.keyword opener, line, column⟩ :: ts)) := by
      intro opens
      have opened : OpensBranch (⟨.keyword opener, line, column⟩ :: ts) :=
        opensBranch_of_onto (Nat.succ_pos _) opens
      exact closed opened
    exact ⟨Nat.lt_succ_of_lt shorter, (branchesAfter_otherwise separate).trans carried⟩
  | case3 left l c ts other =>
    obtain ⟨left', rfl⟩ : ∃ n, left' = n + 1 :=
      ⟨left' - 1, by simp only [List.length_cons] at few; omega⟩
    obtain ⟨shorter, carried⟩ :=
      carries_otherwise statements enough enough' (Nat.le_of_succ_le small) taken
    -- The alternative is closed, so its first word is the one that was looked at.
    have separate : ¬ OpensBranch (onto k more ts) := by
      intro opens
      obtain ⟨opener, -, line, column, after, same⟩ :=
        opensBranch_iff.1 (opensBranch_of_onto (by omega) opens)
      exact other opener line column after same
    exact ⟨Nat.lt_succ_of_lt shorter, (branchesAfter_otherwise separate).trans carried⟩
  | case4 left ts _ _ =>
    obtain ⟨after, endTaken, same⟩ := bind_eq_ok.1 taken
    cases same
    obtain ⟨l, c, rfl⟩ := expect_eq_ok endTaken
    exact ⟨Nat.lt_succ_self _, branchesAfter_end⟩

/-- A statement that is made of what a reader finds, after a word that gives it the line. -/
theorem Carries.make {α : Type} {move : α → α} {reader reader' : Reader α}
    (carries : Carries size k more move reader reader') (make : Nat → α → Stmt) {line : Nat}
    (moved : ∀ a, (make line a).moved k = make (line + k) (move a)) {ts rest : List Token}
    {found : Stmt} (small : ts.length ≤ size)
    (taken : (do
      let made ← reader ts
      return (make line made.1, made.2)) = (.ok (found, rest) : Attempt (Stmt × List Token))) :
    rest.length < ts.length ∧ (do
      let made ← reader' (onto k more ts)
      return (make (line + k) made.1, made.2)) =
        (.ok (found.moved k, onto k more rest) : Attempt (Stmt × List Token)) := by
  obtain ⟨⟨made, after⟩, madeTaken, same⟩ := bind_eq_ok.1 taken
  cases same
  obtain ⟨shorter, carried⟩ := carries small madeTaken
  refine ⟨shorter, bind_eq_ok.2 ⟨_, carried, ?_⟩⟩
  rw [moved]
  rfl

/-- A name and the value it is given are carried. -/
theorem carries_assignment {value value' : Reader Expr}
    (values : Carries size k more (Expr.moved k) value value') :
    Carries size k more (fun found => (found.1, found.2.moved k)) (assignment value)
      (assignment value') := by
  intro ts found rest small taken
  obtain ⟨⟨name, afterName⟩, nameTaken, next⟩ := bind_eq_ok.1 taken
  obtain ⟨afterAssign, assignTaken, next'⟩ := bind_eq_ok.1 next
  obtain ⟨⟨e, after⟩, valueTaken, same⟩ := bind_eq_ok.1 next'
  cases same
  obtain ⟨shorter, nameCarried⟩ := carries_expectName (k := k) small nameTaken
  obtain ⟨shorter', assignCarried⟩ := carries_expect k more assignTaken
  have fewer : afterAssign.length < afterName.length := shorter'
  obtain ⟨shorter'', valueCarried⟩ := values (by omega) valueTaken
  refine ⟨by omega, bind_eq_ok.2 ⟨_, nameCarried, bind_eq_ok.2 ⟨_, assignCarried, ?_⟩⟩⟩
  exact bind_eq_ok.2 ⟨_, valueCarried, rfl⟩

/-- The inside of a loop: `do`, statements, `end`. -/
theorem carries_enclosed {statement statement' : Reader Stmt}
    (statements : Carries size k more (Stmt.moved k) statement statement')
    {bound bound' : Nat} (enough : size ≤ bound) (enough' : size ≤ bound') {ts rest : List Token}
    (make make' : List Stmt → Stmt)
    (moved : ∀ ss, (make ss).moved k = make' (Stmt.allMoved k ss)) {found : Stmt}
    (small : ts.length ≤ size)
    (taken : (do
      let rest ← expect (.keyword .doWord) ts
      let (body, rest) ← block statement bound [.endWord] rest
      let rest ← expect (.keyword .endWord) rest
      return (make body, rest)) = (.ok (found, rest) : Attempt (Stmt × List Token))) :
    rest.length < ts.length ∧ (do
      let rest ← expect (.keyword .doWord) (onto k more ts)
      let (body, rest) ← block statement' bound' [.endWord] rest
      let rest ← expect (.keyword .endWord) rest
      return (make' body, rest)) =
        (.ok (found.moved k, onto k more rest) : Attempt (Stmt × List Token)) := by
  obtain ⟨afterDo, doTaken, next⟩ := bind_eq_ok.1 taken
  obtain ⟨⟨ss, afterBody⟩, bodyTaken, next'⟩ := bind_eq_ok.1 next
  obtain ⟨after, endTaken, same⟩ := bind_eq_ok.1 next'
  cases same
  obtain ⟨shorter, doCarried⟩ := carries_expect k more doTaken
  obtain ⟨shorter', bodyCarried⟩ := carries_block statements enough enough' (by omega) bodyTaken
  obtain ⟨shorter'', endCarried⟩ := carries_expect k more endTaken
  have fewer : rest.length < afterBody.length := shorter''
  refine ⟨by omega, bind_eq_ok.2 ⟨_, doCarried, bind_eq_ok.2 ⟨_, bodyCarried, ?_⟩⟩⟩
  rw [moved]
  exact bind_eq_ok.2 ⟨_, endCarried, rfl⟩

/-- A choice, after the word that opens its first branch. -/
theorem carries_choice {statement statement' : Reader Stmt} {condition condition' : Reader Expr}
    (statements : Carries size k more (Stmt.moved k) statement statement')
    (conditions : Carries size k more (Expr.moved k) condition condition')
    {bound bound' : Nat} (enough : size ≤ bound) (enough' : size ≤ bound') {line : Nat}
    {ts rest : List Token} {found : Stmt} (small : ts.length ≤ size)
    (taken : (do
      let (first, rest) ← branch statement condition bound line ts
      let ((more, last), rest) ← branchesAfter statement condition bound bound rest
      return (.choose (first :: more) last line, rest)) =
        (.ok (found, rest) : Attempt (Stmt × List Token))) :
    rest.length < ts.length ∧ (do
      let (first, rest) ← branch statement' condition' bound' (line + k) (onto k more ts)
      let ((more, last), rest) ← branchesAfter statement' condition' bound' bound' rest
      return (.choose (first :: more) last (line + k), rest)) =
        (.ok (found.moved k, onto k more rest) : Attempt (Stmt × List Token)) := by
  obtain ⟨⟨first, afterFirst⟩, firstTaken, next⟩ := bind_eq_ok.1 taken
  obtain ⟨⟨⟨others, last⟩, after⟩, othersTaken, same⟩ := bind_eq_ok.1 next
  cases same
  obtain ⟨shorter, firstCarried⟩ :=
    carries_branch statements conditions enough enough' line small firstTaken
  obtain ⟨shorter', othersCarried⟩ := carries_branchesAfter statements conditions enough enough'
    bound' (by omega) (by omega) othersTaken
  have fewer : rest.length < afterFirst.length := shorter'
  rw [Stmt.moved_choose]
  exact ⟨by omega, bind_eq_ok.2 ⟨_, firstCarried, bind_eq_ok.2 ⟨_, othersCarried, rfl⟩⟩⟩

/-- A statement that is read off the front of a piece of the tokens is read off the front of the
piece further down, with all its lines moved.  The cases are the words it begins with. -/
theorem carries_statement (ends : Ends .disjunction more) {bound bound' : Nat}
    (enough : size ≤ bound) (enough' : size ≤ bound') (room : Nat) :
    Carries size k more (Stmt.moved k) (statement bound room) (statement bound' room) := by
  induction room with
  | zero => exact fun _ taken => absurd taken refuse_ne_ok
  | succ room ih =>
    intro ts found rest small taken
    have values : Carries size k more (Expr.moved k) (expression bound room .disjunction)
        (expression bound' room .disjunction) :=
      carries_expression ends enough enough' room .disjunction
    have assignments : Carries size k more (fun found => (found.1, found.2.moved k))
        (assignment (expression bound room .disjunction))
        (assignment (expression bound' room .disjunction)) := carries_assignment values
    rw [statement.eq_def] at taken
    dsimp only at taken
    split at taken
    · obtain ⟨shorter, carried⟩ := assignments.make
        (fun line found => .declare found.1 found.2 false line) (fun _ => rfl)
        (Nat.le_of_succ_le small) taken
      exact ⟨Nat.lt_succ_of_lt shorter, carried⟩
    · obtain ⟨shorter, carried⟩ := assignments.make
        (fun line found => .declare found.1 found.2 true line) (fun _ => rfl)
        (Nat.le_of_succ_le small) taken
      exact ⟨Nat.lt_succ_of_lt shorter, carried⟩
    · obtain ⟨shorter, carried⟩ := assignments.make
        (fun line found => .assign found.1 found.2 line) (fun _ => rfl)
        (Nat.le_of_succ_le small) taken
      exact ⟨Nat.lt_succ_of_lt shorter, carried⟩
    · exact assignments.make (fun line found => .assign found.1 found.2 line) (fun _ => rfl) small
        taken
    · obtain ⟨shorter, carried⟩ := values.make (fun line found => .say found line) (fun _ => rfl)
        (Nat.le_of_succ_le small) taken
      exact ⟨Nat.lt_succ_of_lt shorter, carried⟩
    · obtain ⟨shorter, carried⟩ := values.make (fun line found => .display found line)
        (fun _ => rfl) (Nat.le_of_succ_le small) taken
      exact ⟨Nat.lt_succ_of_lt shorter, carried⟩
    · have names : Carries size k more id expectName expectName := carries_expectName
      obtain ⟨shorter, carried⟩ := names.make (fun line found => .ask found line) (fun _ => rfl)
        (Nat.le_of_succ_le small) taken
      exact ⟨Nat.lt_succ_of_lt shorter, carried⟩
    · obtain ⟨shorter, carried⟩ :=
        carries_choice ih values enough enough' (Nat.le_of_succ_le small) taken
      exact ⟨Nat.lt_succ_of_lt shorter, carried⟩
    · obtain ⟨shorter, carried⟩ :=
        carries_choice ih values enough enough' (Nat.le_of_succ_le small) taken
      exact ⟨Nat.lt_succ_of_lt shorter, carried⟩
    · next line column us =>
      have small' : us.length + 1 ≤ size := small
      obtain ⟨⟨⟨name, first⟩, afterFirst⟩, assigned, next⟩ := bind_eq_ok.1 taken
      obtain ⟨afterTo, toTaken, next'⟩ := bind_eq_ok.1 next
      obtain ⟨⟨last, afterLast⟩, lastTaken, enclosed⟩ := bind_eq_ok.1 next'
      dsimp only at toTaken enclosed
      obtain ⟨shorter₁, firstCarried⟩ := assignments (by omega) assigned
      obtain ⟨shorter₂, toCarried⟩ := carries_expect k more toTaken
      obtain ⟨shorter₃, lastCarried⟩ := values (by omega) lastTaken
      obtain ⟨shorter₄, carried⟩ := carries_enclosed ih enough enough'
        (.range name first last · line)
        (.range name (first.moved k) (last.moved k) · (line + k)) (fun _ => rfl) (by omega)
        enclosed
      refine ⟨by simp only [List.length_cons]; omega, ?_⟩
      refine bind_eq_ok.2 ⟨_, firstCarried, bind_eq_ok.2 ⟨_, toCarried, ?_⟩⟩
      exact bind_eq_ok.2 ⟨_, lastCarried, carried⟩
    · next line column us =>
      have small' : us.length + 1 ≤ size := small
      obtain ⟨afterOpen, openTaken, next⟩ := bind_eq_ok.1 taken
      obtain ⟨⟨e, afterTest⟩, testTaken, next'⟩ := bind_eq_ok.1 next
      obtain ⟨afterClose, closeTaken, enclosed⟩ := bind_eq_ok.1 next'
      dsimp only at closeTaken
      obtain ⟨shorter₁, openCarried⟩ := carries_expect k more openTaken
      obtain ⟨shorter₂, testCarried⟩ := values (by omega) testTaken
      obtain ⟨shorter₃, closeCarried⟩ := carries_expect k more closeTaken
      obtain ⟨shorter₄, carried⟩ := carries_enclosed ih enough enough' (.whilst e · line)
        (.whilst (e.moved k) · (line + k)) (fun _ => rfl) (by omega) enclosed
      refine ⟨by simp only [List.length_cons]; omega, ?_⟩
      refine bind_eq_ok.2 ⟨_, openCarried, bind_eq_ok.2 ⟨_, testCarried, ?_⟩⟩
      exact bind_eq_ok.2 ⟨_, closeCarried, carried⟩
    · cases taken
      exact ⟨Nat.lt_succ_self _, rfl⟩
    · cases taken
      exact ⟨Nat.lt_succ_self _, rfl⟩
    · exact absurd taken refuse_ne_ok

end Carries

/-! ## Programs -/

/-- The tokens of a program do not go on with an expression. -/
theorem ends_of_program {room : Nat} {ts : List Token} {p : Program}
    (accepted : program room ts = .ok p) : Ends .disjunction ts := by
  have nothing : Ends .disjunction [] := fun t next => absurd next (by simp)
  have ends := ends_body (derivedFrom_of_program accepted) nothing
  rwa [List.append_nil] at ends

/-- Moving tokens to other lines does not change what ends before them. -/
theorem ends_moved {k : Nat} {ts : List Token} (ends : Ends .disjunction ts) :
    Ends .disjunction (ts.map (Token.moved k)) := by
  cases ts with
  | nil => exact ends
  | cons t ts =>
    intro u next
    cases next
    exact ends t rfl

/-- The tokens of two programs, those of the second further down, are the tokens of one program. -/
theorem program_append {room : Nat} {ts us : List Token} {p q : Program}
    (first : program room ts = .ok p) (second : program room us = .ok q) (k : Nat) :
    program room (ts ++ us.map (Token.moved k)) = .ok ⟨p.body ++ (q.moved k).body⟩ := by
  let size := (ts ++ us.map (Token.moved k)).length
  have total : size = ts.length + us.length := by simp [size]
  have nothing : Ends .disjunction [] := fun t next => absurd next (by simp)
  have upper : Carries ts.length 0 (us.map (Token.moved k)) (Stmt.moved 0)
      (statement ts.length room) (statement size room) :=
    carries_statement (ends_moved (ends_of_program second)) (Nat.le_refl _) (by omega) room
  have lower : Carries us.length k [] (Stmt.moved k) (statement us.length room)
      (statement size room) :=
    carries_statement nothing (Nat.le_refl _) (by omega) room
  obtain ⟨-, -, steps, few, runs⟩ := carries_sequence upper (Nat.le_refl _) (Nat.le_refl _)
    (sequence_of_program first)
  obtain ⟨-, -, steps', few', runs'⟩ := carries_sequence lower (Nat.le_refl _) (Nat.le_refl _)
    (sequence_of_program second)
  have above : onto 0 (us.map (Token.moved k)) ts = ts ++ us.map (Token.moved k) :=
    congrArg (· ++ _) (List.map_id ts)
  have between : onto 0 (us.map (Token.moved k)) [] = onto k [] us := by
    simp [onto]
  have whole := runs size (by omega)
  have below := runs' (size - steps) (by omega)
  have done : onto k [] [] = [] := rfl
  rw [done, sequence_of_nil, precede, Except.map] at below
  rw [above, between, below, Stmt.allMoved_zero, precede, Except.map, List.append_nil] at whole
  exact bind_eq_ok.2 ⟨_, whole, rfl⟩

/-- Sources under one another are read as one program: the statements of the first, and those of the
second moved down. -/
theorem parseWithin_joined {room : Nat} {upper lower : String} {p q : Program}
    (first : parseWithin room upper = .ok p) (second : parseWithin room lower = .ok q) :
    parseWithin room (upper ++ "\n" ++ lower) =
      .ok ⟨p.body ++ (q.moved (upper.toList.count '\n' + 1)).body⟩ := by
  obtain ⟨scan, scanned, accepted⟩ := parseWithin_eq_ok_iff.1 first
  obtain ⟨scan', scanned', accepted'⟩ := parseWithin_eq_ok_iff.1 second
  exact parseWithin_eq_ok_iff.2 ⟨_, Scan.ofSource_joined scanned scanned',
    program_append accepted accepted' _⟩

end Parlance.Descent
