import Parlance.Proofs.DescentReaders

/-!
# What the descent parser accepts is derived

Every reader of the descent parser takes a phrase off the front of the tokens: if it succeeds, then
what it has taken is a phrase of the grammar and the tree it gives is the tree of that phrase.  The
readers are built from one another, so the statement `Takes` is about a reader, and each lemma goes
from the readers inside to the one around them.
-/

namespace Parlance.Descent

/-- What a reader takes off the front is a phrase with the tree it gives. -/
def Takes {α : Type} (reader : Reader α) (phrase : α → Phrase) : Prop :=
  ∀ {ts : List Token} {found : α} {rest : List Token}, reader ts = .ok (found, rest) →
    ∃ used, ts = used ++ rest ∧ Derives used (phrase found)

/-! ## Expressions -/

/-- The operators and operands that a chain takes make a phrase of its level, joined from the left
with what was before. -/
theorem takes_chainAfter {operand : Reader Expr} {level : Level}
    (operands : Takes operand (.expr level.tighter)) {bound : Nat} {left e : Expr}
    {before ts rest : List Token} (leftDerived : Derives before (.expr level left))
    (taken : chainAfter operand level bound left ts = .ok (e, rest)) :
    ∃ used, ts = used ++ rest ∧ Derives (before ++ used) (.expr level e) := by
  induction bound generalizing left before ts with
  | zero =>
    cases taken
    exact ⟨[], rfl, by simpa using leftDerived⟩
  | succ bound ih =>
    cases ts with
    | nil =>
      cases taken
      exact ⟨[], rfl, by simpa using leftDerived⟩
    | cons t ts =>
      rw [chainAfter] at taken
      split at taken
      · next op found =>
        obtain ⟨own, spelled⟩ := Level.operator?_eq_some_iff.1 found
        obtain ⟨⟨right, afterRight⟩, rightTaken, more⟩ := bind_eq_ok.1 taken
        obtain ⟨usedRight, rfl, rightDerived⟩ := operands rightTaken
        have joined : Derives (before ++ ⟨op.word, t.line, t.column⟩ :: usedRight)
            (.expr level (Expr.join op left right)) := .binary own leftDerived rightDerived
        rw [spelled] at joined
        obtain ⟨used, rfl, derived⟩ := ih joined more
        exact ⟨t :: usedRight ++ used, by simp, by simpa using derived⟩
      · cases taken
        exact ⟨[], rfl, by simpa using leftDerived⟩

/-- A level of operators takes phrases of its level if its operands are phrases of the tighter
one. -/
theorem takes_chain {operand : Reader Expr} {level : Level} (loose : level ≠ .atom)
    (operands : Takes operand (.expr level.tighter)) (bound : Nat) :
    Takes (chain operand level bound) (.expr level) := by
  intro ts e rest taken
  obtain ⟨⟨first, afterFirst⟩, firstTaken, more⟩ := bind_eq_ok.1 taken
  obtain ⟨usedFirst, rfl, firstDerived⟩ := operands firstTaken
  obtain ⟨used, rfl, derived⟩ := takes_chainAfter operands (.tighter loose firstDerived) more
  exact ⟨usedFirst ++ used, by simp, derived⟩

/-- The arguments after the first go up to the closing parenthesis. -/
theorem takes_argumentsAfter {operand : Reader Expr}
    (operands : Takes operand (.expr .disjunction)) {bound : Nat} {arg : Expr} {args : List Expr}
    {before ts rest : List Token} (argDerived : Derives before (.expr .disjunction arg))
    (taken : argumentsAfter operand bound ts = .ok (args, rest)) :
    ∃ used line column, ts = used ++ ⟨.symbol .closeParen, line, column⟩ :: rest ∧
      Derives (before ++ used) (.args (arg :: args)) := by
  fun_induction argumentsAfter operand bound ts generalizing arg args before with
  | case1 bound line column ts ih =>
    obtain ⟨⟨next, afterNext⟩, nextTaken, more⟩ := bind_eq_ok.1 taken
    obtain ⟨usedNext, rfl, nextDerived⟩ := operands nextTaken
    obtain ⟨⟨others, afterOthers⟩, othersTaken, same⟩ := bind_eq_ok.1 more
    cases same
    obtain ⟨used, l, c, rfl, derived⟩ := ih _ nextDerived othersTaken
    exact ⟨⟨.symbol .comma, line, column⟩ :: (usedNext ++ used), l, c, by simp,
      .moreArgs argDerived derived⟩
  | case2 bound ts _ =>
    obtain ⟨after, closed, same⟩ := bind_eq_ok.1 taken
    cases same
    obtain ⟨line, column, rfl⟩ := expect_eq_ok closed
    exact ⟨[], line, column, rfl, by simpa using .lastArg argDerived⟩

/-- What is taken as an atom is one, by the word it begins with. -/
theorem takes_atom {expression : Reader Expr}
    (inner : Takes expression (.expr .disjunction)) (bound : Nat) :
    Takes (atom expression bound) (.expr .atom) := by
  intro ts e rest taken
  unfold atom at taken
  split at taken
  · cases taken
    exact ⟨[_], rfl, .number⟩
  · cases taken
    exact ⟨[_], rfl, .text⟩
  · cases taken
    exact ⟨[_], rfl, .trueWord⟩
  · cases taken
    exact ⟨[_], rfl, .falseWord⟩
  · next s line column l c us =>
    obtain ⟨⟨args, afterArgs⟩, argsTaken, same⟩ := bind_eq_ok.1 taken
    cases same
    unfold arguments at argsTaken
    split at argsTaken
    · cases argsTaken
      exact ⟨[_, _, _], rfl, .callNone⟩
    · obtain ⟨⟨arg, afterArg⟩, argTaken, more⟩ := bind_eq_ok.1 argsTaken
      obtain ⟨usedArg, rfl, argDerived⟩ := inner argTaken
      obtain ⟨⟨others, afterOthers⟩, othersTaken, same⟩ := bind_eq_ok.1 more
      cases same
      obtain ⟨used, l', c', rfl, derived⟩ := takes_argumentsAfter inner argDerived othersTaken
      exact ⟨⟨.name s, line, column⟩ :: ⟨.symbol .openParen, l, c⟩ :: (usedArg ++ used) ++
        [⟨.symbol .closeParen, l', c'⟩], by simp, .call derived⟩
  · cases taken
    exact ⟨[_], rfl, .name⟩
  · next l c us =>
    obtain ⟨⟨inside, afterInside⟩, insideTaken, more⟩ := bind_eq_ok.1 taken
    obtain ⟨used, rfl, derived⟩ := inner insideTaken
    obtain ⟨after, closed, same⟩ := bind_eq_ok.1 more
    cases same
    obtain ⟨l', c', rfl⟩ := expect_eq_ok closed
    exact ⟨⟨.symbol .openParen, l, c⟩ :: used ++ [⟨.symbol .closeParen, l', c'⟩], by simp,
      .group derived⟩
  · exact absurd taken refuse_ne_ok

/-- What is taken at a level is a phrase of that level. -/
theorem takes_expression (bound room : Nat) (level : Level) :
    Takes (expression bound room level) (.expr level) := by
  induction room generalizing level with
  | zero => exact fun taken => absurd taken refuse_ne_ok
  | succ room ih =>
    intro ts e rest taken
    cases level with
    | disjunction => exact takes_chain (by decide) (ih _) bound taken
    | conjunction => exact takes_chain (by decide) (ih _) bound taken
    | equality => exact takes_chain (by decide) (ih _) bound taken
    | comparison => exact takes_chain (by decide) (ih _) bound taken
    | sum => exact takes_chain (by decide) (ih _) bound taken
    | product => exact takes_chain (by decide) (ih _) bound taken
    | atom => exact takes_atom (ih _) bound taken
    | negation =>
      by_cases negated : BeginsWith (.keyword .notWord) ts
      · obtain ⟨line, column, after, rfl⟩ := negated
        obtain ⟨⟨operand, afterOperand⟩, operandTaken, same⟩ := bind_eq_ok.1 taken
        cases same
        obtain ⟨used, rfl, derived⟩ := ih _ operandTaken
        exact ⟨_ :: used, rfl, .not derived⟩
      · rw [expression_negation negated] at taken
        obtain ⟨used, rfl, derived⟩ := ih _ taken
        exact ⟨used, rfl, .tighter (by decide) derived⟩
    | sign =>
      by_cases negative : BeginsWith (.symbol .minus) ts
      · obtain ⟨line, column, after, rfl⟩ := negative
        obtain ⟨⟨operand, afterOperand⟩, operandTaken, same⟩ := bind_eq_ok.1 taken
        cases same
        obtain ⟨used, rfl, derived⟩ := ih _ operandTaken
        exact ⟨_ :: used, rfl, .negate derived⟩
      · rw [expression_sign negative] at taken
        obtain ⟨used, rfl, derived⟩ := ih _ taken
        exact ⟨used, rfl, .tighter (by decide) derived⟩

/-! ## Statements -/

/-- A sequence takes the statements of a body. -/
theorem takes_sequence {statement : Reader Stmt} (statements : Takes statement .stmt)
    (closers : List Keyword) (bound : Nat) : Takes (sequence statement closers bound) .body := by
  induction bound with
  | zero =>
    intro ts ss rest taken
    cases taken
    exact ⟨[], rfl, .nothing⟩
  | succ bound ih =>
    intro ts ss rest taken
    cases ts with
    | nil =>
      cases taken
      exact ⟨[], rfl, .nothing⟩
    | cons t ts =>
      obtain ⟨word, line, column⟩ := t
      by_cases separates : word = .symbol .semicolon
      · subst separates
        obtain ⟨used, rfl, derived⟩ := ih taken
        exact ⟨_ :: used, rfl, .semicolon derived⟩
      by_cases closes : ∃ closer ∈ closers, word = .keyword closer
      · obtain ⟨closer, listed, rfl⟩ := closes
        rw [sequence_of_stops listed] at taken
        cases taken
        exact ⟨[], rfl, .nothing⟩
      · rw [sequence_of_other separates fun closer listed same => closes ⟨closer, listed, same⟩]
          at taken
        obtain ⟨⟨first, afterFirst⟩, firstTaken, next⟩ := bind_eq_ok.1 taken
        obtain ⟨usedFirst, firstSplit, firstDerived⟩ := statements firstTaken
        obtain ⟨⟨more, afterMore⟩, moreTaken, same⟩ := bind_eq_ok.1 next
        cases same
        obtain ⟨used, rfl, derived⟩ := ih moreTaken
        exact ⟨usedFirst ++ used, by simpa using firstSplit, .sequence firstDerived derived⟩

/-- A block ends before a token. -/
theorem takes_block {statement : Reader Stmt} (statements : Takes statement .stmt)
    (bound : Nat) (closers : List Keyword) : Takes (block statement bound closers) .body := by
  intro ts ss rest taken
  obtain ⟨⟨found, after⟩, foundTaken, next⟩ := bind_eq_ok.1 taken
  cases after with
  | nil => exact absurd next refuse_ne_ok
  | cons t after =>
    cases next
    exact takes_sequence statements closers bound foundTaken

/-- A branch takes its condition, `do` and its statements. -/
theorem takes_branch {statement : Reader Stmt} {condition : Reader Expr}
    (statements : Takes statement .stmt) (conditions : Takes condition (.expr .disjunction))
    {bound line : Nat} {ts rest : List Token} {found : Branch}
    (taken : branch statement condition bound line ts = .ok (found, rest)) :
    ∃ test inside e ss l c, found = .mk e ss line ∧
      ts = test ++ ⟨.keyword .doWord, l, c⟩ :: inside ++ rest ∧
      Derives test (.expr .disjunction e) ∧ Derives inside (.body ss) := by
  obtain ⟨⟨e, afterTest⟩, testTaken, next⟩ := bind_eq_ok.1 taken
  obtain ⟨test, rfl, testDerived⟩ := conditions testTaken
  obtain ⟨afterDo, doTaken, more⟩ := bind_eq_ok.1 next
  obtain ⟨l, c, rfl⟩ := expect_eq_ok doTaken
  obtain ⟨⟨ss, after⟩, insideTaken, same⟩ := bind_eq_ok.1 more
  cases same
  obtain ⟨inside, rfl, insideDerived⟩ := takes_block statements _ _ insideTaken
  exact ⟨test, inside, e, ss, l, c, rfl, by simp, testDerived, insideDerived⟩

/-- A branch that opens is open whatever comes behind it. -/
theorem opensBranch_append {ts : List Token} (opens : OpensBranch ts) (us : List Token) :
    OpensBranch (ts ++ us) := by
  cases ts with
  | nil => exact opens.elim
  | cons t ts =>
    obtain ⟨word, line, column⟩ := t
    cases word with
    | keyword k => exact opens
    | _ => exact opens.elim

/-- The last alternative of a choice, after its `otherwise`. -/
theorem takes_otherwise {statement : Reader Stmt} (statements : Takes statement .stmt)
    {bound line column : Nat} {ts rest : List Token}
    {found : List Branch × Option (List Stmt)} (separate : ¬ OpensBranch ts)
    (taken : (do
      let (last, rest) ← block statement bound [.endWord] ts
      let rest ← expect (.keyword .endWord) rest
      return (([], some last), rest)) = .ok (found, rest)) :
    ∃ used, ⟨.keyword .otherwiseWord, line, column⟩ :: ts = used ++ rest ∧
      Derives used (.tail found.1 found.2) := by
  obtain ⟨⟨ss, afterInside⟩, insideTaken, next⟩ := bind_eq_ok.1 taken
  obtain ⟨after, endTaken, same⟩ := bind_eq_ok.1 next
  cases same
  obtain ⟨l, c, rfl⟩ := expect_eq_ok endTaken
  obtain ⟨inside, rfl, derived⟩ := takes_block statements _ _ insideTaken
  have apart : ¬ OpensBranch inside := fun opens => separate (opensBranch_append opens _)
  exact ⟨⟨.keyword .otherwiseWord, line, column⟩ :: inside ++ [⟨.keyword .endWord, l, c⟩],
    by simp, .otherwise apart derived⟩

/-- The rest of a choice takes further branches, the last alternative if there is one, and `end`. -/
theorem takes_branchesAfter {statement : Reader Stmt} {condition : Reader Expr}
    (statements : Takes statement .stmt) (conditions : Takes condition (.expr .disjunction))
    (bound left : Nat) :
    Takes (branchesAfter statement condition bound left) (fun found => .tail found.1 found.2) := by
  intro ts found rest taken
  fun_induction branchesAfter statement condition bound left ts generalizing found with
  | case1 left l c k line column ts opens ih =>
    obtain ⟨⟨first, afterFirst⟩, firstTaken, next⟩ := bind_eq_ok.1 taken
    obtain ⟨test, inside, e, ss, l', c', rfl, rfl, testDerived, insideDerived⟩ :=
      takes_branch statements conditions firstTaken
    obtain ⟨⟨⟨more, last⟩, afterMore⟩, moreTaken, same⟩ := bind_eq_ok.1 next
    cases same
    obtain ⟨used, rfl, derived⟩ := ih _ moreTaken
    exact ⟨⟨.keyword .otherwiseWord, l, c⟩ :: ⟨.keyword k, line, column⟩ :: test ++
      ⟨.keyword .doWord, l', c'⟩ :: inside ++ used, by simp,
      .branch opens testDerived insideDerived derived⟩
  | case2 left l c k line column ts closed =>
    exact takes_otherwise statements closed taken
  | case3 left l c ts other =>
    refine takes_otherwise statements (fun opens => ?_) taken
    unfold OpensBranch at opens
    split at opens
    · next k line column us => exact other k line column us rfl
    · exact opens
  | case4 left ts _ _ =>
    obtain ⟨after, endTaken, same⟩ := bind_eq_ok.1 taken
    cases same
    obtain ⟨l, c, rfl⟩ := expect_eq_ok endTaken
    exact ⟨[⟨.keyword .endWord, l, c⟩], rfl, .close⟩

/-- An assignment takes a name, the sign and a value. -/
theorem assignment_eq_ok {value : Reader Expr} (values : Takes value (.expr .disjunction))
    {name : String} {e : Expr} {ts rest : List Token}
    (taken : assignment value ts = .ok ((name, e), rest)) :
    ∃ used l c l' c', ts = ⟨.name name, l, c⟩ :: ⟨.symbol .assign, l', c'⟩ :: used ++ rest ∧
      Derives used (.expr .disjunction e) := by
  obtain ⟨⟨found, afterName⟩, nameTaken, next⟩ := bind_eq_ok.1 taken
  obtain ⟨l, c, rfl⟩ := expectName_eq_ok nameTaken
  obtain ⟨afterAssign, assignTaken, more⟩ := bind_eq_ok.1 next
  obtain ⟨l', c', rfl⟩ := expect_eq_ok assignTaken
  obtain ⟨⟨value, after⟩, valueTaken, same⟩ := bind_eq_ok.1 more
  cases same
  obtain ⟨used, rfl, derived⟩ := values valueTaken
  exact ⟨used, l, c, l', c', rfl, derived⟩

/-- The inside of a loop: `do`, statements, `end`. -/
theorem takes_enclosed {statement : Reader Stmt} (statements : Takes statement .stmt) {bound : Nat}
    {ts rest : List Token} (make : List Stmt → Stmt) {found : Stmt}
    (taken : (do
      let rest ← expect (.keyword .doWord) ts
      let (body, rest) ← block statement bound [.endWord] rest
      let rest ← expect (.keyword .endWord) rest
      return (make body, rest)) = (.ok (found, rest) : Attempt (Stmt × List Token))) :
    ∃ inside ss l c l' c',
      ts = ⟨.keyword .doWord, l, c⟩ :: inside ++ ⟨.keyword .endWord, l', c'⟩ :: rest ∧
      Derives inside (.body ss) ∧ found = make ss := by
  obtain ⟨afterDo, doTaken, next⟩ := bind_eq_ok.1 taken
  obtain ⟨l, c, rfl⟩ := expect_eq_ok doTaken
  obtain ⟨⟨ss, afterInside⟩, insideTaken, more⟩ := bind_eq_ok.1 next
  obtain ⟨inside, rfl, derived⟩ := takes_block statements _ _ insideTaken
  obtain ⟨after, endTaken, same⟩ := bind_eq_ok.1 more
  cases same
  obtain ⟨l', c', rfl⟩ := expect_eq_ok endTaken
  exact ⟨inside, ss, l, c, l', c', by simp, derived, rfl⟩

/-- A choice, after the word that opens its first branch. -/
theorem takes_choice {statement : Reader Stmt} {condition : Reader Expr}
    (statements : Takes statement .stmt) (conditions : Takes condition (.expr .disjunction))
    {bound line column : Nat} {k : Keyword} {ts rest : List Token} {found : Stmt}
    (opens : k.opensBranch)
    (taken : (do
      let (first, rest) ← branch statement condition bound line ts
      let ((more, last), rest) ← branchesAfter statement condition bound bound rest
      return (.choose (first :: more) last line, rest)) =
        (.ok (found, rest) : Attempt (Stmt × List Token))) :
    ∃ used, ⟨.keyword k, line, column⟩ :: ts = used ++ rest ∧ Derives used (.stmt found) := by
  obtain ⟨⟨first, afterFirst⟩, firstTaken, next⟩ := bind_eq_ok.1 taken
  obtain ⟨test, inside, e, ss, l, c, rfl, rfl, testDerived, insideDerived⟩ :=
    takes_branch statements conditions firstTaken
  obtain ⟨⟨⟨more, last⟩, afterMore⟩, moreTaken, same⟩ := bind_eq_ok.1 next
  cases same
  obtain ⟨others, rfl, othersDerived⟩ := takes_branchesAfter statements conditions _ _ moreTaken
  exact ⟨⟨.keyword k, line, column⟩ :: test ++ ⟨.keyword .doWord, l, c⟩ :: inside ++ others,
    by simp, .choose opens testDerived insideDerived othersDerived⟩

/-- What is taken as a statement is one.  The cases are the words it begins with; each names the
tokens that were taken and the rule that they are a case of. -/
theorem takes_statement (bound room : Nat) : Takes (statement bound room) .stmt := by
  induction room with
  | zero => exact fun taken => absurd taken refuse_ne_ok
  | succ room ih =>
    intro ts found rest taken
    have values : Takes (expression bound room .disjunction) (.expr .disjunction) :=
      takes_expression bound room .disjunction
    rw [statement.eq_def] at taken
    dsimp only at taken
    split at taken
    · obtain ⟨⟨⟨name, e⟩, after⟩, assigned, same⟩ := bind_eq_ok.1 taken
      cases same
      obtain ⟨used, l, c, l', c', rfl, derived⟩ := assignment_eq_ok values assigned
      exact ⟨_ :: _ :: _ :: used, rfl, .set derived⟩
    · obtain ⟨⟨⟨name, e⟩, after⟩, assigned, same⟩ := bind_eq_ok.1 taken
      cases same
      obtain ⟨used, l, c, l', c', rfl, derived⟩ := assignment_eq_ok values assigned
      exact ⟨_ :: _ :: _ :: used, rfl, .keep derived⟩
    · obtain ⟨⟨⟨name, e⟩, after⟩, assigned, same⟩ := bind_eq_ok.1 taken
      cases same
      obtain ⟨used, l, c, l', c', rfl, derived⟩ := assignment_eq_ok values assigned
      exact ⟨_ :: _ :: _ :: used, rfl, .change derived⟩
    · obtain ⟨⟨⟨name, e⟩, after⟩, assigned, same⟩ := bind_eq_ok.1 taken
      cases same
      obtain ⟨used, l, c, l', c', eq, derived⟩ := assignment_eq_ok values assigned
      cases eq
      exact ⟨_ :: _ :: used, rfl, .assign derived⟩
    · obtain ⟨⟨e, after⟩, valueTaken, same⟩ := bind_eq_ok.1 taken
      cases same
      obtain ⟨used, rfl, derived⟩ := values valueTaken
      exact ⟨_ :: used, rfl, .say derived⟩
    · obtain ⟨⟨e, after⟩, valueTaken, same⟩ := bind_eq_ok.1 taken
      cases same
      obtain ⟨used, rfl, derived⟩ := values valueTaken
      exact ⟨_ :: used, rfl, .display derived⟩
    · obtain ⟨⟨name, after⟩, nameTaken, same⟩ := bind_eq_ok.1 taken
      cases same
      obtain ⟨l, c, rfl⟩ := expectName_eq_ok nameTaken
      exact ⟨[_, _], rfl, .ask⟩
    · exact takes_choice ih values (.inl rfl) taken
    · exact takes_choice ih values (.inr rfl) taken
    · next line column us =>
      obtain ⟨⟨⟨name, first⟩, afterFirst⟩, assigned, next⟩ := bind_eq_ok.1 taken
      obtain ⟨start, l₁, c₁, l₂, c₂, rfl, startDerived⟩ := assignment_eq_ok values assigned
      obtain ⟨afterTo, toTaken, next'⟩ := bind_eq_ok.1 next
      obtain ⟨l₃, c₃, rfl⟩ := expect_eq_ok toTaken
      obtain ⟨⟨last, afterLast⟩, lastTaken, enclosed⟩ := bind_eq_ok.1 next'
      obtain ⟨stop, rfl, stopDerived⟩ := values lastTaken
      obtain ⟨inside, ss, l₄, c₄, l₅, c₅, rfl, insideDerived, rfl⟩ :=
        takes_enclosed ih (.range name first last · line) enclosed
      exact ⟨⟨.keyword .loopWord, line, column⟩ :: ⟨.name name, l₁, c₁⟩ ::
        ⟨.symbol .assign, l₂, c₂⟩ :: start ++ ⟨.keyword .toWord, l₃, c₃⟩ :: stop ++
        ⟨.keyword .doWord, l₄, c₄⟩ :: inside ++ [⟨.keyword .endWord, l₅, c₅⟩], by simp,
        .range startDerived stopDerived insideDerived⟩
    · next line column us =>
      obtain ⟨afterOpen, openTaken, next⟩ := bind_eq_ok.1 taken
      obtain ⟨l₁, c₁, rfl⟩ := expect_eq_ok openTaken
      obtain ⟨⟨e, afterTest⟩, testTaken, next'⟩ := bind_eq_ok.1 next
      obtain ⟨test, rfl, testDerived⟩ := values testTaken
      obtain ⟨afterClose, closeTaken, enclosed⟩ := bind_eq_ok.1 next'
      obtain ⟨l₂, c₂, rfl⟩ := expect_eq_ok closeTaken
      obtain ⟨inside, ss, l₃, c₃, l₄, c₄, rfl, insideDerived, rfl⟩ :=
        takes_enclosed ih (.whilst e · line) enclosed
      exact ⟨⟨.keyword .repeatWord, line, column⟩ :: ⟨.symbol .openParen, l₁, c₁⟩ :: test ++
        ⟨.symbol .closeParen, l₂, c₂⟩ :: ⟨.keyword .doWord, l₃, c₃⟩ :: inside ++
        [⟨.keyword .endWord, l₄, c₄⟩], by simp, .whilst testDerived insideDerived⟩
    · cases taken
      exact ⟨[_], rfl, .leave⟩
    · cases taken
      exact ⟨[_], rfl, .next⟩
    · exact absurd taken refuse_ne_ok

/-- An accepted program is one sequence of statements that leaves no token. -/
theorem sequence_of_program {room : Nat} {ts : List Token} {p : Program}
    (accepted : program room ts = .ok p) :
    sequence (statement ts.length room) [] ts.length ts = .ok (p.body, []) := by
  obtain ⟨⟨body, rest⟩, taken, next⟩ := bind_eq_ok.1 accepted
  cases rest with
  | cons t rest => exact absurd next refuse_ne_ok
  | nil =>
    cases next
    exact taken

/-- Tokens that the descent parser accepts are a program of the grammar, with the tree it gives. -/
theorem derivedFrom_of_program {room : Nat} {ts : List Token} {p : Program}
    (accepted : program room ts = .ok p) : p.DerivedFrom ts := by
  obtain ⟨used, rfl, derived⟩ :=
    takes_sequence (takes_statement _ _) _ _ (sequence_of_program accepted)
  simpa [Program.DerivedFrom] using derived

/-- What is read from a source is the program of its tokens. -/
theorem parseWithin_eq_ok_iff {room : Nat} {source : String} {p : Program} :
    parseWithin room source = .ok p ↔
      ∃ scan, Scan.ofSource source = .ok scan ∧ program room scan.tokens = .ok p := by
  unfold parseWithin
  constructor
  · intro accepted
    split at accepted
    · cases accepted
    · next scan scanned =>
      split at accepted
      · next found =>
        cases accepted
        exact ⟨scan, scanned, found⟩
      · cases accepted
  · rintro ⟨scan, scanned, found⟩
    simp only [scanned, found]

end Parlance.Descent
