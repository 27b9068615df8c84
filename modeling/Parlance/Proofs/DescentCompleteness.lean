import Parlance.Proofs.DescentSoundness

/-!
# What is derived the descent parser accepts

The converse of soundness, up to the room for nesting.  A derivation says nothing of the tokens
after a phrase, but a reader looks at the next one, so the statements are about a phrase in front of
tokens that do not go on with it (`Ends`, `Stops`).

`Settles` has two cases: the reader gives the tree of the phrase, or the room runs out, and then it
was less than a multiple of the number of tokens.  The first case for enough room gives that a
token list has one tree at most; both together give completeness for any room.
-/

namespace Parlance.Descent

/-! ## Attempts with little room -/

/-- The attempt gives the result, or there is less room than needed and it runs out. -/
def Settles {α : Type} (room need : Nat) (attempt : Attempt α) (result : α) : Prop :=
  attempt = .ok result ∨ room < need ∧ ∃ found, attempt = .error ⟨found, .tooDeep⟩

section Settles

variable {α β : Type} {room need : Nat} {attempt : Attempt α} {found : α}

theorem Settles.bind {next : α → Attempt β} {result : β} (first : Settles room need attempt found)
    (second : Settles room need (next found) result) :
    Settles room need (attempt >>= next) result := by
  rcases first with rfl | ⟨little, stopped, rfl⟩
  · exact second
  · exact .inr ⟨little, stopped, rfl⟩

theorem Settles.mono {room' need' : Nat} (settles : Settles room need attempt found)
    (less : room < need → room' < need') : Settles room' need' attempt found := by
  rcases settles with done | ⟨little, stopped⟩
  · exact .inl done
  · exact .inr ⟨less little, stopped⟩

theorem settles_ok : Settles room need (.ok found) found :=
  .inl rfl

end Settles

/-! ## What does not go on with a phrase -/

/-- The tokens do not go on with an expression of the level: they begin with no operator of the
level or a tighter one, and with no opening parenthesis. -/
def Ends (level : Level) (rest : List Token) : Prop :=
  ∀ t ∈ rest.head?, t.word ≠ .symbol .openParen ∧
    ∀ op : BinaryOp, op.word = t.word → op.level.rank < level.rank

theorem Ends.of_rank_le {level other : Level} {rest : List Token} (ends : Ends level rest)
    (looser : level.rank ≤ other.rank) : Ends other rest := by
  intro t next
  obtain ⟨paren, operators⟩ := ends t next
  exact ⟨paren, fun op same => Nat.lt_of_lt_of_le (operators op same) looser⟩

/-- An operator ends the operands of its level. -/
theorem ends_operator {op : BinaryOp} {line column : Nat} {rest : List Token} :
    Ends op.level.tighter (⟨op.word, line, column⟩ :: rest) := by
  intro t next
  cases next
  refine ⟨by cases op <;> simp [BinaryOp.word], fun other same => ?_⟩
  have : other = op := by
    revert same
    cases op <;> cases other <;> simp [BinaryOp.word]
  subst this
  cases other <;> decide

/-- The words that go on with no expression. -/
def Word.endsExpression : Word → Bool
  | .symbol .comma | .symbol .closeParen | .symbol .semicolon => true
  | .keyword .doWord | .keyword .toWord | .keyword .endWord | .keyword .otherwiseWord => true
  | w => w.opensStatement

/-- A word that can only follow a whole expression ends every level. -/
theorem ends_of_endsExpression {level : Level} {t : Token} {rest : List Token}
    (closes : Word.endsExpression t.word = true) : Ends level (t :: rest) := by
  intro u next
  cases next
  refine ⟨?_, fun op same => ?_⟩
  · intro same
    rw [same] at closes
    cases closes
  · rw [← same] at closes
    cases op <;> cases closes

/-- A chain stops where its level has ended. -/
theorem chainAfter_of_ends {operand : Reader Expr} {level : Level} {bound : Nat} {e : Expr}
    {rest : List Token} (ends : Ends level rest) :
    chainAfter operand level bound e rest = .ok (e, rest) := by
  refine chainAfter_of_none fun t next => ?_
  cases found : level.operator? t.word with
  | none => rfl
  | some op =>
    obtain ⟨own, spelled⟩ := Level.operator?_eq_some_iff.1 found
    have := (ends t next).2 op spelled
    rw [own] at this
    exact absurd this (Nat.lt_irrefl _)

theorem Ends.not_beginsWith {level : Level} {ts : List Token} (ends : Ends level ts) :
    ¬ BeginsWith (.symbol .openParen) ts := by
  rintro ⟨line, column, rest, rfl⟩
  exact (ends _ rfl).1 rfl

/-- The tokens end a sequence of statements: there are none, or they begin with a closing word. -/
def Stops (closers : List Keyword) (rest : List Token) : Prop :=
  rest = [] ∨ ∃ k line column more, rest = ⟨.keyword k, line, column⟩ :: more ∧ k ∈ closers

/-- The words that can close a block. -/
def Closers (closers : List Keyword) : Prop :=
  ∀ k ∈ closers, k = .endWord ∨ k = .otherwiseWord

theorem Stops.ends {closers : List Keyword} {rest : List Token} (closing : Closers closers)
    (stops : Stops closers rest) : Ends .disjunction rest := by
  rcases stops with rfl | ⟨k, line, column, more, rfl, listed⟩
  · exact fun t next => absurd next (by simp)
  · rcases closing k listed with rfl | rfl
    · exact ends_of_endsExpression rfl
    · exact ends_of_endsExpression rfl

/-- Statements end before more statements and before the end of the block. -/
theorem ends_body {ts rest : List Token} {ss : List Stmt} (derived : Derives ts (.body ss))
    (ends : Ends .disjunction rest) : Ends .disjunction (ts ++ rest) := by
  rcases derived.opening with rfl | ⟨t, more, rfl, separator | opens⟩
  · exact ends
  · exact ends_of_endsExpression (by rw [separator]; rfl)
  · refine ends_of_endsExpression ?_
    unfold Word.endsExpression
    split <;> simp_all [Word.opensStatement]

/-! ## Expressions -/

/-- The room that suffices for an expression of the level with so many tokens. -/
def Level.need (level : Level) (tokens : Nat) : Nat :=
  9 * tokens + (9 - level.rank)

theorem settles_no_room {level : Level} {bound need : Nat} {ts rest : List Token} {e : Expr}
    (positive : 0 < need) : Settles 0 need (expression bound 0 level ts) (e, rest) :=
  .inr ⟨positive, ts.head?, expression_zero bound level ts⟩

theorem Level.need_pos (level : Level) (tokens : Nat) : 0 < level.need tokens := by
  have := level.rank_le_atom
  unfold Level.need
  omega

/-- The reader of a level gives the expression. -/
def ReadsExpr (level : Level) (used : List Token) (e : Expr) : Prop :=
  ∀ (bound room : Nat) {rest : List Token}, used.length ≤ bound → Ends level rest →
    Settles room (level.need used.length) (expression bound room level (used ++ rest)) (e, rest)

/-- A chain of a level gets as far as the expression, after so many operators. -/
def ReadsChain (level : Level) (used : List Token) (e : Expr) : Prop :=
  ∃ operators ≤ used.length, ∀ (bound room : Nat) {rest : List Token}, used.length ≤ bound →
    Ends level.tighter rest →
    let operand := expression bound room level.tighter
    let attempt := chain operand level bound (used ++ rest)
    attempt = chainAfter operand level (bound - operators) e rest ∨
      room + 1 < level.need used.length ∧ ∃ found, attempt = .error ⟨found, .tooDeep⟩

/-- A chain that is followed by no more operators is the whole expression of its level. -/
theorem ReadsChain.readsExpr {level : Level} {used : List Token} {e : Expr}
    (binary : level.isBinary = true) (chained : ReadsChain level used e) :
    ReadsExpr level used e := by
  intro bound room rest enough ends
  cases room with
  | zero => exact settles_no_room (level.need_pos _)
  | succ room =>
    obtain ⟨operators, _, reads⟩ := chained
    have looser : level.rank ≤ level.tighter.rank := by cases level <;> decide
    rw [expression_of_isBinary binary]
    rcases reads bound room enough (ends.of_rank_le looser) with done | short
    · exact .inl (done.trans (chainAfter_of_ends ends))
    · exact .inr short

/-- The first operand of a chain. -/
theorem readsChain_operand {level : Level} {used : List Token} {e : Expr}
    (loose : level ≠ .atom) (operand : ReadsExpr level.tighter used e) :
    ReadsChain level used e := by
  refine ⟨0, Nat.zero_le _, fun bound room rest enough ends => ?_⟩
  have rank := Level.rank_tighter loose
  have top := level.tighter.rank_le_atom
  rcases operand bound room enough ends with done | ⟨little, found, stopped⟩
  · left
    simp only [chain, done]
    rfl
  · refine .inr ⟨?_, found, ?_⟩
    · unfold Level.need at little ⊢
      omega
    · simp only [chain, stopped]
      rfl

/-- One more operator and operand of a chain. -/
theorem ReadsChain.step {level : Level} {op : BinaryOp} {left right : List Token} {l r : Expr}
    {line column : Nat} (own : op.level = level) (first : ReadsChain level left l)
    (second : ReadsExpr level.tighter right r) :
    ReadsChain level (left ++ ⟨op.word, line, column⟩ :: right) (Expr.join op l r) := by
  obtain ⟨operators, few, reads⟩ := first
  refine ⟨operators + 1, by simp; omega, fun bound room rest enough ends => ?_⟩
  simp only [List.length_append, List.length_cons] at enough
  have loose : level ≠ .atom := by
    rw [← own]
    cases op <;> decide
  have rank := Level.rank_tighter loose
  have top := level.tighter.rank_le_atom
  have here : Ends level.tighter (⟨op.word, line, column⟩ :: (right ++ rest)) := by
    rw [← own]
    exact ends_operator
  simp only [List.append_assoc, List.cons_append]
  rcases reads bound room (by omega) here with done | ⟨little, found, stopped⟩
  · obtain ⟨more, count⟩ : ∃ more, bound - operators = more + 1 := ⟨bound - operators - 1, by omega⟩
    have spelled : level.operator? op.word = some op := Level.operator?_eq_some_iff.2 ⟨own, rfl⟩
    have count' : bound - (operators + 1) = more := by omega
    rw [done, count, count', chainAfter]
    simp only [spelled]
    rcases second bound room (by omega) ends with done | ⟨little, found, stopped⟩
    · left
      simp only [done]
      rfl
    · refine .inr ⟨?_, found, ?_⟩
      · unfold Level.need at little ⊢
        simp only [List.length_append, List.length_cons]
        omega
      · simp only [stopped]
        rfl
  · refine .inr ⟨?_, found, stopped⟩
    unfold Level.need at little ⊢
    simp only [List.length_append, List.length_cons]
    omega

/-- The readers of arguments give the list, up to the closing parenthesis. -/
def ReadsArgs (used : List Token) (es : List Expr) : Prop :=
  ∀ (bound room left : Nat) {line column : Nat} {rest : List Token}, used.length ≤ bound →
    used.length ≤ left →
    Settles room (Level.disjunction.need used.length)
      (do
        let (arg, rest) ← expression bound room .disjunction
          (used ++ ⟨.symbol .closeParen, line, column⟩ :: rest)
        let (args, rest) ← argumentsAfter (expression bound room .disjunction) left rest
        return (arg :: args, rest))
      (es, rest)

theorem readsArgs_last {used : List Token} {e : Expr} (arg : ReadsExpr .disjunction used e) :
    ReadsArgs used [e] := by
  intro bound room left line column rest enough _
  refine Settles.bind (arg bound room enough (ends_of_endsExpression rfl)) ?_
  dsimp only
  rw [argumentsAfter_close]
  exact settles_ok

/-- One more argument is read, and then the others. -/
theorem readsArgs_more {ts us : List Token} {e : Expr} {es : List Expr} {l c : Nat}
    (arg : ReadsExpr .disjunction ts e) (more : ReadsArgs us es) :
    ReadsArgs (ts ++ ⟨.symbol .comma, l, c⟩ :: us) (e :: es) := by
  intro bound room left line column rest enough enough'
  simp only [List.length_append, List.length_cons] at enough enough'
  obtain ⟨left, rfl⟩ : ∃ more, left = more + 1 := ⟨left - 1, by omega⟩
  simp only [List.length_append, List.length_cons, List.append_assoc, List.cons_append]
  have first := arg bound room (by omega)
    (ends_of_endsExpression rfl : Ends .disjunction (⟨.symbol .comma, l, c⟩ ::
      (us ++ ⟨.symbol .closeParen, line, column⟩ :: rest)))
  have others : Settles room (Level.disjunction.need us.length)
      (argumentsAfter (expression bound room .disjunction) (left + 1)
        (⟨.symbol .comma, l, c⟩ :: (us ++ ⟨.symbol .closeParen, line, column⟩ :: rest)))
      (es, rest) := more bound room left (by omega) (by omega)
  refine Settles.bind (first.mono fun little => ?_)
    (Settles.bind (others.mono fun little => ?_) settles_ok)
  · unfold Level.need at little ⊢
    omega
  · unfold Level.need at little ⊢
    omega

/-- `not` takes one unit of room and reads its operand at its own level. -/
theorem readsExpr_not {ts : List Token} {e : Expr} {line column : Nat}
    (operand : ReadsExpr .negation ts e) :
    ReadsExpr .negation (⟨.keyword .notWord, line, column⟩ :: ts) (.unary .not e line) := by
  intro bound room rest enough ends
  simp only [List.length_cons] at enough ⊢
  cases room with
  | zero => exact settles_no_room (Level.need_pos _ _)
  | succ room =>
    refine Settles.bind ((operand bound room (by omega) ends).mono fun little => ?_) settles_ok
    unfold Level.need at little ⊢
    omega

/-- A sign takes one unit of room and reads its operand at its own level. -/
theorem readsExpr_negate {ts : List Token} {e : Expr} {line column : Nat}
    (operand : ReadsExpr .sign ts e) :
    ReadsExpr .sign (⟨.symbol .minus, line, column⟩ :: ts) (.unary .negate e line) := by
  intro bound room rest enough ends
  simp only [List.length_cons] at enough ⊢
  cases room with
  | zero => exact settles_no_room (Level.need_pos _ _)
  | succ room =>
    refine Settles.bind ((operand bound room (by omega) ends).mono fun little => ?_) settles_ok
    unfold Level.need at little ⊢
    omega

/-- An expression of a tighter level that is not made by an operator of this one. -/
theorem readsExpr_tighter {level : Level} {ts : List Token} {e : Expr} (loose : level ≠ .atom)
    (derived : Derives ts (.expr level.tighter e)) (inner : ReadsExpr level.tighter ts e) :
    ReadsExpr level ts e := by
  by_cases binary : level.isBinary = true
  · exact (readsChain_operand loose inner).readsExpr binary
  · intro bound room rest enough ends
    cases room with
    | zero => exact settles_no_room (Level.need_pos _ _)
    | succ room =>
      obtain ⟨t, more, rfl, opens⟩ := derived.opening
      have shorter := (inner bound room enough (ends.of_rank_le (by cases level <;> decide)))
      cases level with
      | negation =>
        have plain : ¬ BeginsWith (.keyword .notWord) (t :: more ++ rest) := by
          rintro ⟨line, column, after, same⟩
          cases same
          cases opens
        rw [expression_negation plain]
        refine shorter.mono fun little => ?_
        simp only [Level.need, Level.rank, Level.tighter] at little ⊢
        omega
      | sign =>
        have plain : ¬ BeginsWith (.symbol .minus) (t :: more ++ rest) := by
          rintro ⟨line, column, after, same⟩
          cases same
          cases opens
        rw [expression_sign plain]
        refine shorter.mono fun little => ?_
        simp only [Level.need, Level.rank, Level.tighter] at little ⊢
        omega
      | atom => exact absurd rfl loose
      | _ => exact absurd rfl binary

/-- An atom that is one token. -/
theorem readsExpr_token {t : Token} {e : Expr}
    (read : ∀ (inner : Reader Expr) (bound : Nat) {rest : List Token}, Ends .atom rest →
      atom inner bound (t :: rest) = .ok (e, rest)) : ReadsExpr .atom [t] e := by
  intro bound room rest enough ends
  cases room with
  | zero => exact settles_no_room (Level.need_pos _ _)
  | succ room => exact .inl (read _ _ ends)

/-- Parentheses read an expression of the loosest level, with what room there is below the atom. -/
theorem readsExpr_group {ts : List Token} {e : Expr} {l c l' c' : Nat}
    (inner : ReadsExpr .disjunction ts e) :
    ReadsExpr .atom (⟨.symbol .openParen, l, c⟩ :: ts ++ [⟨.symbol .closeParen, l', c'⟩]) e := by
  intro bound room rest enough _
  simp only [List.length_append, List.length_cons, List.length_nil, List.append_assoc,
    List.cons_append, List.nil_append] at enough ⊢
  cases room with
  | zero => exact settles_no_room (Level.need_pos _ _)
  | succ room =>
    have inside := inner bound room (by omega)
      (ends_of_endsExpression rfl : Ends .disjunction (⟨.symbol .closeParen, l', c'⟩ :: rest))
    refine Settles.bind (inside.mono fun little => ?_) ?_
    · simp only [Level.need, Level.rank] at little ⊢
      omega
    · dsimp only
      rw [expect_self]
      exact settles_ok

theorem readsExpr_callNone {s : String} {line column l c l' c' : Nat} :
    ReadsExpr .atom [⟨.name s, line, column⟩, ⟨.symbol .openParen, l, c⟩,
      ⟨.symbol .closeParen, l', c'⟩] (.call s [] line) := by
  intro bound room rest _ _
  cases room with
  | zero => exact settles_no_room (Level.need_pos _ _)
  | succ room => exact .inl rfl

/-- A call reads its arguments as expressions of the loosest level. -/
theorem readsExpr_call {s : String} {ts : List Token} {es : List Expr}
    {line column l c l' c' : Nat} (derived : Derives ts (.args es)) (args : ReadsArgs ts es) :
    ReadsExpr .atom (⟨.name s, line, column⟩ :: ⟨.symbol .openParen, l, c⟩ :: ts ++
      [⟨.symbol .closeParen, l', c'⟩]) (.call s es line) := by
  intro bound room rest enough _
  simp only [List.length_append, List.length_cons, List.length_nil, List.append_assoc,
    List.cons_append, List.nil_append] at enough ⊢
  cases room with
  | zero => exact settles_no_room (Level.need_pos _ _)
  | succ room =>
    obtain ⟨t, more, rfl, opens⟩ := derived.opening
    have given : Settles room (Level.disjunction.need (t :: more).length)
        (arguments (expression bound room .disjunction) bound
          (t :: more ++ ⟨.symbol .closeParen, l', c'⟩ :: rest)) (es, rest) := by
      rw [arguments_of_open]
      · exact args bound room bound (by omega) (by omega)
      · rintro ⟨l'', c'', after, same⟩
        cases same
        cases opens
    refine Settles.bind (given.mono fun little => ?_) settles_ok
    simp only [Level.need, Level.rank] at little ⊢
    omega

/-! ## Statements -/

/-- The reader of statements gives the statement. -/
def ReadsStmt (used : List Token) (s : Stmt) : Prop :=
  ∀ (bound room : Nat) {rest : List Token}, used.length ≤ bound → Ends .disjunction rest →
    Settles room (9 * used.length + 1) (statement bound room (used ++ rest)) (s, rest)

/-- The reader of sequences gives the statements. -/
def ReadsBody (used : List Token) (ss : List Stmt) : Prop :=
  ∀ (bound room left : Nat) {closers : List Keyword} {rest : List Token}, used.length ≤ bound →
    used.length ≤ left → Closers closers → Stops closers rest →
    Settles room (9 * used.length + 1)
      (sequence (statement bound room) closers left (used ++ rest)) (ss, rest)

/-- The reader of what follows the first branch of a choice gives the branches and the last
alternative. -/
def ReadsTail (used : List Token) (bs : List Branch) (last : Option (List Stmt)) : Prop :=
  ∀ (bound room left : Nat) {rest : List Token}, used.length ≤ bound → used.length ≤ left →
    Settles room (9 * used.length + 1)
      (branchesAfter (statement bound room) (expression bound room .disjunction) bound left
        (used ++ rest)) ((bs, last), rest)

theorem settles_value {bound room need : Nat} {ts rest : List Token} {e : Expr}
    (value : ReadsExpr .disjunction ts e) (enough : ts.length ≤ bound)
    (ends : Ends .disjunction rest) (shorter : 9 * ts.length + 9 ≤ need) :
    Settles room need (expression bound room .disjunction (ts ++ rest)) (e, rest) := by
  refine (value bound room enough ends).mono fun little => ?_
  simp only [Level.need, Level.rank] at little
  omega

/-- A name, the sign and the value are read within the room that the value needs. -/
theorem settles_assignment {bound room : Nat} {s : String} {ts rest : List Token} {e : Expr}
    {l c l' c' need : Nat} (value : ReadsExpr .disjunction ts e) (enough : ts.length ≤ bound)
    (ends : Ends .disjunction rest) (shorter : 9 * ts.length + 9 ≤ need) :
    Settles room need (assignment (expression bound room .disjunction)
      (⟨.name s, l, c⟩ :: ⟨.symbol .assign, l', c'⟩ :: (ts ++ rest))) ((s, e), rest) := by
  have assigned : assignment (expression bound room .disjunction)
      (⟨.name s, l, c⟩ :: ⟨.symbol .assign, l', c'⟩ :: (ts ++ rest)) =
      (do
        let (found, rest) ← expression bound room .disjunction (ts ++ rest)
        return ((s, found), rest)) := by
    simp [assignment, expectName, bind, Except.bind]
  rw [assigned]
  exact Settles.bind (settles_value value enough ends shorter) settles_ok

/-- A block is read up to the word that closes it. -/
theorem settles_block {bound room need : Nat} {ts rest : List Token} {ss : List Stmt} {l c : Nat}
    {k : Keyword} {closers : List Keyword} (inside : ReadsBody ts ss) (enough : ts.length ≤ bound)
    (closing : Closers closers) (listed : k ∈ closers) (shorter : 9 * ts.length + 1 ≤ need) :
    Settles room need (block (statement bound room) bound closers
      (ts ++ ⟨.keyword k, l, c⟩ :: rest)) (ss, ⟨.keyword k, l, c⟩ :: rest) := by
  have stops : Stops closers (⟨.keyword k, l, c⟩ :: rest) := .inr ⟨k, l, c, rest, rfl, listed⟩
  have read := inside bound room bound enough enough closing stops
  exact Settles.bind (read.mono fun little => by omega) settles_ok

theorem closers_end : Closers [.endWord] := by
  intro k listed
  exact .inl (by simpa using listed)

theorem closers_branch : Closers [.endWord, .otherwiseWord] := by
  intro k listed
  simpa using listed

/-- A statement takes one unit of room more than what it is made of. -/
theorem readsStmt_intro {used : List Token} {s : Stmt}
    (reads : ∀ (bound room : Nat) {rest : List Token}, used.length ≤ bound →
      Ends .disjunction rest →
      Settles room (9 * used.length) (statement bound (room + 1) (used ++ rest)) (s, rest)) :
    ReadsStmt used s := by
  intro bound room rest enough ends
  cases room with
  | zero => exact .inr ⟨by omega, _, rfl⟩
  | succ room => exact (reads bound room enough ends).mono fun little => by omega

/-- A word and an expression are a statement. -/
theorem readsStmt_value {ts : List Token} {e : Expr} {t : Token} (make : Expr → Stmt)
    (value : ReadsExpr .disjunction ts e)
    (read : ∀ (bound room : Nat) (us : List Token), statement bound (room + 1) (t :: us) = (do
      let (found, rest) ← expression bound room .disjunction us
      return (make found, rest))) : ReadsStmt (t :: ts) (make e) := by
  refine readsStmt_intro fun bound room rest enough ends => ?_
  simp only [List.length_cons] at enough ⊢
  rw [List.cons_append, read]
  exact Settles.bind (settles_value value (by omega) ends (by omega)) settles_ok

/-- A word, a name, `=` and an expression are a statement. -/
theorem readsStmt_assignment {ts : List Token} {e : Expr} {t : Token} {name : String}
    {l c l' c' : Nat} (make : String → Expr → Stmt) (value : ReadsExpr .disjunction ts e)
    (read : ∀ (bound room : Nat) (us : List Token), statement bound (room + 1) (t :: us) = (do
      let ((name, found), rest) ← assignment (expression bound room .disjunction) us
      return (make name found, rest))) :
    ReadsStmt (t :: ⟨.name name, l, c⟩ :: ⟨.symbol .assign, l', c'⟩ :: ts) (make name e) := by
  refine readsStmt_intro fun bound room rest enough ends => ?_
  simp only [List.length_cons] at enough ⊢
  rw [List.cons_append, read]
  exact Settles.bind (settles_assignment value (by omega) ends (by omega)) settles_ok

theorem readsStmt_assign {ts : List Token} {e : Expr} {name : String} {line column l c : Nat}
    (value : ReadsExpr .disjunction ts e) :
    ReadsStmt (⟨.name name, line, column⟩ :: ⟨.symbol .assign, l, c⟩ :: ts)
      (.assign name e line) := by
  refine readsStmt_intro fun bound room rest enough ends => ?_
  simp only [List.length_cons] at enough ⊢
  exact Settles.bind (settles_assignment value (by omega) ends (by omega)) settles_ok

/-- The inside of a loop, up to its closing word. -/
theorem settles_enclosed {bound room need : Nat} {ts rest : List Token} {ss : List Stmt}
    {l c l' c' : Nat} (make : List Stmt → Stmt) (inside : ReadsBody ts ss)
    (enough : ts.length ≤ bound) (shorter : 9 * ts.length + 1 ≤ need) :
    Settles room need
      (do
        let rest ← expect (.keyword .doWord)
          (⟨.keyword .doWord, l, c⟩ :: (ts ++ ⟨.keyword .endWord, l', c'⟩ :: rest))
        let (body, rest) ← block (statement bound room) bound [.endWord] rest
        let rest ← expect (.keyword .endWord) rest
        return (make body, rest))
      (make ss, rest) := by
  rw [expect_self]
  refine Settles.bind settles_ok ?_
  refine Settles.bind (settles_block inside enough closers_end (by simp) shorter) ?_
  exact Settles.bind (.inl (expect_self ..)) settles_ok

/-- A loop over a range is read part by part. -/
theorem readsStmt_range {name : String} {ts us vs : List Token} {first last : Expr}
    {ss : List Stmt} {line column l₁ c₁ l₂ c₂ l₃ c₃ l₄ c₄ l₅ c₅ : Nat}
    (start : ReadsExpr .disjunction ts first) (stop : ReadsExpr .disjunction us last)
    (inside : ReadsBody vs ss) :
    ReadsStmt (⟨.keyword .loopWord, line, column⟩ :: ⟨.name name, l₁, c₁⟩ ::
        ⟨.symbol .assign, l₂, c₂⟩ :: ts ++ ⟨.keyword .toWord, l₃, c₃⟩ :: us ++
        ⟨.keyword .doWord, l₄, c₄⟩ :: vs ++ [⟨.keyword .endWord, l₅, c₅⟩])
      (.range name first last ss line) := by
  refine readsStmt_intro fun bound room rest enough ends => ?_
  simp only [List.length_append, List.length_cons, List.length_nil, List.append_assoc,
    List.cons_append, List.nil_append] at enough ⊢
  refine Settles.bind
    (settles_assignment start (by omega) (ends_of_endsExpression rfl) (by omega)) ?_
  dsimp only
  rw [expect_self]
  refine Settles.bind settles_ok ?_
  refine Settles.bind (settles_value stop (by omega) (ends_of_endsExpression rfl) (by omega)) ?_
  exact settles_enclosed (.range name first last · line) inside (by omega) (by omega)

/-- A loop with a condition is read part by part. -/
theorem readsStmt_whilst {ts us : List Token} {e : Expr} {ss : List Stmt}
    {line column l₁ c₁ l₂ c₂ l₃ c₃ l₄ c₄ : Nat} (test : ReadsExpr .disjunction ts e)
    (inside : ReadsBody us ss) :
    ReadsStmt (⟨.keyword .repeatWord, line, column⟩ :: ⟨.symbol .openParen, l₁, c₁⟩ :: ts ++
        ⟨.symbol .closeParen, l₂, c₂⟩ :: ⟨.keyword .doWord, l₃, c₃⟩ :: us ++
        [⟨.keyword .endWord, l₄, c₄⟩])
      (.whilst e ss line) := by
  refine readsStmt_intro fun bound room rest enough ends => ?_
  simp only [List.length_append, List.length_cons, List.length_nil, List.append_assoc,
    List.cons_append, List.nil_append] at enough ⊢
  refine Settles.bind (.inl (expect_self ..)) ?_
  refine Settles.bind (settles_value test (by omega) (ends_of_endsExpression rfl) (by omega)) ?_
  refine Settles.bind (.inl (expect_self ..)) ?_
  exact settles_enclosed (.whilst e · line) inside (by omega) (by omega)

/-- A branch, after the word that opens it. -/
theorem settles_branch {bound room line need : Nat} {ts us rest : List Token} {e : Expr}
    {ss : List Stmt} {k : Keyword} {l c l' c' : Nat} (test : ReadsExpr .disjunction ts e)
    (inside : ReadsBody us ss) (closing : k ∈ [Keyword.endWord, .otherwiseWord])
    (enough : ts.length + us.length ≤ bound) (shorter : 9 * (ts.length + us.length) + 9 ≤ need) :
    Settles room need (branch (statement bound room) (expression bound room .disjunction) bound line
      (ts ++ ⟨.keyword .doWord, l, c⟩ :: (us ++ ⟨.keyword k, l', c'⟩ :: rest)))
      (.mk e ss line, ⟨.keyword k, l', c'⟩ :: rest) := by
  refine Settles.bind (settles_value test (by omega) (ends_of_endsExpression rfl) (by omega)) ?_
  refine Settles.bind (.inl (expect_self ..)) ?_
  exact Settles.bind (settles_block inside (by omega) closers_branch closing (by omega)) settles_ok

/-- The first token of what follows a branch closes it. -/
theorem tail_opening {ts : List Token} {bs : List Branch} {last : Option (List Stmt)}
    (derived : Derives ts (.tail bs last)) :
    ∃ k line column more, ts = ⟨.keyword k, line, column⟩ :: more ∧
      k ∈ [Keyword.endWord, .otherwiseWord] := by
  obtain ⟨⟨word, line, column⟩, more, rfl, same | same⟩ := derived.opening
  · cases same
    exact ⟨_, line, column, more, rfl, by simp⟩
  · cases same
    exact ⟨_, line, column, more, rfl, by simp⟩

theorem settles_tail {bound room left need : Nat} {ts rest : List Token} {bs : List Branch}
    {last : Option (List Stmt)} (others : ReadsTail ts bs last) (enough : ts.length ≤ bound)
    (enough' : ts.length ≤ left) (shorter : 9 * ts.length + 1 ≤ need) :
    Settles room need
      (branchesAfter (statement bound room) (expression bound room .disjunction) bound left
        (ts ++ rest)) ((bs, last), rest) :=
  (others bound room left enough enough').mono fun little => by omega

/-- A choice is read by its first branch and then by whatever comes behind that. -/
theorem readsStmt_choose {k : Keyword} {ts us vs : List Token} {e : Expr} {ss : List Stmt}
    {bs : List Branch} {last : Option (List Stmt)} {line column l c : Nat}
    (opens : k.opensBranch) (test : ReadsExpr .disjunction ts e) (inside : ReadsBody us ss)
    (derived : Derives vs (.tail bs last)) (others : ReadsTail vs bs last) :
    ReadsStmt (⟨.keyword k, line, column⟩ :: ts ++ ⟨.keyword .doWord, l, c⟩ :: us ++ vs)
      (.choose (.mk e ss line :: bs) last line) := by
  refine readsStmt_intro fun bound room rest enough ends => ?_
  obtain ⟨k', l', c', more, rfl, closing⟩ := tail_opening derived
  simp only [List.length_append, List.length_cons, List.append_assoc, List.cons_append]
    at enough ⊢
  have opened : statement bound (room + 1) (⟨.keyword k, line, column⟩ ::
      (ts ++ ⟨.keyword .doWord, l, c⟩ :: (us ++ ⟨.keyword k', l', c'⟩ :: (more ++ rest)))) = (do
      let first ← branch (statement bound room) (expression bound room .disjunction) bound
        line (ts ++ ⟨.keyword .doWord, l, c⟩ :: (us ++ ⟨.keyword k', l', c'⟩ :: (more ++ rest)))
      let others ← branchesAfter (statement bound room)
        (expression bound room .disjunction) bound bound first.2
      return (.choose (first.1 :: others.1.1) others.1.2 line, others.2)) := by
    rcases opens with rfl | rfl <;> rfl
  rw [opened]
  refine Settles.bind (settles_branch test inside closing (by omega) (by omega)) ?_
  exact Settles.bind (settles_tail others (by simp; omega) (by simp; omega) (by simp; omega))
    settles_ok

theorem readsTail_close {line column : Nat} :
    ReadsTail [⟨.keyword .endWord, line, column⟩] [] none := by
  intro bound room left rest _ _
  exact .inl branchesAfter_end

/-- The last alternative is read if no `when` or `check` stands behind `otherwise`. -/
theorem readsTail_otherwise {ts : List Token} {ss : List Stmt} {l c l' c' : Nat}
    (separate : ¬ OpensBranch ts) (inside : ReadsBody ts ss) :
    ReadsTail (⟨.keyword .otherwiseWord, l, c⟩ :: ts ++ [⟨.keyword .endWord, l', c'⟩]) []
      (some ss) := by
  intro bound room left rest enough enough'
  simp only [List.length_append, List.length_cons, List.length_nil, List.append_assoc,
    List.cons_append, List.nil_append] at enough enough' ⊢
  obtain ⟨left, rfl⟩ : ∃ more, left = more + 1 := ⟨left - 1, by omega⟩
  -- The word after `otherwise` is the first of the statements or the closing one.
  have separate' : ¬ OpensBranch (ts ++ ⟨.keyword .endWord, l', c'⟩ :: rest) := by
    cases ts with
    | nil => rintro (⟨⟨⟩⟩ | ⟨⟨⟩⟩)
    | cons t ts =>
      obtain ⟨word, line, column⟩ := t
      cases word <;> exact separate
  rw [branchesAfter_otherwise separate']
  refine Settles.bind (settles_block inside (by omega) closers_end (by simp) (by omega)) ?_
  exact Settles.bind (.inl (expect_self ..)) settles_ok

/-- One more branch is read, and then whatever comes behind that. -/
theorem readsTail_branch {k : Keyword} {ts us vs : List Token} {e : Expr} {ss : List Stmt}
    {bs : List Branch} {last : Option (List Stmt)} {line column l₁ c₁ l₂ c₂ : Nat}
    (opens : k.opensBranch) (test : ReadsExpr .disjunction ts e) (inside : ReadsBody us ss)
    (derived : Derives vs (.tail bs last)) (others : ReadsTail vs bs last) :
    ReadsTail (⟨.keyword .otherwiseWord, l₁, c₁⟩ :: ⟨.keyword k, line, column⟩ :: ts ++
      ⟨.keyword .doWord, l₂, c₂⟩ :: us ++ vs) (.mk e ss line :: bs) last := by
  intro bound room left rest enough enough'
  obtain ⟨k', l', c', more, rfl, closing⟩ := tail_opening derived
  simp only [List.length_append, List.length_cons, List.append_assoc, List.cons_append]
    at enough enough' ⊢
  obtain ⟨left, rfl⟩ : ∃ more, left = more + 1 := ⟨left - 1, by omega⟩
  rw [branchesAfter_branch opens]
  refine Settles.bind (settles_branch test inside closing (by omega) (by omega)) ?_
  exact Settles.bind (settles_tail others (by simp; omega) (by simp; omega) (by simp; omega))
    settles_ok

theorem readsBody_nothing : ReadsBody [] [] := by
  intro bound room left closers rest _ _ _ stops
  rcases stops with rfl | ⟨k, line, column, more, rfl, listed⟩
  · exact .inl (sequence_of_nil ..)
  · exact .inl (sequence_of_stops listed)

theorem readsBody_semicolon {ts : List Token} {ss : List Stmt} {line column : Nat}
    (more : ReadsBody ts ss) : ReadsBody (⟨.symbol .semicolon, line, column⟩ :: ts) ss := by
  intro bound room left closers rest enough enough' closing stops
  simp only [List.length_cons] at enough enough' ⊢
  obtain ⟨left, rfl⟩ : ∃ more, left = more + 1 := ⟨left - 1, by omega⟩
  have read := more bound room left (by omega) (by omega) closing stops
  exact read.mono fun little => by omega

/-- Where a statement opens, a sequence reads it and goes on. -/
theorem sequence_of_opensStatement {statement : Reader Stmt} {closers : List Keyword} {left : Nat}
    {t : Token} {ts : List Token} (closing : Closers closers)
    (opens : t.word.opensStatement = true) :
    sequence statement closers (left + 1) (t :: ts) = (do
      let (first, rest) ← statement (t :: ts)
      let (more, rest) ← sequence statement closers left rest
      return (first :: more, rest)) := by
  refine sequence_of_other (fun same => ?_) fun k listed same => ?_
  · rw [same] at opens
    cases opens
  · rw [same] at opens
    rcases closing k listed with rfl | rfl
    · cases opens
    · cases opens

/-- A statement and the ones behind it are read.  No word between them is needed, as each statement
ends where the next one opens. -/
theorem readsBody_sequence {ts us : List Token} {s : Stmt} {ss : List Stmt}
    (firstDerived : Derives ts (.stmt s)) (first : ReadsStmt ts s)
    (moreDerived : Derives us (.body ss)) (more : ReadsBody us ss) :
    ReadsBody (ts ++ us) (s :: ss) := by
  intro bound room left closers rest enough enough' closing stops
  obtain ⟨t, after, rfl, opens⟩ := firstDerived.opening
  simp only [List.length_append, List.length_cons] at enough enough' ⊢
  obtain ⟨left, rfl⟩ : ∃ more, left = more + 1 := ⟨left - 1, by omega⟩
  have ends := ends_body moreDerived (stops.ends closing)
  have here := first bound room (by simp; omega) ends
  have later := more bound room left (by omega) (by omega) closing stops
  simp only [List.append_assoc, List.cons_append] at here ⊢
  rw [sequence_of_opensStatement closing opens]
  refine Settles.bind (here.mono fun little => ?_) ?_
  · simp only [List.length_cons] at little
    omega
  · exact Settles.bind (later.mono fun little => by omega) settles_ok

/-! ## Whole derivations -/

/-- The reader of a phrase gives its tree. -/
def Reads (used : List Token) : Phrase → Prop
  | .expr level e =>
    ReadsExpr level used e ∧ (level.isBinary = true → ReadsChain level used e)
  | .args es => ReadsArgs used es
  | .stmt s => ReadsStmt used s
  | .body ss => ReadsBody used ss
  | .tail bs last => ReadsTail used bs last

/-- Every phrase of the grammar is read, by induction on its derivation: the parser gives the tree,
or it has less room than nine units for each token and runs out of it. -/
theorem reads_of_derives {ts : List Token} {phrase : Phrase} (derived : Derives ts phrase) :
    Reads ts phrase := by
  induction derived with
  | tighter loose inner ih =>
    exact ⟨readsExpr_tighter loose inner ih.1, fun _ => readsChain_operand loose ih.1⟩
  | @binary op level left right l r line column own first second ihFirst ihSecond =>
    have binary : level.isBinary = true := by
      rw [← own]
      cases op <;> rfl
    have chained : ReadsChain level (left ++ ⟨op.word, line, column⟩ :: right) (Expr.join op l r) :=
      (ihFirst.2 binary).step own ihSecond.1
    exact ⟨chained.readsExpr binary, fun _ => chained⟩
  | not operand ih => exact ⟨readsExpr_not ih.1, nofun⟩
  | negate operand ih => exact ⟨readsExpr_negate ih.1, nofun⟩
  | number => exact ⟨readsExpr_token fun _ _ _ _ => rfl, nofun⟩
  | text => exact ⟨readsExpr_token fun _ _ _ _ => rfl, nofun⟩
  | trueWord => exact ⟨readsExpr_token fun _ _ _ _ => rfl, nofun⟩
  | falseWord => exact ⟨readsExpr_token fun _ _ _ _ => rfl, nofun⟩
  | name =>
    exact ⟨readsExpr_token fun _ _ _ ends => atom_name ends.not_beginsWith, nofun⟩
  | group inner ih => exact ⟨readsExpr_group ih.1, nofun⟩
  | callNone => exact ⟨readsExpr_callNone, nofun⟩
  | call arguments ih => exact ⟨readsExpr_call arguments ih, nofun⟩
  | lastArg arg ih => exact readsArgs_last ih.1
  | moreArgs arg more ihArg ihMore => exact readsArgs_more ihArg.1 ihMore
  | set value ih => exact readsStmt_assignment (.declare · · false _) ih.1 fun _ _ _ => rfl
  | keep value ih => exact readsStmt_assignment (.declare · · true _) ih.1 fun _ _ _ => rfl
  | change value ih => exact readsStmt_assignment (.assign · · _) ih.1 fun _ _ _ => rfl
  | assign value ih => exact readsStmt_assign ih.1
  | say value ih => exact readsStmt_value (.say · _) ih.1 fun _ _ _ => rfl
  | display value ih => exact readsStmt_value (.display · _) ih.1 fun _ _ _ => rfl
  | ask => exact readsStmt_intro fun _ _ _ _ _ => .inl rfl
  | leave => exact readsStmt_intro fun _ _ _ _ _ => .inl rfl
  | next => exact readsStmt_intro fun _ _ _ _ _ => .inl rfl
  | range start stop inside ihStart ihStop ihInside =>
    exact readsStmt_range ihStart.1 ihStop.1 ihInside
  | whilst test inside ihTest ihInside => exact readsStmt_whilst ihTest.1 ihInside
  | choose opens test inside others ihTest ihInside ihOthers =>
    exact readsStmt_choose opens ihTest.1 ihInside others ihOthers
  | close => exact readsTail_close
  | otherwise separate inside ih => exact readsTail_otherwise separate ih
  | branch opens test inside others ihTest ihInside ihOthers =>
    exact readsTail_branch opens ihTest.1 ihInside others ihOthers
  | nothing => exact readsBody_nothing
  | semicolon more ih => exact readsBody_semicolon ih
  | sequence first more ihFirst ihMore => exact readsBody_sequence first ihFirst more ihMore

/-- On the tokens of a program the descent parser gives the program, or there is less room than
nine units and one more per token, and it runs out. -/
theorem settles_program {room : Nat} {ts : List Token} {p : Program} (derived : p.DerivedFrom ts) :
    Settles room (9 * ts.length + 1) (program room ts) p := by
  have read : ReadsBody ts p.body := reads_of_derives derived
  have closing : Closers [] := by simp [Closers]
  have whole := read ts.length room ts.length (Nat.le_refl _) (Nat.le_refl _) closing (.inl rfl)
  rw [List.append_nil] at whole
  exact Settles.bind whole settles_ok

/-- More than nine units of room per token are always enough. -/
theorem program_of_derivedFrom {room : Nat} {ts : List Token} {p : Program}
    (derived : p.DerivedFrom ts) (enough : 9 * ts.length < room) : program room ts = .ok p := by
  have settles : Settles room (9 * ts.length + 1) (program room ts) p := settles_program derived
  rcases settles with accepted | ⟨little, _⟩
  · exact accepted
  · omega

/-- The descent parser accepts exactly the programs of the grammar and gives their trees, unless it
runs out of room; and no token list is a program in two ways. -/
theorem program_eq_ok_iff_derivedFrom (room : Nat) (ts : List Token) :
    ((∀ found, program room ts ≠ .error ⟨found, .tooDeep⟩) →
      ∀ p, program room ts = .ok p ↔ p.DerivedFrom ts) ∧
    ∀ p q : Program, p.DerivedFrom ts → q.DerivedFrom ts → p = q := by
  refine ⟨fun roomy p => ⟨derivedFrom_of_program, fun derived => ?_⟩, fun p q left right => ?_⟩
  · rcases settles_program derived with accepted | ⟨_, found, stopped⟩
    · exact accepted
    · exact absurd stopped (roomy found)
  · -- With enough room both trees are the one that the parser gives.
    have one := program_of_derivedFrom left (Nat.lt_succ_self _)
    have other := program_of_derivedFrom right (Nat.lt_succ_self _)
    exact Except.ok.inj (one.symm.trans other)

/-- Operators of one level associate to the left, and a choice of two branches with nothing in them
is a program. -/
theorem derivedFrom_branches_left_associated :
    let ts : List Token :=
      [⟨.keyword .whenWord, 1, 1⟩, ⟨.name "a", 1, 6⟩, ⟨.symbol .minus, 1, 8⟩, ⟨.name "b", 1, 10⟩,
       ⟨.symbol .minus, 2, 1⟩, ⟨.name "c", 2, 3⟩, ⟨.keyword .doWord, 2, 5⟩,
       ⟨.keyword .otherwiseWord, 3, 1⟩, ⟨.keyword .checkWord, 4, 1⟩, ⟨.name "d", 4, 7⟩,
       ⟨.keyword .doWord, 4, 9⟩, ⟨.keyword .endWord, 5, 1⟩]
    let p : Program :=
      ⟨[.choose
        [.mk (Expr.join .subtract (Expr.join .subtract (.name "a" 1) (.name "b" 1)) (.name "c" 2))
          [] 1, .mk (.name "d" 4) [] 4] none 1]⟩
    (∀ found, program room ts ≠ .error ⟨found, .tooDeep⟩) ∧ p.DerivedFrom ts := by
  intro ts p
  have accepted : program room ts = .ok p := rfl
  have roomy : ∀ found, program room ts ≠ .error ⟨found, .tooDeep⟩ := by
    intro found stopped
    cases accepted.symm.trans stopped
  exact ⟨roomy, ((program_eq_ok_iff_derivedFrom room ts).1 roomy p).1 accepted⟩

end Parlance.Descent
