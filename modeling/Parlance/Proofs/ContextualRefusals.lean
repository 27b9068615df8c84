import Parlance.Proofs.ContextualSteps
import Parlance.Proofs.ContextualTracking

/-!
# Where the stack machine stops

The readers of statements, and with them the whole descent parser, are tracked by the stack machine
(`tracks_program`): it reads what the parser reads, and it is stuck at the word that the parser
refuses, unless it can take that word for another one.
-/

namespace Parlance.Contextual

open Descent hiding parse

/-! ## Words that are due -/

section Due

variable {blocks : List Open} {done : List Stmt} {s : State} {ts : List Token}

/-- Where one word only is looked for, another one does not fit. -/
theorem halts_due {word : Word} {terminal : Terminal} {complaint : Complaint}
    (only : ∀ t, s.situation.accepts t = (t == terminal))
    (fixed : terminal ≠ .name ∧ terminal ≠ .otherwiseWhen) (unfinished : s.finish? = none)
    (unique : ∀ w : Word, w.terminal? = some terminal → w = word)
    (asked : s.situation = .doDue → complaint = .expectedWord (.keyword .doWord))
    (other : ¬ BeginsWith word ts) : Halts s complaint ts := by
  cases ts with
  | nil => exact unfinished
  | cons t ts =>
    refine fun unmistakable => .inl ⟨fun terminal' known accepted => ?_, fun _ accepted => ?_,
      fun _ _ _ accepted => ?_, fun doDue name named => ?_⟩
    · rw [only, beq_iff_eq] at accepted
      subst accepted
      exact absurd (unique _ known ▸ beginsWith_head rfl) other
    · rw [only, beq_iff_eq] at accepted
      exact absurd accepted.symm fixed.2
    · rw [only, beq_iff_eq] at accepted
      exact absurd accepted.symm fixed.1
    · rw [named] at unmistakable
      exact unmistakable (asked doDue)

/-- A name that is due. -/
theorem tracks_expectName {target : Target} {line : Nat} :
    Tracks ⟨blocks, done, .target target line⟩ ts Prod.snd
      (fun found s => s = stepTarget blocks done target line found.1) (expectName ts) := by
  by_cases begins : ∃ name, BeginsWith (.name name) ts
  · obtain ⟨name, l, c, rest, rfl⟩ := begins
    exact tracks_ok (Nat.le_succ _) (run_target.passes rest) rfl
  · rw [expectName_of_other begins]
    refine tracks_refuse ?_
    cases ts with
    | nil =>
      simp only [Halts, State.finish?]
      split <;> rfl
    | cons t ts =>
      obtain ⟨word, l, c⟩ := t
      intro unmistakable
      have unreserved : ∀ k, word ≠ .keyword k := by
        rintro k rfl
        rcases unmistakable with ⟨_, same⟩ | ⟨same, _⟩ <;> cases same
      refine .inl ⟨fun terminal known accepted => ?_, fun same => absurd same (unreserved _),
        fun k same => absurd same (unreserved k), fun due => by cases due⟩
      cases word with
      | name name => exact absurd ⟨name, l, c, ts, rfl⟩ begins
      | _ => cases known <;> cases accepted

variable {bound : Nat} {value : Reader Expr}

/-- `=` and an expression. -/
theorem tracks_assigned (values : TracksExpr bound .disjunction value) {name : String}
    {purpose : Purpose} (short : ts.length ≤ bound) :
    Tracks ⟨blocks, done, .assignment purpose⟩ ts Prod.snd
      (fun found s => found.1.1 = name ∧ Holds blocks done purpose .disjunction [] found.1.2 s ∧
        Ended .disjunction s found.2)
      (do
        let rest ← expect (.symbol .assign) ts
        let (found, rest) ← value rest
        return ((name, found), rest)) := by
  refine Tracks.bind (tracks_expect (fun other => halts_due (fun _ => rfl) (by decide) ?_
    (fun _ => unique_symbol) (fun due => by cases due) other)
    fun _ _ _ _ => ⟨_, run_assign, rfl⟩) ?_
  · simp only [State.finish?]
    split <;> rfl
  · rintro rest s shorter rfl
    refine (values rest blocks done purpose [] (Nat.le_trans shorter short) (Nat.zero_le _)
      filled_nil).bind ?_
    rintro ⟨e, rest'⟩ s _ ⟨holds, ended⟩
    exact tracks_ok (Nat.le_refl _) .refl ⟨rfl, holds, ended⟩

/-- A name, `=` and an expression. -/
theorem tracks_assignment (values : TracksExpr bound .disjunction value) {target : Target}
    {line : Nat} (purpose : String → Purpose) (short : ts.length ≤ bound)
    (made : ∀ name, stepTarget blocks done target line name =
      ⟨blocks, done, .assignment (purpose name)⟩) :
    Tracks ⟨blocks, done, .target target line⟩ ts Prod.snd
      (fun found s => Holds blocks done (purpose found.1.1) .disjunction [] found.1.2 s ∧
        Ended .disjunction s found.2) (assignment value ts) := by
  refine tracks_expectName.bind ?_
  rintro ⟨name, rest⟩ s shorter rfl
  rw [made]
  refine (tracks_assigned values (Nat.le_trans shorter short)).mono ?_
  rintro ⟨⟨name', e⟩, rest'⟩ s _ ⟨rfl, holds, ended⟩
  exact ⟨holds, ended⟩

end Due

/-! ## Between statements -/

/-- The machine is between two statements, and the one before does not go on with what comes
next. -/
structure Between (blocks : List Open) (done : List Stmt) (s : State) (ts : List Token) : Prop where
  here : AtStatement blocks done s
  apart : (∃ situation, s.point = .statement situation) ∨ Ended .disjunction s ts

/-- The words that close the innermost block. -/
inductive Encloses : List Keyword → List Open → Prop
  | top : Encloses [] []
  | branch {before line earlier condition branchLine blocks} :
    Encloses [.endWord, .otherwiseWord]
      (.branch before line earlier condition branchLine :: blocks)
  | block {block blocks} (closed : ∀ before line earlier condition branchLine,
      block ≠ .branch before line earlier condition branchLine) :
    Encloses [.endWord] (block :: blocks)

section Between

variable {blocks : List Open} {done : List Stmt} {s : State} {ts : List Token}
  {closers : List Keyword}

theorem between_statement {situation : Situation}
    (known : situation = .start ∨ situation = .blockStart ∨ situation = .between) :
    Between blocks done ⟨blocks, done, .statement situation⟩ ts :=
  ⟨.between known, .inl ⟨situation, rfl⟩⟩

theorem AtStatement.blocks_eq (here : AtStatement blocks done s) : s.blocks = blocks := by
  cases here with
  | between known => rfl
  | after holds _ =>
    obtain ⟨_, _, rests, _⟩ := holds
    cases rests <;> rfl

/-- The words that can close a block or a branch, as they are read. -/
theorem stepStatement_of_encloses {k : Keyword} {t : Terminal} (encloses : Encloses closers blocks)
    (foreign : k ∉ closers) (closing : k = .endWord ∧ t = .keyword .endWord ∨
      k = .otherwiseWord ∧ (t = .keyword .otherwiseWord ∨ t = .otherwiseWhen))
    (letters : List Char) (line : Nat) :
    stepStatement blocks done ⟨t, letters, line⟩ = none := by
  cases encloses with
  | top => rcases closing with ⟨_, rfl⟩ | ⟨_, rfl | rfl⟩ <;> rfl
  | branch => rcases closing with ⟨rfl, _⟩ | ⟨rfl, _⟩ <;> simp at foreign
  | @block block blocks closed =>
    rcases closing with ⟨rfl, _⟩ | ⟨_, rfl | rfl⟩
    · simp at foreign
    all_goals
      cases block with
      | branch => exact absurd rfl (closed _ _ _ _ _)
      | _ => rfl

/-- After a statement that ends in an expression, a word that is no operator and no parenthesis
of it acts on the statements read so far. -/
theorem AtStatement.step_of_plain (here : AtStatement blocks done s) {word : Lexeme}
    (plain : word.terminal.operator? = none) (closed : word.terminal ≠ .symbol .openParen) :
    s.step word = stepStatement blocks done word := by
  cases here with
  | between known => rfl
  | after holds finished =>
    rw [holds.step_complete plain closed, stepComplete_of_finish? finished]

theorem stepStatement_eq_none {word : Lexeme} (starts : word.terminal.startsStatement = false)
    (closes : word.terminal.closesBlock = false) : stepStatement blocks done word = none := by
  unfold stepStatement
  split <;> simp_all [Terminal.startsStatement, Terminal.closesBlock]

/-- A word that neither begins a statement nor closes a block fits nowhere between two. -/
theorem Between.step_eq_none {t : Token} {terminal : Terminal}
    (between : Between blocks done s (t :: ts)) (known : t.word.terminal? = some terminal)
    (starts : terminal.startsStatement = false) (closes : terminal.closesBlock = false)
    (accepted : s.situation.accepts terminal = true) (letters : List Char) (line : Nat) :
    s.step ⟨terminal, letters, line⟩ = none := by
  obtain ⟨here, apart⟩ := between
  have here' := here
  cases here' with
  | between known => exact stepStatement_eq_none starts closes
  | after holds finished =>
    have ended : Ended .disjunction s (t :: ts) := by
      rcases apart with ⟨situation, point⟩ | ended
      · obtain ⟨_, _, rests, _⟩ := holds
        cases rests <;> cases point
      · exact ended
    rw [here.step_of_plain (ended.operator?_eq_none known)
      (ended.ne_openParen holds.situation_cases known accepted)]
    exact stepStatement_eq_none starts closes

/-- Only a machine that has not seen a statement of the block yet does not look for closing
words. -/
theorem AtStatement.closable_or_fresh (here : AtStatement blocks done s) :
    Closable s ∨ s.IsFresh := by
  cases here with
  | between known =>
    rcases known with rfl | rfl | rfl
    · exact .inr (.inl rfl)
    · exact .inr (.inr rfl)
    · exact .inl closable_between
  | after holds _ => exact .inl (closable_of_holds holds)

/-- No statement begins here, and the block does not end. -/
theorem halts_statement {t : Token} (between : Between blocks done s (t :: ts))
    (encloses : Encloses closers blocks) (foreign : ∀ k, t.word = .keyword k → k ∉ closers)
    (other : ∀ terminal, t.word.terminal? = some terminal → terminal.startsStatement = false) :
    Halts s .unexpected (t :: ts) := by
  intro unmistakable
  have here := between.here
  obtain ⟨word, line, column⟩ := t
  cases word with
  | keyword k =>
    have closing : k = .endWord ∨ k = .otherwiseWord := by
      rcases unmistakable with ⟨_, same⟩ | ⟨_, closing⟩
      · cases same
      · exact closing
    rcases here.closable_or_fresh with closable | fresh
    · have outside := foreign k rfl
      refine .inl ⟨fun terminal known _ letters line => ?_, fun same _ letters line => ?_,
        fun k' same unseen => ?_, fun _ name same => by cases same⟩
      · cases known
        rw [here.step_eq (.inr (by rcases closing with rfl | rfl <;> rfl))]
        exact stepStatement_of_encloses encloses outside (by simpa using closing) letters line
      · cases same
        rw [here.step_eq (.inr rfl)]
        exact stepStatement_of_encloses encloses outside (by simp) letters line
      · cases same
        rw [closable _ (by rcases closing with rfl | rfl <;> rfl)] at unseen
        cases unseen
    · exact .inr ⟨⟨k, rfl⟩, rfl, fresh⟩
  | name name => cases other _ rfl
  | _ =>
    exact .inl ⟨fun terminal known accepted => between.step_eq_none known (other _ known)
      (by cases known <;> rfl) accepted, (by simp), (by simp), (by simp)⟩

end Between

/-! ## Statements -/

/-- The machine goes through the tokens as the reader of statements does, where one is due. -/
def TracksStmt (bound : Nat) (reader : Reader Stmt) : Prop :=
  ∀ (t : Token) (ts : List Token) (blocks : List Open) (done : List Stmt) (closers : List Keyword)
    (s : State), (t :: ts).length ≤ bound → Between blocks done s (t :: ts) →
    Encloses closers blocks → (∀ k, t.word = .keyword k → k ∉ closers) →
    t.word ≠ .symbol .semicolon →
    Tracks s (t :: ts) Prod.snd
      (fun found s' => found.2.length ≤ ts.length ∧ Between blocks (found.1 :: done) s' found.2 ∧
        Closable s') (reader (t :: ts))

section Statements

variable {bound : Nat} {statement : Reader Stmt} {condition : Reader Expr} {blocks : List Open}
  {done : List Stmt} {s : State} {ts : List Token} {closers : List Keyword}

/-- Statements up to a closing word or the end. -/
theorem tracks_sequence (statements : TracksStmt bound statement) {count : Nat}
    (enough : ts.length ≤ count) (short : ts.length ≤ bound)
    (between : Between blocks done s ts) (encloses : Encloses closers blocks) :
    Tracks s ts Prod.snd
      (fun found s' => Between blocks (found.1.reverse ++ done) s' found.2 ∧
        (s' = s ∨ Closable s') ∧ ∀ t ∈ found.2.head?, ∃ k ∈ closers, t.word = .keyword k)
      (sequence statement closers count ts) := by
  induction count generalizing ts done s with
  | zero =>
    cases List.eq_nil_of_length_eq_zero (Nat.le_zero.1 enough)
    exact tracks_ok (Nat.le_refl _) .refl ⟨between, .inl rfl, (by simp)⟩
  | succ count ih =>
    cases ts with
    | nil => exact tracks_ok (Nat.le_refl _) .refl ⟨between, .inl rfl, (by simp)⟩
    | cons t ts =>
      have fewer : ts.length ≤ count := Nat.le_of_succ_le_succ enough
      obtain ⟨word, l, c⟩ := t
      by_cases semicolon : word = .symbol .semicolon
      · cases semicolon
        have passed : Run s [⟨.symbol .semicolon, l, c⟩] ⟨blocks, done, .statement .between⟩ :=
          between.here.run_first rfl rfl rfl
        refine Tracks.after ?_ (passed.passes ts) (Nat.le_succ _)
        refine (ih fewer (Nat.le_of_succ_le short) (between_statement (.inr (.inr rfl)))).mono ?_
        rintro ⟨ss, rest⟩ s' _ ⟨between', moved, stops⟩
        exact ⟨between', .inr (closable_of_moved closable_between moved), stops⟩
      · by_cases closing : ∃ k ∈ closers, word = .keyword k
        · obtain ⟨k, listed, rfl⟩ := closing
          rw [sequence_of_stops listed]
          refine tracks_ok (Nat.le_refl _) .refl ⟨between, .inl rfl, fun u next => ?_⟩
          cases next
          exact ⟨k, listed, rfl⟩
        · have foreign : ∀ k, word = .keyword k → k ∉ closers :=
            fun k same listed => closing ⟨k, listed, same⟩
          rw [sequence_of_other semicolon fun k listed same => foreign k same listed]
          refine (statements _ ts blocks done closers s short between encloses foreign
            semicolon).bind ?_
          rintro ⟨stmt, rest⟩ s' shorter ⟨fewer', between', closable⟩
          refine (ih (Nat.le_trans fewer' fewer) (Nat.le_trans shorter short) between').bind ?_
          rintro ⟨ss, rest'⟩ s'' _ ⟨between'', moved, stops⟩
          exact tracks_ok (Nat.le_refl _) .refl
            ⟨by simpa using between'', .inr (closable_of_moved closable moved), stops⟩

/-- The statements of a block, which the machine has entered. -/
theorem tracks_block (statements : TracksStmt bound statement) {block : Open}
    (short : ts.length ≤ bound) (between : Between (block :: blocks) done s ts)
    (encloses : Encloses closers (block :: blocks)) :
    Tracks s ts Prod.snd
      (fun found s' => Between (block :: blocks) (found.1.reverse ++ done) s' found.2 ∧
        (s' = s ∨ Closable s') ∧ ∃ k ∈ closers, BeginsWith (.keyword k) found.2)
      (Descent.block statement bound closers ts) := by
  refine (tracks_sequence statements short short between encloses).bind ?_
  rintro ⟨ss, rest⟩ s' _ ⟨between', moved, stops⟩
  cases rest with
  | nil =>
    refine tracks_refuse ?_
    simp [Halts, State.finish?, between'.here.blocks_eq]
  | cons t rest =>
    obtain ⟨k, listed, same⟩ := stops t rfl
    exact tracks_ok (Nat.le_refl _) .refl
      ⟨between', moved, k, listed, same ▸ beginsWith_head rfl⟩

/-- A block that is no branch, up to its closing word. -/
theorem tracks_enclosed {α : Type} (statements : TracksStmt bound statement) {block : Open}
    (closed : ∀ before line earlier condition branchLine,
      block ≠ .branch before line earlier condition branchLine) (wrap : List Stmt → α)
    (short : ts.length ≤ bound) :
    Tracks ⟨block :: blocks, [], .statement .blockStart⟩ ts Prod.snd
      (fun found s => ∃ ss, found.1 = wrap ss ∧
        s = ⟨blocks, block.close ss.reverse, .statement .between⟩)
      (do
        let (ss, rest) ← Descent.block statement bound [.endWord] ts
        let rest ← expect (.keyword .endWord) rest
        return (wrap ss, rest)) := by
  refine (tracks_block statements short (between_statement (.inr (.inl rfl)))
    (.block closed)).bind ?_
  rintro ⟨ss, rest⟩ s _ ⟨between, moved, k, listed, begins⟩
  cases List.mem_singleton.1 listed
  have looked : s.situation.accepts (.keyword .endWord) = true := by
    rcases moved with rfl | closable
    · rfl
    · exact closable _ rfl
  refine Tracks.bind (tracks_expect (fun other => absurd begins other)
    fun l c rest' same => ⟨_, between.here.run_end looked, rfl⟩) ?_
  rintro rest' s' _ rfl
  exact tracks_ok (Nat.le_refl _) .refl ⟨ss, rfl, by simp⟩

/-- A condition, `do`, and the statements of a branch. -/
theorem tracks_branch (statements : TracksStmt bound statement)
    (conditions : TracksExpr bound .disjunction condition) {line branchLine : Nat}
    {earlier : List Branch} (short : ts.length ≤ bound) :
    Tracks ⟨blocks, done, .operand (.condition line earlier branchLine) []⟩ ts Prod.snd
      (fun found s => ∃ e ss, found.1 = .mk e ss branchLine ∧
        Between (.branch done line earlier e branchLine :: blocks) ss.reverse s found.2 ∧
        Closable s ∧
        (BeginsWith (.keyword .endWord) found.2 ∨ BeginsWith (.keyword .otherwiseWord) found.2))
      (branch statement condition bound branchLine ts) := by
  refine (conditions ts blocks done _ [] short (Nat.zero_le _) filled_nil).bind ?_
  rintro ⟨e, rest⟩ s shorter ⟨holds, ended⟩
  refine Tracks.bind (tracks_expect (fun other => (awaits_purpose holds rfl).halts_expect ended
    (by decide) (fun _ => unique_keyword) other)
    fun _ _ _ _ =>
      ⟨_, .one rfl (holds.accepts rfl) (holds.step_complete rfl (by simp)) (by simp), rfl⟩) ?_
  rintro rest' s' shorter' rfl
  refine (tracks_block statements (Nat.le_trans shorter' (Nat.le_trans shorter short))
    (between_statement (.inr (.inr rfl))) .branch).bind ?_
  rintro ⟨ss, rest''⟩ s'' _ ⟨between, moved, k, listed, begins⟩
  refine tracks_ok (Nat.le_refl _) .refl ⟨e, ss, rfl, by simpa using between,
    closable_of_moved closable_between moved, ?_⟩
  simp only [List.mem_cons, List.not_mem_nil, or_false] at listed
  rcases listed with rfl | rfl
  · exact .inl begins
  · exact .inr begins

/-- The last alternative of a choice, with the closing word. -/
theorem tracks_otherwise (statements : TracksStmt bound statement) {line branchLine l c : Nat}
    {before : List Stmt} {earlier : List Branch} {test : Expr} (short : ts.length ≤ bound)
    (here : AtStatement (.branch before line earlier test branchLine :: blocks) done s)
    (closable : Closable s) (separate : ¬ OpensBranch ts) :
    Tracks s (⟨.keyword .otherwiseWord, l, c⟩ :: ts) Prod.snd
      (fun found s' => Between blocks
        (.choose (endBranch done earlier test branchLine ++ found.1.1) found.1.2 line :: before)
        s' found.2 ∧ Closable s')
      (do
        let (last, rest) ← Descent.block statement bound [.endWord] ts
        let rest ← expect (.keyword .endWord) rest
        return (([], some last), rest)) := by
  have passed : Passes s (⟨.keyword .otherwiseWord, l, c⟩ :: ts)
      ⟨.otherwise before line (endBranch done earlier test branchLine) :: blocks, [],
        .statement .blockStart⟩ ts :=
    .word rfl (closable _ rfl) (here.step_eq (.inr rfl)) (fun _ => separate) .refl
  refine Tracks.after ?_ passed (Nat.le_succ _)
  refine (tracks_enclosed statements (by simp) (fun last => ([], some last)) short).mono ?_
  rintro ⟨found, rest⟩ s' _ ⟨ss, rfl, rfl⟩
  refine ⟨?_, closable_between⟩
  simpa [Open.close] using between_statement (.inr (.inr rfl))

/-- What follows a branch, up to the closing word of the choice. -/
theorem tracks_branchesAfter (statements : TracksStmt bound statement)
    (conditions : TracksExpr bound .disjunction condition) {left line branchLine : Nat}
    {before : List Stmt} {earlier : List Branch} {test : Expr} (enough : ts.length ≤ left)
    (short : ts.length ≤ bound)
    (between : Between (.branch before line earlier test branchLine :: blocks) done s ts)
    (closable : Closable s)
    (begins : BeginsWith (.keyword .endWord) ts ∨ BeginsWith (.keyword .otherwiseWord) ts) :
    Tracks s ts Prod.snd
      (fun found s' => Between blocks
        (.choose (endBranch done earlier test branchLine ++ found.1.1) found.1.2 line :: before)
        s' found.2 ∧ Closable s')
      (branchesAfter statement condition bound left ts) := by
  have here := between.here
  fun_induction branchesAfter statement condition bound left ts
    generalizing earlier test branchLine done s with
  | case1 left l c k line' column ts opens ih =>
    simp only [List.length_cons] at enough short
    have joined : Passes s
        (⟨.keyword .otherwiseWord, l, c⟩ :: ⟨.keyword k, line', column⟩ :: ts)
        ⟨blocks, before,
          .operand (.condition line (endBranch done earlier test branchLine) line') []⟩ ts := by
      refine .otherwiseWhen opens (closable _ rfl) (fun letters lines => ?_) .refl
      rw [here.step_eq (.inr rfl), ← lines]
      rfl
    refine Tracks.after ?_ joined (Nat.le_add_right _ 2)
    refine (tracks_branch statements conditions (by omega)).bind ?_
    rintro ⟨first, rest⟩ s' shorter ⟨e, ss, rfl, between', closable', begins'⟩
    dsimp only at shorter
    refine (ih rest (by omega) (by omega) between' closable' begins' between'.here).bind ?_
    rintro ⟨⟨more, last⟩, rest'⟩ s'' _ ⟨between'', closable''⟩
    refine tracks_ok (Nat.le_refl _) .refl ⟨?_, closable''⟩
    simpa [endBranch] using between''
  | case2 left l c k line' column ts closed =>
    exact tracks_otherwise statements (Nat.le_of_succ_le short) here closable closed
  | case3 left l c ts other =>
    refine tracks_otherwise statements (Nat.le_of_succ_le short) here closable fun opens => ?_
    cases ts with
    | nil => exact opens
    | cons t ts =>
      obtain ⟨word, l', c'⟩ := t
      cases word with
      | keyword k => exact absurd rfl (other k l' c' ts)
      | _ => exact opens
  | case4 left ts noBranch noOtherwise =>
    have closes : BeginsWith (.keyword .endWord) ts := by
      rcases begins with closes | ⟨l, c, rest, rfl⟩
      · exact closes
      · cases left with
        | zero => cases enough
        | succ left => exact absurd rfl (noOtherwise left l c rest rfl)
    refine Tracks.bind (tracks_expect (fun other => absurd closes other)
      fun l c rest same => ⟨_, here.run_end (closable _ rfl), rfl⟩) ?_
    rintro rest s' _ rfl
    refine tracks_ok (Nat.le_refl _) .refl ⟨?_, closable_between⟩
    simpa [Open.close] using between_statement (.inr (.inr rfl))

/-- A choice after its first word. -/
theorem tracks_choice (statements : TracksStmt bound statement)
    (conditions : TracksExpr bound .disjunction condition) {line : Nat}
    (short : ts.length ≤ bound) :
    Tracks ⟨blocks, done, .operand (.condition line [] line) []⟩ ts Prod.snd
      (fun found s => Between blocks (found.1 :: done) s found.2 ∧ Closable s)
      (do
        let (first, rest) ← branch statement condition bound line ts
        let ((more, last), rest) ← branchesAfter statement condition bound bound rest
        return (.choose (first :: more) last line, rest)) := by
  refine (tracks_branch statements conditions short).bind ?_
  rintro ⟨first, rest⟩ s shorter ⟨e, ss, rfl, between, closable, begins⟩
  have short' : rest.length ≤ bound := Nat.le_trans shorter short
  refine (tracks_branchesAfter statements conditions short' short' between closable begins).bind ?_
  rintro ⟨⟨more, last⟩, rest'⟩ s' _ ⟨between', closable'⟩
  refine tracks_ok (Nat.le_refl _) .refl ⟨?_, closable'⟩
  simpa [endBranch] using between'

/-- The value of a statement that ends in an expression. -/
theorem between_of_holds {purpose : Purpose} {e : Expr} {stmt : Stmt} {rest : List Token}
    (holds : Holds blocks done purpose .disjunction [] e s) (ended : Ended .disjunction s rest)
    (finished : purpose.finish? e = some stmt) :
    Between blocks (stmt :: done) s rest ∧ Closable s :=
  ⟨⟨.after holds finished, .inr ended⟩, closable_of_holds holds⟩

/-- A loop over a range after its first word. -/
theorem tracks_range (statements : TracksStmt bound statement)
    (values : TracksExpr bound .disjunction condition) {line : Nat} (short : ts.length ≤ bound) :
    Tracks ⟨blocks, done, .target .loop line⟩ ts Prod.snd
      (fun found s => Between blocks (found.1 :: done) s found.2 ∧ Closable s)
      (do
        let ((name, first), rest) ← assignment condition ts
        let rest ← expect (.keyword .toWord) rest
        let (last, rest) ← condition rest
        let rest ← expect (.keyword .doWord) rest
        let (body, rest) ← Descent.block statement bound [.endWord] rest
        let rest ← expect (.keyword .endWord) rest
        return (.range name first last body line, rest)) := by
  refine (tracks_assignment values (.first · line) short fun _ => rfl).bind ?_
  rintro ⟨⟨name, first⟩, rest⟩ s shorter ⟨holds, ended⟩
  refine Tracks.bind (tracks_expect (fun other => (awaits_purpose holds rfl).halts_expect ended
    (by decide) (fun _ => unique_keyword) other)
    fun _ _ _ _ =>
      ⟨_, .one rfl (holds.accepts rfl) (holds.step_complete rfl (by simp)) (by simp), rfl⟩) ?_
  rintro rest' s' shorter' rfl
  dsimp only [id] at shorter shorter'
  refine (values rest' blocks done (.last name first line) [] (by omega) (Nat.zero_le _)
    filled_nil).bind ?_
  rintro ⟨last, rest''⟩ s'' shorter'' ⟨holds', ended'⟩
  refine Tracks.bind (tracks_expect (fun other => (awaits_purpose holds' rfl).halts_expect ended'
    (by decide) (fun _ => unique_keyword) other)
    fun _ _ _ _ =>
      ⟨_, .one rfl (holds'.accepts rfl) (holds'.step_complete rfl (by simp)) (by simp), rfl⟩) ?_
  rintro rest₃ s₃ shorter₃ rfl
  dsimp only [id] at shorter'' shorter₃
  have short' : rest₃.length ≤ bound := by omega
  refine (tracks_enclosed statements (by simp) (Stmt.range name first last · line) short').mono ?_
  rintro ⟨found, rest₄⟩ s₄ _ ⟨ss, rfl, rfl⟩
  refine ⟨?_, closable_between⟩
  simpa [Open.close] using between_statement (.inr (.inr rfl))

/-- A loop with a condition after its first word. -/
theorem tracks_whilst (statements : TracksStmt bound statement)
    (values : TracksExpr bound .disjunction condition) {line : Nat} (short : ts.length ≤ bound) :
    Tracks ⟨blocks, done, .condition line⟩ ts Prod.snd
      (fun found s => Between blocks (found.1 :: done) s found.2 ∧ Closable s)
      (do
        let rest ← expect (.symbol .openParen) ts
        let (test, rest) ← condition rest
        let rest ← expect (.symbol .closeParen) rest
        let rest ← expect (.keyword .doWord) rest
        let (body, rest) ← Descent.block statement bound [.endWord] rest
        let rest ← expect (.keyword .endWord) rest
        return (.whilst test body line, rest)) := by
  refine Tracks.bind (tracks_expect (fun other => halts_due (fun _ => rfl) (by decide)
    (by simp [State.finish?]) (fun _ => unique_symbol) (fun due => by cases due) other)
    fun _ _ _ _ =>
      ⟨⟨blocks, done, .operand (.whilst line) []⟩, .one rfl rfl rfl (by simp), rfl⟩) ?_
  rintro rest s shorter rfl
  dsimp only [id] at shorter
  refine (values rest blocks done (.whilst line) [] (by omega) (Nat.zero_le _) filled_nil).bind ?_
  rintro ⟨test, rest₁⟩ s₁ shorter₁ ⟨holds, ended⟩
  refine Tracks.bind (tracks_expect (fun other => (awaits_purpose holds rfl).halts_expect ended
    (by decide) (fun _ => unique_symbol) other) fun _ _ _ _ =>
      ⟨_, .one rfl (holds.accepts rfl) (holds.step_complete rfl (by simp)) (by simp), rfl⟩) ?_
  rintro rest₂ s₂ shorter₂ rfl
  refine Tracks.bind (tracks_expect (fun other => halts_due (fun _ => rfl) (by decide)
    (by simp [State.finish?]) (fun _ => unique_keyword) (fun _ => rfl) other)
    fun _ _ _ _ => ⟨⟨.whilst done test line :: blocks, [], .statement .blockStart⟩,
      .one rfl rfl rfl (by simp), rfl⟩) ?_
  rintro rest₃ s₃ shorter₃ rfl
  dsimp only [id] at shorter₁ shorter₂ shorter₃
  have short' : rest₃.length ≤ bound := by omega
  refine (tracks_enclosed statements (by simp) (Stmt.whilst test · line) short').mono ?_
  rintro ⟨found, rest₄⟩ s₄ _ ⟨ss, rfl, rfl⟩
  refine ⟨?_, closable_between⟩
  simpa [Open.close] using between_statement (.inr (.inr rfl))

/-- A word, a name, `=` and the value that ends the statement. -/
theorem tracks_valued {k : Keyword} {target : Target} {line column : Nat}
    (values : TracksExpr bound .disjunction condition) (short : ts.length ≤ bound)
    (here : AtStatement blocks done s) (purpose : String → Purpose) (make : String → Expr → Stmt)
    (starts : (Terminal.keyword k).startsStatement = true)
    (stepped : stepStatement blocks done ⟨.keyword k, k.letters, line⟩ =
      some ⟨blocks, done, .target target line⟩)
    (made : ∀ name, stepTarget blocks done target line name =
      ⟨blocks, done, .assignment (purpose name)⟩)
    (finished : ∀ name e, (purpose name).finish? e = some (make name e)) :
    Tracks s (⟨.keyword k, line, column⟩ :: ts) Prod.snd
      (fun found s' => found.2.length ≤ ts.length ∧ Between blocks (found.1 :: done) s' found.2 ∧
        Closable s')
      (do
        let ((name, found), rest) ← assignment condition ts
        return (make name found, rest)) := by
  have first : Run s [⟨.keyword k, line, column⟩] ⟨blocks, done, .target target line⟩ :=
    here.run_first rfl starts stepped
  refine Tracks.after_token ?_ first
  refine (tracks_assignment values purpose short made).bind ?_
  rintro ⟨⟨name, e⟩, rest⟩ s' _ ⟨holds, ended⟩
  exact tracks_ok (Nat.le_refl _) .refl (between_of_holds holds ended (finished name e))

/-- A word and the value that ends the statement. -/
theorem tracks_shown {k : Keyword} {purpose : Purpose} {line column : Nat}
    (values : TracksExpr bound .disjunction condition) (short : ts.length ≤ bound)
    (here : AtStatement blocks done s) (make : Expr → Stmt)
    (starts : (Terminal.keyword k).startsStatement = true)
    (stepped : stepStatement blocks done ⟨.keyword k, k.letters, line⟩ =
      some ⟨blocks, done, .operand purpose []⟩)
    (finished : ∀ e, purpose.finish? e = some (make e)) :
    Tracks s (⟨.keyword k, line, column⟩ :: ts) Prod.snd
      (fun found s' => found.2.length ≤ ts.length ∧ Between blocks (found.1 :: done) s' found.2 ∧
        Closable s')
      (do
        let (found, rest) ← condition ts
        return (make found, rest)) := by
  have first : Run s [⟨.keyword k, line, column⟩] ⟨blocks, done, .operand purpose []⟩ :=
    here.run_first rfl starts stepped
  refine Tracks.after_token ?_ first
  refine (values ts blocks done purpose [] short (Nat.zero_le _) filled_nil).bind ?_
  rintro ⟨e, rest⟩ s' _ ⟨holds, ended⟩
  exact tracks_ok (Nat.le_refl _) .refl (between_of_holds holds ended (finished e))

end Statements

/-- The machine takes the words that begin a statement, and semicolons. -/
theorem startsStatement_eq_false {word : Word} {terminal : Terminal}
    (known : word.terminal? = some terminal) (other : word.opensStatement = false)
    (plain : word ≠ .symbol .semicolon) : terminal.startsStatement = false := by
  cases word with
  | keyword k =>
    cases known
    cases k <;> first | rfl | cases other
  | symbol mark =>
    cases known
    cases mark with
    | semicolon => exact absurd rfl plain
    | _ => rfl
  | name name => cases other
  | _ => cases known <;> rfl

/-- The machine goes through every statement as the parser does.  The cases are the words that a
statement begins with. -/
theorem tracksStmt_statement (bound room : Nat) : TracksStmt bound (statement bound room) := by
  induction room with
  | zero => exact fun t ts blocks done closers s _ _ _ _ _ => tracks_tooDeep
  | succ room ih =>
    intro t ts blocks done closers s short between encloses foreign plain
    have here := between.here
    have short' : ts.length ≤ bound := Nat.le_of_succ_le short
    have values : TracksExpr bound .disjunction (expression bound room .disjunction) :=
      fun _ _ _ _ _ short weak filled =>
        tracks_expression bound room .disjunction short weak filled (by simp)
    have refused (other : t.word.opensStatement = false) :
        Tracks s (t :: ts) Prod.snd
          (fun found s' => found.2.length ≤ ts.length ∧
            Between blocks (found.1 :: done) s' found.2 ∧ Closable s')
          (statement bound (room + 1) (t :: ts)) := by
      rw [statement_of_other (by rintro u ⟨⟩; exact other)]
      exact tracks_refuse (halts_statement between encloses foreign fun _ known =>
        startsStatement_eq_false known other plain)
    obtain ⟨word, line, column⟩ := t
    cases word with
    | name name =>
      have first : Run s [⟨.name name, line, column⟩]
          ⟨blocks, done, .assignment (.assign name line)⟩ :=
        here.run_first rfl rfl (by simp [stepStatement, Word.spelling])
      refine Tracks.after_token ?_ first
      refine Tracks.bind (tracks_assigned values short') ?_
      rintro ⟨⟨name', e⟩, rest⟩ s' _ ⟨rfl, holds, ended⟩
      exact tracks_ok (Nat.le_refl _) .refl (between_of_holds holds ended rfl)
    | keyword k =>
      cases k with
      | setWord =>
        exact tracks_valued values short' here (.declare · false _) (.declare · · false _) rfl rfl
          (fun _ => rfl) fun _ _ => rfl
      | keepWord =>
        exact tracks_valued values short' here (.declare · true _) (.declare · · true _) rfl rfl
          (fun _ => rfl) fun _ _ => rfl
      | changeWord =>
        exact tracks_valued values short' here (.assign · _) (.assign · · _) rfl rfl
          (fun _ => rfl) fun _ _ => rfl
      | sayWord => exact tracks_shown values short' here (.say · _) rfl rfl fun _ => rfl
      | showWord => exact tracks_shown values short' here (.display · _) rfl rfl fun _ => rfl
      | askWord =>
        have first : Run s [⟨.keyword .askWord, line, column⟩]
            ⟨blocks, done, .target .ask line⟩ := here.run_first rfl rfl rfl
        refine Tracks.after_token ?_ first
        refine tracks_expectName.bind ?_
        rintro ⟨name, rest⟩ s' _ rfl
        exact tracks_ok (Nat.le_refl _) .refl
          ⟨between_statement (.inr (.inr rfl)), closable_between⟩
      | whenWord | checkWord =>
        exact (tracks_choice ih values short').after_token (here.run_first rfl rfl rfl)
      | loopWord => exact (tracks_range ih values short').after_token (here.run_first rfl rfl rfl)
      | repeatWord =>
        exact (tracks_whilst ih values short').after_token (here.run_first rfl rfl rfl)
      | breakWord | continueWord =>
        exact tracks_ok (Nat.le_succ _) ((here.run_first rfl rfl rfl).passes ts)
          ⟨Nat.le_refl _, between_statement (.inr (.inr rfl)), closable_between⟩
      | _ => exact refused rfl
    | _ => exact refused rfl

/-- The machine goes through the tokens of a source as the descent parser does. -/
theorem tracks_program (room : Nat) (ts : List Token) :
    Tracks {} ts (fun _ => []) (fun p s => s.finish? = some p.body.reverse) (program room ts) := by
  refine (tracks_sequence (tracksStmt_statement ts.length room) (Nat.le_refl _) (Nat.le_refl _)
    (between_statement (.inl rfl)) .top).bind ?_
  rintro ⟨ss, rest⟩ s _ ⟨between, _, stops⟩
  cases rest with
  | nil =>
    refine tracks_ok (Nat.le_refl _) .refl ?_
    simpa using between.here.finish?_eq
  | cons t rest =>
    obtain ⟨k, listed, _⟩ := stops t rfl
    cases listed

/-! ## Before the first statement of a block -/

section Fresh

variable {word : Lexeme} {s s' : State}

/-- Only the words that open a block bring the machine before its first statement. -/
theorem opener_of_step (step : Step word s s') (fresh : s'.IsFresh) :
    word.terminal = .keyword .doWord ∨ word.terminal = .keyword .otherwiseWord := by
  induction step with
  | enter read | branch read | range read => exact .inl read
  | otherwise read => exact .inr read
  | bare _ _ ih | finish _ _ _ ih => exact ih fresh
  | _ => rcases fresh with same | same <;> cases same

/-- Before the first statement of a block the machine has just passed the word that opens it. -/
theorem Passes.eq_or_opened {ts us : List Token} (passes : Passes s ts s' us)
    (ascend : ts.Pairwise fun t u => t.line ≤ u.line) (fresh : s'.IsFresh) :
    ts = us ∨ ∃ before t, ts = before ++ t :: us ∧
      (t.word = .keyword .doWord ∨ t.word = .keyword .otherwiseWord) := by
  suffices found : s = s' ∧ ts = us ∨ ∃ before t, ts = before ++ t :: us ∧
      (t.word = .keyword .doWord ∨ t.word = .keyword .otherwiseWord) by
    rcases found with ⟨_, same⟩ | opened
    · exact .inl same
    · exact .inr opened
  induction passes with
  | refl => exact .inl ⟨rfl, rfl⟩
  | @word s s' s'' t ts us terminal known accepted stepped apart more ih =>
    rcases ih ascend.of_cons fresh with ⟨rfl, rfl⟩ | ⟨before, u, rfl, opens⟩
    · refine .inr ⟨[], t, rfl, ?_⟩
      rcases opener_of_step (.of_step stepped) fresh with same | same
      · exact .inl (unique_keyword (same ▸ known))
      · exact .inr (unique_keyword (same ▸ known))
    · exact .inr ⟨t :: before, u, rfl, opens⟩
  | @otherwiseWhen s s' s'' ts us k l c line column opens accepted stepped more ih =>
    rcases ih ascend.of_cons.of_cons fresh with ⟨rfl, rfl⟩ | ⟨before, u, rfl, opens'⟩
    · have later : l ≤ line := (List.pairwise_cons.1 ascend).1 _ (.head _)
      have stepped' := stepped (List.replicate (line - l) '\n') (by simp; omega)
      rcases opener_of_step (.of_step stepped') fresh with same | same <;> cases same
    · exact .inr ⟨_ :: _ :: before, u, rfl, opens'⟩

end Fresh

end Parlance.Contextual
