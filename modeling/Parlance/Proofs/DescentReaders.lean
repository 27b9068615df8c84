import Parlance.Descent.Statement
import Parlance.Proofs.Grammar

/-!
# The readers by the next word

What a reader of the descent parser does is settled by the next word or two.  There is one lemma for
each reader and each sort of word: what the reader amounts to where the word is one that it looks
for (`expect_self`, `statement_name`), and what it amounts to where the word is none of these
(`expect_of_other`, `statement_of_other`).

All that is said of the parser elsewhere is said by way of these lemmas or along the definition of a
reader, case by case.
-/

namespace Parlance.Descent

/-! ## Attempts -/

theorem bind_eq_ok {α β : Type} {first : Attempt α} {next : α → Attempt β} {result : β} :
    (first >>= next) = .ok result ↔ ∃ found, first = .ok found ∧ next found = .ok result := by
  cases first with
  | error refusal => simp [bind, Except.bind]
  | ok found => simp [bind, Except.bind]

theorem refuse_ne_ok {α : Type} {ts : List Token} {complaint : Complaint} {result : α} :
    refuse ts complaint ≠ .ok result := by
  simp [refuse]

/-! ## The next word -/

/-- The tokens begin with the given word. -/
def BeginsWith (word : Word) (ts : List Token) : Prop :=
  ∃ line column rest, ts = ⟨word, line, column⟩ :: rest

theorem beginsWith_head {t : Token} {ts : List Token} (next : t ∈ ts.head?) :
    BeginsWith t.word ts := by
  cases ts with
  | nil => cases next
  | cons u rest =>
    cases next
    exact ⟨t.line, t.column, rest, rfl⟩

/-- A branch opens at a word that opens one. -/
theorem opensBranch_iff {ts : List Token} :
    OpensBranch ts ↔ ∃ k : Keyword, k.opensBranch ∧ BeginsWith (.keyword k) ts := by
  constructor
  · intro opens
    unfold OpensBranch at opens
    split at opens
    · next k l c us => exact ⟨k, opens, l, c, us, rfl⟩
    · exact opens.elim
  · rintro ⟨k, opens, l, c, us, rfl⟩
    exact opens

/-! ## Single words -/

@[simp]
theorem expect_self (word : Word) (line column : Nat) (rest : List Token) :
    expect word (⟨word, line, column⟩ :: rest) = .ok rest := by
  simp [expect]

/-- Where another word stands, the word is missed. -/
theorem expect_of_other {word : Word} {ts : List Token} (other : ¬ BeginsWith word ts) :
    expect word ts = refuse ts (.expectedWord word) := by
  cases ts with
  | nil => rfl
  | cons t ts =>
    have apart : t.word ≠ word := by
      rintro rfl
      exact other (beginsWith_head rfl)
    rw [expect, if_neg apart]

/-- A word that has been taken was in front. -/
theorem expect_eq_ok {word : Word} {ts rest : List Token} (taken : expect word ts = .ok rest) :
    ∃ line column, ts = ⟨word, line, column⟩ :: rest := by
  by_cases begins : BeginsWith word ts
  · obtain ⟨line, column, rest', rfl⟩ := begins
    rw [expect_self] at taken
    cases taken
    exact ⟨line, column, rfl⟩
  · rw [expect_of_other begins] at taken
    exact absurd taken refuse_ne_ok

theorem expectName_of_other {ts : List Token} (other : ¬ ∃ s, BeginsWith (.name s) ts) :
    expectName ts = refuse ts .expectedName := by
  unfold expectName
  split
  · next s line column rest => exact absurd ⟨s, line, column, rest, rfl⟩ other
  · rfl

/-- A name that has been taken was in front. -/
theorem expectName_eq_ok {name : String} {ts rest : List Token}
    (taken : expectName ts = .ok (name, rest)) :
    ∃ line column, ts = ⟨.name name, line, column⟩ :: rest := by
  by_cases begins : ∃ s, BeginsWith (.name s) ts
  · obtain ⟨s, line, column, rest', rfl⟩ := begins
    cases taken
    exact ⟨line, column, rfl⟩
  · rw [expectName_of_other begins] at taken
    exact absurd taken refuse_ne_ok

/-! ## Expressions -/

/-- A chain ends where none of its operators stands. -/
theorem chainAfter_of_none {operand : Reader Expr} {level : Level} {bound : Nat} {e : Expr}
    {rest : List Token} (none : ∀ t ∈ rest.head?, level.operator? t.word = none) :
    chainAfter operand level bound e rest = .ok (e, rest) := by
  cases bound with
  | zero => rfl
  | succ bound =>
    cases rest with
    | nil => rfl
    | cons t rest => rw [chainAfter, none t rfl]

/-- Arguments that do not close at once begin with an expression. -/
theorem arguments_of_open {operand : Reader Expr} {bound : Nat} {ts : List Token}
    (other : ¬ BeginsWith (.symbol .closeParen) ts) :
    arguments operand bound ts = (do
      let (arg, rest) ← operand ts
      let (args, rest) ← argumentsAfter operand bound rest
      return (arg :: args, rest)) := by
  unfold arguments
  split
  · next line column rest => exact absurd ⟨line, column, rest, rfl⟩ other
  · rfl

theorem argumentsAfter_close (operand : Reader Expr) (left line column : Nat) (rest : List Token) :
    argumentsAfter operand left (⟨.symbol .closeParen, line, column⟩ :: rest) = .ok ([], rest) := by
  rw [argumentsAfter]
  · rw [expect_self]
    rfl
  · simp

theorem argumentsAfter_comma {operand : Reader Expr} {count l c : Nat} {ts : List Token} :
    argumentsAfter operand (count + 1) (⟨.symbol .comma, l, c⟩ :: ts) =
      operand ts >>= fun arg => argumentsAfter operand count arg.2 >>= fun args =>
        pure (arg.1 :: args.1, args.2) :=
  rfl

/-- Without a comma the arguments have to close. -/
theorem argumentsAfter_of_other {operand : Reader Expr} {count : Nat} {ts : List Token}
    (other : ¬ BeginsWith (.symbol .comma) ts) :
    argumentsAfter operand count ts = (do
      let rest ← expect (.symbol .closeParen) ts
      return ([], rest)) := by
  unfold argumentsAfter
  split
  · next l c us => exact absurd ⟨l, c, us, rfl⟩ other
  · rfl

/-- A name that no call follows. -/
theorem atom_name {inner : Reader Expr} {bound line column : Nat} {s : String} {rest : List Token}
    (plain : ¬ BeginsWith (.symbol .openParen) rest) :
    atom inner bound (⟨.name s, line, column⟩ :: rest) = .ok (.name s line, rest) := by
  rw [atom]
  exact fun l c after same => plain ⟨l, c, after, same⟩

theorem atom_of_other {expression : Reader Expr} {bound : Nat} {ts : List Token}
    (other : ∀ t ∈ ts.head?, t.word.opensOperand .atom = false) :
    atom expression bound ts = refuse ts .notAnOperand := by
  unfold atom
  split
  all_goals first | rfl | cases other _ rfl

/-- The level is made by binary operators. -/
def Level.isBinary : Level → Bool
  | .negation | .sign | .atom => false
  | _ => true

theorem expression_zero (bound : Nat) (level : Level) (ts : List Token) :
    expression bound 0 level ts = refuse ts .tooDeep := by
  cases level <;> rfl

theorem expression_of_isBinary {level : Level} (binary : level.isBinary = true) (bound room : Nat)
    (ts : List Token) :
    expression bound (room + 1) level ts =
      chain (expression bound room level.tighter) level bound ts := by
  cases level <;> first | rfl | cases binary

theorem expression_negation {bound room : Nat} {ts : List Token}
    (plain : ¬ BeginsWith (.keyword .notWord) ts) :
    expression bound (room + 1) .negation ts = expression bound room .equality ts := by
  rw [expression]
  exact fun line column rest same => plain ⟨line, column, rest, same⟩

theorem expression_sign {bound room : Nat} {ts : List Token}
    (plain : ¬ BeginsWith (.symbol .minus) ts) :
    expression bound (room + 1) .sign ts = expression bound room .atom ts := by
  rw [expression]
  exact fun line column rest same => plain ⟨line, column, rest, same⟩

/-! ## Statements -/

theorem sequence_of_nil (statement : Reader Stmt) (closers : List Keyword) (left : Nat) :
    sequence statement closers left [] = .ok ([], []) := by
  cases left <;> rfl

theorem sequence_of_stops {statement : Reader Stmt} {closers : List Keyword} {left : Nat}
    {closer : Keyword} {line column : Nat} {rest : List Token} (listed : closer ∈ closers) :
    sequence statement closers left (⟨.keyword closer, line, column⟩ :: rest) =
      .ok ([], ⟨.keyword closer, line, column⟩ :: rest) := by
  cases left with
  | zero => rfl
  | succ left => simp [sequence, listed]

/-- A word that neither separates statements nor closes the sequence has to open a statement. -/
theorem sequence_of_other {statement : Reader Stmt} {closers : List Keyword} {count l c : Nat}
    {w : Word} {ts : List Token} (separate : w ≠ .symbol .semicolon)
    (unlisted : ∀ k ∈ closers, w ≠ .keyword k) :
    sequence statement closers (count + 1) (⟨w, l, c⟩ :: ts) = (do
      let (first, rest) ← statement (⟨w, l, c⟩ :: ts)
      let (more, rest) ← sequence statement closers count rest
      return (first :: more, rest)) := by
  cases w with
  | keyword k =>
    have other : k ∉ closers := fun listed => unlisted k listed rfl
    simp [sequence, other]
  | symbol mark =>
    cases mark with
    | semicolon => exact absurd rfl separate
    | _ => rfl
  | _ => rfl

/-- `otherwise` and `when` or `check` begin one more branch. -/
theorem branchesAfter_branch {statement : Reader Stmt} {condition : Reader Expr} {k : Keyword}
    {bound count line l c column : Nat} {ts : List Token} (opens : k.opensBranch) :
    branchesAfter statement condition bound (count + 1)
      (⟨.keyword .otherwiseWord, l, c⟩ :: ⟨.keyword k, line, column⟩ :: ts) = (do
        let (first, rest) ← branch statement condition bound line ts
        let ((more, last), rest) ← branchesAfter statement condition bound count rest
        return ((first :: more, last), rest)) := by
  have opened : k = .whenWord ∨ k = .checkWord := opens
  rw [branchesAfter, if_pos opened]

/-- `otherwise` alone begins the last alternative. -/
theorem branchesAfter_otherwise {statement : Reader Stmt} {condition : Reader Expr}
    {bound left l c : Nat} {ts : List Token} (separate : ¬ OpensBranch ts) :
    branchesAfter statement condition bound (left + 1) (⟨.keyword .otherwiseWord, l, c⟩ :: ts) =
      (do
        let (last, rest) ← block statement bound [.endWord] ts
        let rest ← expect (.keyword .endWord) rest
        return (([], some last), rest)) := by
  cases ts with
  | nil => rfl
  | cons t ts =>
    obtain ⟨word, line, column⟩ := t
    cases word with
    | keyword k =>
      have apart : ¬ (k = .whenWord ∨ k = .checkWord) := separate
      rw [branchesAfter, if_neg apart]
    | _ => rfl

/-- Without `otherwise` the choice has to end. -/
theorem branchesAfter_of_other {statement : Reader Stmt} {condition : Reader Expr}
    {bound count : Nat} {ts : List Token} (other : ¬ BeginsWith (.keyword .otherwiseWord) ts) :
    branchesAfter statement condition bound count ts = (do
      let rest ← expect (.keyword .endWord) ts
      return (([], none), rest)) := by
  unfold branchesAfter
  split
  · next l c k l' c' us => exact absurd ⟨l, c, _, rfl⟩ other
  · next l c us _ => exact absurd ⟨l, c, us, rfl⟩ other
  · rfl

/-- `end` ends the choice. -/
theorem branchesAfter_end {statement : Reader Stmt} {condition : Reader Expr}
    {bound left l c : Nat} {rest : List Token} :
    branchesAfter statement condition bound left (⟨.keyword .endWord, l, c⟩ :: rest) =
      .ok (([], none), rest) := by
  rw [branchesAfter_of_other, expect_self]
  · rfl
  · rintro ⟨line, column, after, same⟩
    cases same

/-- A statement that begins with a name is an assignment. -/
theorem statement_name {bound room l c : Nat} {s : String} {ts : List Token} :
    statement bound (room + 1) (⟨.name s, l, c⟩ :: ts) = (do
      let rest ← expect (.symbol .assign) ts
      let (found, rest) ← expression bound room .disjunction rest
      return (.assign s found l, rest)) := by
  change ((expect (.symbol .assign) ts >>= fun rest =>
    expression bound room .disjunction rest >>= fun r => pure ((s, r.1), r.2)) >>= fun r =>
      pure (Stmt.assign r.1.1 r.1.2 l, r.2)) = _
  simp only [bind_assoc, pure_bind]

theorem statement_of_other {bound room : Nat} {ts : List Token}
    (other : ∀ t ∈ ts.head?, t.word.opensStatement = false) :
    statement bound (room + 1) ts = refuse ts .unexpected := by
  rw [statement.eq_def]
  dsimp only
  split
  all_goals first | rfl | cases other _ rfl

end Parlance.Descent
