import Parlance.Proofs.DescentCompleteness

/-!
# How much room the descent parser needs

The readers of the descent parser have two limits that the grammar knows nothing of: a bound on the
rounds of a loop and room for nesting.  Every statement and every expression takes a token
(`Shortens`), so a bound that is no less than the number of tokens is never reached, and on so many
tokens the nesting goes only so deep.

`Repeats` says this of two attempts, the second with other sufficient bounds and no less room: it
ends like the first one, unless the first ran out of room, and what stands in front when an attempt
ends is an end of the tokens.  The lemmas go from the readers inside to the one around them.
-/

namespace Parlance.Descent

/-! ## Readers that take a token -/

/-- What a reader leaves is shorter than what it was given. -/
def Shortens {α : Type} (reader : Reader α) : Prop :=
  ∀ {ts : List Token} {found : α} {rest : List Token}, reader ts = .ok (found, rest) →
    rest.length < ts.length

/-- A reader of phrases that are never empty takes a token at least. -/
theorem Takes.shortens {α : Type} {reader : Reader α} {phrase : α → Phrase}
    (takes : Takes reader phrase) (some : ∀ found, ¬ Derives [] (phrase found)) :
    Shortens reader := by
  intro ts found rest taken
  obtain ⟨used, rfl, derived⟩ := takes taken
  cases used with
  | nil => exact absurd derived (some found)
  | cons t used =>
    simp only [List.length_append, List.length_cons]
    omega

theorem shortens_expression (bound room : Nat) (level : Level) :
    Shortens (expression bound room level) := by
  refine Takes.shortens (takes_expression bound room level) fun e derived => ?_
  obtain ⟨t, rest, same, _⟩ := derived.opening
  cases same

theorem shortens_statement (bound room : Nat) : Shortens (statement bound room) := by
  refine Takes.shortens (takes_statement bound room) fun s derived => ?_
  obtain ⟨t, rest, same, _⟩ := derived.opening
  cases same

theorem shortens_branch {bound room line : Nat} : Shortens
    (branch (statement bound room) (expression bound room .disjunction) bound line) := by
  intro ts found rest taken
  obtain ⟨test, inside, e, ss, l, c, rfl, rfl, _, _⟩ :=
    takes_branch (takes_statement bound room) (takes_expression bound room .disjunction) taken
  simp only [List.length_append, List.length_cons]
  omega

/-! ## Bounds on the rounds of a loop -/

/-- Both bounds suffice for the tokens, or they are the same. -/
def Fit (ts : List Token) (bound bound' : Nat) : Prop :=
  bound = bound' ∨ ts.length ≤ bound ∧ ts.length ≤ bound'

section Fit

variable {t : Token} {ts us : List Token} {bound bound' : Nat}

theorem Fit.mono (fit : Fit ts bound bound') (fewer : us.length ≤ ts.length) :
    Fit us bound bound' := by
  unfold Fit at *
  omega

theorem Fit.exists_succ (fit : Fit (t :: ts) (bound + 1) bound') : ∃ n, bound' = n + 1 := by
  unfold Fit at fit
  simp only [List.length_cons] at fit
  exact ⟨bound' - 1, by omega⟩

theorem Fit.next (fit : Fit ts (bound + 1) (bound' + 1)) (fewer : us.length < ts.length) :
    Fit us bound bound' := by
  unfold Fit at *
  omega

/-- Where there are no rounds, there are no tokens or there are none on both sides. -/
theorem Fit.of_zero (fit : Fit ts 0 bound') : bound' = 0 ∨ ts = [] := by
  rcases fit with rfl | ⟨none, _⟩
  · exact .inl rfl
  · exact .inr (List.eq_nil_of_length_eq_zero (Nat.le_zero.1 none))

end Fit

/-! ## One attempt like another -/

/-- The second attempt ends like the first one, within the tokens.  The first can run out of room
only if it `lacks` some, and then the second may go on if it has `more`. -/
inductive Repeats {α : Type} (lacks more : Prop) (ts : List Token) (rest : α → List Token) :
    Attempt α → Attempt α → Prop
  | done {found : α} (within : rest found <:+ ts) : Repeats lacks more ts rest (.ok found)
      (.ok found)
  | refused {left : List Token} {complaint : Complaint} (within : left <:+ ts)
      (deep : complaint = .tooDeep → lacks) : Repeats lacks more ts rest (refuse left complaint)
      (refuse left complaint)
  | goesOn {left : List Token} {attempt : Attempt α} (within : left <:+ ts) (deep : lacks)
      (roomier : more) : Repeats lacks more ts rest (refuse left .tooDeep) attempt

/-- The second reader does like the first one from all places in the tokens. -/
def RepeatsOn {α : Type} (lacks more : Prop) (ts : List Token) (reader reader' : Reader α) : Prop :=
  ∀ us, us <:+ ts → Repeats lacks more ts Prod.snd (reader us) (reader' us)

section Repeats

variable {α β : Type} {lacks lacks' more more' : Prop} {ts us : List Token}

/-- An attempt that is repeated within fewer tokens is so within more. -/
theorem Repeats.mono {rest : α → List Token} {attempt attempt' : Attempt α}
    (repeats : Repeats lacks more us rest attempt attempt') (within : us <:+ ts)
    (lack : lacks → lacks') (room : more → more') :
    Repeats lacks' more' ts rest attempt attempt' := by
  cases repeats with
  | done inside => exact .done (inside.trans within)
  | refused inside deep => exact .refused (inside.trans within) fun same => lack (deep same)
  | goesOn inside deep roomier => exact .goesOn (inside.trans within) (lack deep) (room roomier)

/-- Attempts in a row are repeated if each of them is. -/
theorem Repeats.bind {rest : α → List Token} {rest' : β → List Token} {first first' : Attempt α}
    {next next' : α → Attempt β} (repeats : Repeats lacks more ts rest first first')
    (onward : ∀ {found}, first = .ok found → rest found <:+ ts →
      Repeats lacks more ts rest' (next found) (next' found)) :
    Repeats lacks more ts rest' (first >>= next) (first' >>= next') := by
  cases repeats with
  | done within => exact onward rfl within
  | refused within deep => exact .refused within deep
  | goesOn within deep roomier => exact .goesOn within deep roomier

theorem repeats_refuse {rest : α → List Token} {complaint : Complaint} (within : us <:+ ts)
    (shallow : complaint ≠ .tooDeep) :
    Repeats lacks more ts rest (refuse us complaint) (refuse us complaint) :=
  .refused within fun same => absurd same shallow

/-- Expecting a word does not depend on the room. -/
theorem repeats_expect {word : Word} (within : us <:+ ts) :
    Repeats lacks more ts id (expect word us) (expect word us) := by
  by_cases begins : BeginsWith word us
  · obtain ⟨line, column, rest, rfl⟩ := begins
    rw [expect_self]
    exact .done ((List.suffix_cons _ rest).trans within)
  · rw [expect_of_other begins]
    exact repeats_refuse within (by simp)

theorem repeats_expectName : RepeatsOn lacks more ts expectName expectName := by
  intro us within
  by_cases begins : ∃ s, BeginsWith (.name s) us
  · obtain ⟨s, line, column, rest, rfl⟩ := begins
    exact .done ((List.suffix_cons _ rest).trans within)
  · rw [expectName_of_other begins]
    exact repeats_refuse within (by simp)

theorem RepeatsOn.imp {reader reader' : Reader α} (repeats : RepeatsOn lacks more ts reader reader')
    (lack : lacks → lacks') (room : more → more') : RepeatsOn lacks' more' ts reader reader' :=
  fun us within => (repeats us within).mono (List.suffix_refl ts) lack room

end Repeats

/-! ## Expressions -/

section Expressions

variable {lacks more : Prop} {ts us : List Token} {operand operand' : Reader Expr}
  {bound bound' : Nat}

/-- A chain is repeated if its operands are: each of them takes a token, so either bound on their
number suffices. -/
theorem repeats_chainAfter {level : Level} (operands : RepeatsOn lacks more ts operand operand')
    (shortens : Shortens operand) (within : us <:+ ts) (fit : Fit us bound bound') (left : Expr) :
    Repeats lacks more ts Prod.snd (chainAfter operand level bound left us)
      (chainAfter operand' level bound' left us) := by
  induction bound generalizing bound' us left with
  | zero =>
    rcases fit.of_zero with rfl | rfl
    · exact .done within
    · rw [chainAfter_of_none (by simp), chainAfter_of_none (by simp)]
      exact .done within
  | succ bound ih =>
    cases us with
    | nil =>
      rw [chainAfter_of_none (by simp), chainAfter_of_none (by simp)]
      exact .done within
    | cons t us =>
      obtain ⟨bound', rfl⟩ := fit.exists_succ
      rw [chainAfter, chainAfter]
      cases level.operator? t.word with
      | none => exact .done within
      | some op =>
        refine (operands us ((List.suffix_cons t us).trans within)).bind fun taken within' => ?_
        have fewer := shortens taken
        exact ih within' (fit.next (Nat.lt_succ_of_lt fewer)) _

theorem repeats_chain {level : Level} (operands : RepeatsOn lacks more ts operand operand')
    (shortens : Shortens operand) (fit : Fit ts bound bound') :
    RepeatsOn lacks more ts (chain operand level bound) (chain operand' level bound') := by
  intro us within
  refine (operands us within).bind fun taken within' => ?_
  exact repeats_chainAfter operands shortens within' (fit.mono within'.length_le) _

/-- Further arguments are repeated if each of them is. -/
theorem repeats_argumentsAfter (operands : RepeatsOn lacks more ts operand operand')
    (shortens : Shortens operand) (within : us <:+ ts) (fit : Fit us bound bound') :
    Repeats lacks more ts Prod.snd (argumentsAfter operand bound us)
      (argumentsAfter operand' bound' us) := by
  have last {us : List Token} (within : us <:+ ts) (other : ¬ BeginsWith (.symbol .comma) us)
      (bound bound' : Nat) : Repeats lacks more ts Prod.snd (argumentsAfter operand bound us)
        (argumentsAfter operand' bound' us) := by
    rw [argumentsAfter_of_other other, argumentsAfter_of_other other]
    exact (repeats_expect within).bind fun _ within' => .done within'
  induction bound generalizing bound' us with
  | zero =>
    rcases fit.of_zero with rfl | rfl
    · exact (repeats_expect within).bind fun _ within' => .done within'
    · exact last within (by rintro ⟨_, _, _, ⟨⟩⟩) _ _
  | succ bound ih =>
    by_cases comma : BeginsWith (.symbol .comma) us
    · obtain ⟨l, c, us, rfl⟩ := comma
      obtain ⟨bound', rfl⟩ := fit.exists_succ
      rw [argumentsAfter_comma, argumentsAfter_comma]
      refine (operands us ((List.suffix_cons _ us).trans within)).bind fun taken within' => ?_
      have fewer := shortens taken
      exact (ih within' (fit.next (Nat.lt_succ_of_lt fewer))).bind fun _ within'' => .done within''
    · exact last within comma _ _

theorem repeats_arguments (operands : RepeatsOn lacks more ts operand operand')
    (shortens : Shortens operand) (fit : Fit ts bound bound') :
    RepeatsOn lacks more ts (arguments operand bound) (arguments operand' bound') := by
  intro us within
  by_cases closed : BeginsWith (.symbol .closeParen) us
  · obtain ⟨l, c, us, rfl⟩ := closed
    exact .done ((List.suffix_cons _ us).trans within)
  · rw [arguments_of_open closed, arguments_of_open closed]
    refine (operands us within).bind fun taken within' => ?_
    exact (repeats_argumentsAfter operands shortens within' (fit.mono within'.length_le)).bind
      fun _ within'' => .done within''

/-- An atom, with its inner expressions after its first token. -/
theorem repeats_atom {t : Token} (inner : RepeatsOn lacks more ts operand operand')
    (shortens : Shortens operand) (fit : Fit (t :: ts) bound bound') :
    Repeats lacks more (t :: ts) Prod.snd (atom operand bound (t :: ts))
      (atom operand' bound' (t :: ts)) := by
  have token : ts <:+ t :: ts := List.suffix_cons t ts
  have other (refused : t.word.opensOperand .atom = false) :
      Repeats lacks more (t :: ts) Prod.snd (atom operand bound (t :: ts))
        (atom operand' bound' (t :: ts)) := by
    have here : ∀ u ∈ (t :: ts).head?, u.word.opensOperand .atom = false := by
      simpa using refused
    rw [atom_of_other here, atom_of_other here]
    exact repeats_refuse (List.suffix_refl _) (by simp)
  obtain ⟨word, line, column⟩ := t
  cases word with
  | number digits => exact .done token
  | text content => exact .done token
  | name s =>
    by_cases call : BeginsWith (.symbol .openParen) ts
    · obtain ⟨l, c, us, rfl⟩ := call
      have args := repeats_arguments inner shortens (fit.mono (Nat.le_succ _)) us
        (List.suffix_cons _ us)
      exact (args.mono token id id).bind fun _ within => .done within
    · rw [atom_name call, atom_name call]
      exact .done token
  | keyword k =>
    cases k with
    | trueWord => exact .done token
    | falseWord => exact .done token
    | _ => exact other rfl
  | symbol mark =>
    cases mark with
    | openParen =>
      refine ((inner ts (List.suffix_refl ts)).mono token id id).bind fun _ within => ?_
      exact (repeats_expect within).bind fun _ within' => .done within'
    | _ => exact other rfl
  | finish => exact other rfl

end Expressions

/-- More room for an expression only matters if there was less than enough. -/
theorem repeats_expression {ts : List Token} {bound bound' room room' : Nat}
    (fit : Fit ts bound bound') (roomier : room ≤ room') (level : Level) :
    RepeatsOn (room < level.need ts.length) (room < room') ts (expression bound room level)
      (expression bound' room' level) := by
  induction room generalizing room' ts level with
  | zero =>
    intro us within
    rw [expression_zero]
    have deep := level.need_pos ts.length
    rcases Nat.eq_or_lt_of_le roomier with rfl | roomier
    · rw [expression_zero]
      exact .refused within fun _ => deep
    · exact .goesOn within deep roomier
  | succ room ih =>
    obtain ⟨room', rfl⟩ : ∃ n, room' = n + 1 := ⟨room' - 1, by omega⟩
    have roomier' := Nat.le_of_succ_le_succ roomier
    intro us within
    -- The operand of `not` or a sign is on the same level, but has a token less.
    have prefixed {level' : Level} {t : Token} {us : List Token} (same : level' = level)
        (within : t :: us <:+ ts) :
        Repeats (room + 1 < level.need ts.length) (room + 1 < room' + 1) ts Prod.snd
          (expression bound room level' us) (expression bound' room' level' us) := by
      have fewer := within.length_le
      simp only [List.length_cons] at fewer
      refine (ih (fit.mono (by omega)) roomier' level' us (List.suffix_refl us)).mono
        ((List.suffix_cons t us).trans within) (fun lacks => ?_) Nat.succ_lt_succ
      subst same
      unfold Level.need at lacks ⊢
      omega
    have tighter (loose : level ≠ .atom) :
        RepeatsOn (room + 1 < level.need ts.length) (room + 1 < room' + 1) ts
          (expression bound room level.tighter) (expression bound' room' level.tighter) := by
      refine (ih fit roomier' level.tighter).imp (fun lacks => ?_) Nat.succ_lt_succ
      have rank := Level.rank_tighter loose
      have top := level.tighter.rank_le_atom
      unfold Level.need at lacks ⊢
      omega
    by_cases binary : level.isBinary = true
    · have loose : level ≠ .atom := by
        rintro rfl
        cases binary
      rw [expression_of_isBinary binary, expression_of_isBinary binary]
      exact repeats_chain (tighter loose) (shortens_expression bound room _) fit us within
    cases level with
    | negation =>
      by_cases negated : BeginsWith (.keyword .notWord) us
      · obtain ⟨l, c, us, rfl⟩ := negated
        exact (prefixed rfl within).bind fun _ within' => .done within'
      · rw [expression_negation negated, expression_negation negated]
        exact tighter (by decide) us within
    | sign =>
      by_cases negative : BeginsWith (.symbol .minus) us
      · obtain ⟨l, c, us, rfl⟩ := negative
        exact (prefixed rfl within).bind fun _ within' => .done within'
      · rw [expression_sign negative, expression_sign negative]
        exact tighter (by decide) us within
    | atom =>
      cases us with
      | nil => exact repeats_refuse within (by simp)
      | cons t us =>
        have fewer := within.length_le
        simp only [List.length_cons] at fewer
        have inner := (ih (fit.mono (by omega)) roomier' .disjunction : RepeatsOn _ _ us _ _)
        refine (repeats_atom inner (shortens_expression bound room _) (fit.mono fewer)).mono within
          (fun lacks => ?_) Nat.succ_lt_succ
        simp only [Level.need, Level.rank] at lacks ⊢
        omega
    | _ => exact absurd rfl binary

/-! ## Statements -/

section Statements

variable {lacks more : Prop} {ts us : List Token} {statement statement' : Reader Stmt}
  {condition condition' value value' : Reader Expr} {bound bound' : Nat}

/-- A sequence is repeated if its statements are. -/
theorem repeats_sequence (statements : RepeatsOn lacks more ts statement statement')
    (shortens : Shortens statement) (closers : List Keyword) (within : us <:+ ts)
    (fit : Fit us bound bound') :
    Repeats lacks more ts Prod.snd (sequence statement closers bound us)
      (sequence statement' closers bound' us) := by
  induction bound generalizing bound' us with
  | zero =>
    rcases fit.of_zero with rfl | rfl
    · exact .done within
    · rw [sequence_of_nil, sequence_of_nil]
      exact .done within
  | succ bound ih =>
    cases us with
    | nil =>
      rw [sequence_of_nil, sequence_of_nil]
      exact .done within
    | cons t us =>
      obtain ⟨bound', rfl⟩ := fit.exists_succ
      have token : us <:+ ts := (List.suffix_cons t us).trans within
      obtain ⟨word, l, c⟩ := t
      by_cases separator : word = .symbol .semicolon
      · subst separator
        exact ih token (fit.next (Nat.lt_succ_self _))
      by_cases closing : ∃ k ∈ closers, word = .keyword k
      · obtain ⟨k, listed, rfl⟩ := closing
        rw [sequence_of_stops listed, sequence_of_stops listed]
        exact .done within
      · have other : ∀ k ∈ closers, word ≠ .keyword k := fun k listed same =>
          closing ⟨k, listed, same⟩
        rw [sequence_of_other separator other, sequence_of_other separator other]
        refine (statements _ within).bind fun taken within' => ?_
        exact (ih within' (fit.next (shortens taken))).bind fun _ within'' => .done within''

theorem repeats_block (statements : RepeatsOn lacks more ts statement statement')
    (shortens : Shortens statement) (closers : List Keyword) (fit : Fit ts bound bound') :
    RepeatsOn lacks more ts (block statement bound closers) (block statement' bound' closers) := by
  intro us within
  refine (repeats_sequence statements shortens closers within (fit.mono within.length_le)).bind
    fun {found} _ within' => ?_
  obtain ⟨body, rest⟩ := found
  cases rest with
  | nil => exact repeats_refuse within' (by simp)
  | cons t rest => exact .done within'

/-- A branch is repeated if its condition and its statements are. -/
theorem repeats_branch (statements : RepeatsOn lacks more ts statement statement')
    (shortens : Shortens statement) (conditions : RepeatsOn lacks more ts condition condition')
    (fit : Fit ts bound bound') (line : Nat) :
    RepeatsOn lacks more ts (branch statement condition bound line)
      (branch statement' condition' bound' line) := by
  intro us within
  refine (conditions us within).bind fun _ within => (repeats_expect within).bind fun _ within => ?_
  exact (repeats_block statements shortens _ fit _ within).bind fun _ within => .done within

/-- A block up to `end`, and what is made of it. -/
theorem repeats_ended {α : Type} (statements : RepeatsOn lacks more ts statement statement')
    (shortens : Shortens statement) (fit : Fit ts bound bound') (within : us <:+ ts)
    (make : List Stmt → α) :
    Repeats lacks more ts Prod.snd
      (do
        let (body, rest) ← block statement bound [.endWord] us
        let rest ← expect (.keyword .endWord) rest
        return (make body, rest))
      (do
        let (body, rest) ← block statement' bound' [.endWord] us
        let rest ← expect (.keyword .endWord) rest
        return (make body, rest)) := by
  refine (repeats_block statements shortens _ fit us within).bind fun _ within => ?_
  exact (repeats_expect within).bind fun _ within => .done within

/-- The rest of a choice is repeated if its branches are. -/
theorem repeats_branchesAfter (statements : RepeatsOn lacks more ts statement statement')
    (shortens : Shortens statement) (conditions : RepeatsOn lacks more ts condition condition')
    (shortens' : ∀ line, Shortens (branch statement condition bound line))
    (fit : Fit ts bound bound') {left left' : Nat} (within : us <:+ ts) (fit' : Fit us left left') :
    Repeats lacks more ts Prod.snd (branchesAfter statement condition bound left us)
      (branchesAfter statement' condition' bound' left' us) := by
  have last {us : List Token} (within : us <:+ ts)
      (other : ¬ BeginsWith (.keyword .otherwiseWord) us) (left left' : Nat) :
      Repeats lacks more ts Prod.snd (branchesAfter statement condition bound left us)
        (branchesAfter statement' condition' bound' left' us) := by
    rw [branchesAfter_of_other other, branchesAfter_of_other other]
    exact (repeats_expect within).bind fun _ within => .done within
  induction left generalizing left' us with
  | zero =>
    rcases fit'.of_zero with rfl | rfl
    · exact (repeats_expect within).bind fun _ within => .done within
    · exact last within (by rintro ⟨_, _, _, ⟨⟩⟩) _ _
  | succ left ih =>
    by_cases otherwise : BeginsWith (.keyword .otherwiseWord) us
    · obtain ⟨l, c, us, rfl⟩ := otherwise
      obtain ⟨left', rfl⟩ := fit'.exists_succ
      have token : us <:+ ts := (List.suffix_cons _ us).trans within
      by_cases opens : OpensBranch us
      · obtain ⟨k, opener, line, column, us, rfl⟩ := opensBranch_iff.1 opens
        rw [branchesAfter_branch opener, branchesAfter_branch opener]
        refine (repeats_branch statements shortens conditions fit line us
          ((List.suffix_cons _ us).trans token)).bind fun taken within' => ?_
        have fewer := shortens' line taken
        refine (ih within' (fit'.next ?_)).bind fun _ within'' => .done within''
        exact Nat.lt_succ_of_lt (Nat.lt_succ_of_lt fewer)
      · rw [branchesAfter_otherwise opens, branchesAfter_otherwise opens]
        exact repeats_ended statements shortens fit token fun body => ([], some body)
    · exact last within otherwise _ _

theorem repeats_assignment (values : RepeatsOn lacks more ts value value') :
    RepeatsOn lacks more ts (assignment value) (assignment value') := by
  intro us within
  refine (repeats_expectName us within).bind fun _ within => ?_
  refine (repeats_expect within).bind fun _ within => ?_
  exact (values _ within).bind fun _ within => .done within

end Statements

/-- More room for a statement only matters if there was less than enough. -/
theorem repeats_statement {ts : List Token} {bound bound' room room' : Nat}
    (fit : Fit ts bound bound') (roomier : room ≤ room') :
    RepeatsOn (room < 9 * ts.length + 1) (room < room') ts (statement bound room)
      (statement bound' room') := by
  induction room generalizing room' ts with
  | zero =>
    intro us within
    have none (bound : Nat) : statement bound 0 us = refuse us .tooDeep := rfl
    rw [none]
    rcases Nat.eq_or_lt_of_le roomier with rfl | roomier
    · rw [none]
      exact .refused within fun _ => Nat.succ_pos _
    · exact .goesOn within (Nat.succ_pos _) roomier
  | succ room ih =>
    obtain ⟨room', rfl⟩ : ∃ n, room' = n + 1 := ⟨room' - 1, by omega⟩
    have roomier' := Nat.le_of_succ_le_succ roomier
    intro us within
    have other (refused : ∀ t ∈ us.head?, t.word.opensStatement = false) :
        Repeats (room + 1 < 9 * ts.length + 1) (room + 1 < room' + 1) ts Prod.snd
          (statement bound (room + 1) us) (statement bound' (room' + 1) us) := by
      rw [statement_of_other refused, statement_of_other refused]
      exact repeats_refuse within (by simp)
    cases us with
    | nil => exact other (by simp)
    | cons t us =>
      have fewer := within.length_le
      simp only [List.length_cons] at fewer
      have fit' : Fit us bound bound' := fit.mono (by omega)
      -- The first token pays for the way down to an atom and for one more statement around it.
      have lack {need : Nat} (less : need ≤ 9 * us.length + 9) (lacks : room < need) :
          room + 1 < 9 * ts.length + 1 := by
        omega
      have values := (repeats_expression fit' roomier' .disjunction).imp
        (lack (Nat.le_refl _)) Nat.succ_lt_succ
      have statements := (ih fit' roomier').imp (lack (by omega)) Nat.succ_lt_succ
      have assignments := repeats_assignment values
      have here := List.suffix_refl us
      have token : us <:+ ts := (List.suffix_cons t us).trans within
      obtain ⟨word, line, column⟩ := t
      cases word with
      | name s =>
        rw [statement_name, statement_name]
        refine Repeats.mono ?_ token id id
        refine (repeats_expect here).bind fun _ within => ?_
        exact (values _ within).bind fun _ within => .done within
      | keyword k =>
        cases k with
        | setWord | keepWord | changeWord =>
          refine Repeats.mono ((assignments us here).bind fun _ within => ?_) token id id
          exact .done within
        | sayWord | showWord =>
          refine Repeats.mono ((values us here).bind fun _ within => ?_) token id id
          exact .done within
        | askWord =>
          exact (repeats_expectName us token).bind fun _ within => .done within
        | whenWord | checkWord =>
          have first := repeats_branch statements (shortens_statement bound room) values fit' line
          refine Repeats.mono ((first us here).bind fun _ within => ?_) token id id
          refine (repeats_branchesAfter statements (shortens_statement bound room) values
            (fun _ => shortens_branch) fit' within (fit'.mono within.length_le)).bind ?_
          exact fun _ within => .done within
        | loopWord =>
          refine Repeats.mono ((assignments us here).bind fun {first} _ within => ?_) token id id
          refine (repeats_expect within).bind fun _ within => ?_
          refine (values _ within).bind fun {last} _ within => ?_
          refine (repeats_expect within).bind fun _ within => ?_
          exact repeats_ended statements (shortens_statement bound room) fit' within
            (Stmt.range first.1.1 first.1.2 last.1 · line)
        | repeatWord =>
          refine Repeats.mono ((repeats_expect here).bind fun _ within => ?_) token id id
          refine (values _ within).bind fun {condition} _ within => ?_
          refine (repeats_expect within).bind fun _ within => ?_
          refine (repeats_expect within).bind fun _ within => ?_
          exact repeats_ended statements (shortens_statement bound room) fit' within
            (Stmt.whilst condition.1 · line)
        | breakWord | continueWord => exact .done token
        | _ => exact other (by simp [Word.opensStatement])
      | _ => exact other (by simp [Word.opensStatement])

/-! ## Programs -/

/-- A program that is read in some room is read alike in more, and nine units for each token are
always enough. -/
theorem repeats_program {room room' : Nat} (roomier : room ≤ room') (ts : List Token) :
    Repeats (room < 9 * ts.length + 1) (room < room') ts (fun _ => []) (program room ts)
      (program room' ts) := by
  have fit : Fit ts ts.length ts.length := .inl rfl
  refine (repeats_sequence (repeats_statement fit roomier) (shortens_statement _ _) []
    (List.suffix_refl ts) fit).bind fun {found} _ within => ?_
  obtain ⟨body, rest⟩ := found
  cases rest with
  | nil => exact .done List.nil_suffix
  | cons t rest => exact repeats_refuse within (by simp)

section Repeats

variable {α : Type} {lacks more : Prop} {ts : List Token} {rest : α → List Token}
  {attempt attempt' : Attempt α}

/-- What a success leaves is an end of the tokens. -/
theorem Repeats.suffix_of_ok {found : α}
    (repeats : Repeats lacks more ts rest (.ok found) attempt') : rest found <:+ ts := by
  cases repeats with
  | done within => exact within

/-- A refused word stands in front of an end of the tokens. -/
theorem Repeats.suffix_of_error {refusal : Refusal}
    (repeats : Repeats lacks more ts rest (.error refusal) attempt') :
    ∃ left, left <:+ ts ∧ refusal.found = left.head? := by
  generalize same : (Except.error refusal : Attempt α) = attempt at repeats
  cases repeats with
  | done within => cases same
  | refused within deep =>
    cases same
    exact ⟨_, within, rfl⟩
  | goesOn within deep roomier =>
    cases same
    exact ⟨_, within, rfl⟩

/-- With no more room the second attempt is like the first. -/
theorem Repeats.eq_of_same_room (repeats : Repeats lacks more ts rest attempt attempt')
    (same : ¬ more) : attempt = attempt' := by
  cases repeats with
  | done within => rfl
  | refused within deep => rfl
  | goesOn within deep roomier => exact absurd roomier same

/-- With enough room the second attempt is like the first, which does not run out of room. -/
theorem Repeats.eq_of_enough (repeats : Repeats lacks more ts rest attempt attempt')
    (enough : ¬ lacks) :
    attempt = attempt' ∧ ∀ refusal, attempt = .error refusal → refusal.complaint ≠ .tooDeep := by
  cases repeats with
  | done within => exact ⟨rfl, by rintro refusal ⟨⟩⟩
  | refused within deep =>
    refine ⟨rfl, fun refusal same tooDeep => ?_⟩
    cases same
    exact enough (deep tooDeep)
  | goesOn within deep roomier => exact absurd deep enough

/-- The second attempt is like the first, or the first ran out of room. -/
theorem Repeats.eq_or_tooDeep (repeats : Repeats lacks more ts rest attempt attempt') :
    attempt = attempt' ∨ ∃ refusal, attempt = .error refusal ∧ refusal.complaint = .tooDeep := by
  cases repeats with
  | done within => exact .inl rfl
  | refused within deep => exact .inl rfl
  | goesOn within deep roomier => exact .inr ⟨_, rfl, rfl⟩

end Repeats

/-- The word that a program is refused at is one of its tokens. -/
theorem mem_of_program_error {room : Nat} {ts : List Token} {refusal : Refusal}
    (refused : program room ts = .error refusal) : ∀ t ∈ refusal.found, t ∈ ts := by
  have repeats := repeats_program (Nat.le_refl room) ts
  rw [refused] at repeats
  obtain ⟨left, within, found⟩ := repeats.suffix_of_error
  intro t here
  rw [found] at here
  exact within.subset (List.mem_of_mem_head? here)

end Parlance.Descent
