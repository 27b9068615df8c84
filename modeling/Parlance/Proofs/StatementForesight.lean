import Parlance.Proofs.ExpressionForesight

/-!
# Statements and the words they are read from

The readers of statements foresee, as those of expressions do, and so does the parser: two token
lists with the same words up to the refused one are refused there alike, and what stands before that
word begins a program.
-/

namespace Parlance.Descent

/-! ## Sequences of statements -/

/-- A sequence reads the same words alike under every bound.  What it has read before it refuses a
word can be completed, since the statement in progress can. -/
theorem foretells_sequence {statements : Nat → Reader Stmt} (foresees : Foresees .stmt statements)
    {closers : List Keyword} {bound count : Nat} {ts : List Token} (small : ts.length ≤ bound)
    (enough : ts.length ≤ count) :
    Foretells (fun p : Nat × Nat => min p.1 p.2 + 1)
      (fun p => sequence (statements p.1) closers p.2) (Forms .body) ts
      (sequence (statements bound) closers count ts) := by
  have empty {statement : Reader Stmt} {count : Nat} :
      sequence statement closers count [] = .ok ([], []) := by
    cases count <;> rfl
  induction count generalizing ts with
  | zero =>
    obtain rfl := List.eq_nil_of_length_eq_zero (Nat.le_zero.1 enough)
    refine foretells_ok fun p us next => ⟨[], ?_⟩
    rw [next.eq_nil, empty]
  | succ count ih =>
    cases ts with
    | nil =>
      refine foretells_ok fun p us next => ⟨[], ?_⟩
      rw [next.eq_nil, empty]
    | cons t ts =>
      obtain ⟨w, l, c⟩ := t
      rw [List.length_cons] at small enough
      by_cases separate : w = .symbol .semicolon
      · subst separate
        change Foretells _ _ _ _ (sequence (statements bound) closers count ts)
        refine Foretells.take ?_
        refine Foretells.congr (Foretells.mono (Foretells.reindex (ih (by omega) (by omega))
          (fun p => (p.1.1, p.1.2 - 1)) (fun p => ?_) fun _ => rfl) ?_) ?_
        · dsimp only
          omega
        · rintro us ⟨ss, derived⟩
          exact ⟨ss, .semicolon derived⟩
        · rintro ⟨⟨bound', count'⟩, l', c'⟩ us small' _
          obtain ⟨n, rfl⟩ : ∃ n, count' = n + 1 := ⟨count' - 1, by dsimp only at small'; omega⟩
          rfl
      · by_cases listed : ∃ k ∈ closers, w = .keyword k
        · obtain ⟨k, listed, rfl⟩ := listed
          rw [sequence_of_stops listed]
          refine foretells_ok fun p us next => ⟨[], ?_⟩
          obtain ⟨l', c', us, rfl⟩ := next.eq_cons
          exact sequence_of_stops listed
        · have unlisted : ∀ k ∈ closers, w ≠ .keyword k :=
            fun k member same => listed ⟨k, member, same⟩
          rw [sequence_of_other separate unlisted]
          refine Foretells.congr (foresees.bind small (fun p => p.1) (fun p => ?_)
            (fun p first => sequence (statements p.1) closers (p.2 - 1) first.2 >>= fun more =>
              pure (first.1 :: more.1, more.2)) ?_ ?_) ?_
          · omega
          · rintro us ⟨s, derived⟩
            exact ⟨[], by simp, [s], .sequence derived .nothing⟩
          · intro s used rest lengths derived
            obtain ⟨t', used', rfl, _⟩ := derived.opening
            rw [List.length_cons, List.length_cons] at lengths
            dsimp only
            refine Foretells.map ?_ (fun _ => ⟨_, rfl⟩) fun _ _ => ⟨_, rfl⟩
            refine Foretells.mono (Foretells.reindex (ih (by omega) (by omega))
              (fun p => (p.1.1, p.1.2 - 1)) (fun p => ?_) fun _ => rfl) ?_
            · rw [List.length_cons]
              dsimp only
              omega
            · rintro us ⟨ss, more⟩
              exact ⟨_, .sequence derived more⟩
          · rintro ⟨bound', count'⟩ us small' next
            obtain ⟨l', c', us, rfl⟩ := next.eq_cons
            rw [List.length_cons] at small'
            obtain ⟨n, rfl⟩ : ∃ n, count' = n + 1 := ⟨count' - 1, by dsimp only at small'; omega⟩
            exact sequence_of_other separate unlisted

/-- A block foresees if its statements do. -/
theorem foresees_block {statements : Nat → Reader Stmt} (foresees : Foresees .stmt statements)
    (closers : List Keyword) :
    Foresees .body fun bound => block (statements bound) bound closers where
  takes bound := takes_block (foresees.takes bound) bound closers
  foretells {bound ts} small := by
    refine Foretells.bind (Foretells.reindex (foretells_sequence foresees small small)
      (fun bound => (bound, bound)) (fun bound => ?_) fun _ => rfl) _ (fun us => .done) ?_
    · dsimp only
      omega
    · intro ss used rest taken split
      cases rest with
      | nil =>
        have derived :=
          Takes.derives (takes_sequence (foresees.takes bound) closers bound) taken split
        refine foretells_refuse (.done ⟨ss, derived⟩) fun p us next => ?_
        rw [next.eq_nil]
      | cons t rest =>
        refine foretells_ok fun p us next => ⟨p.2, ?_⟩
        obtain ⟨l, c, us, rfl⟩ := next.eq_cons
        rfl

/-! ## Choices -/

/-- The tokens are a branch, after the word that opens it. -/
def FormsBranch (us : List Token) : Prop :=
  ∃ test inside e ss l c, us = test ++ ⟨.keyword .doWord, l, c⟩ :: inside ∧
    Derives test (.expr .disjunction e) ∧ Derives inside (.body ss)

/-- A branch reads alike, and can be completed by a condition, `do` and no statements. -/
theorem foretells_branch {statements : Nat → Reader Stmt} {conditions : Nat → Reader Expr}
    (inner : Foresees .stmt statements) (tests : Foresees (.expr .disjunction) conditions)
    {bound line : Nat} {ts : List Token} (small : ts.length ≤ bound) :
    Foretells (fun p : Nat × Nat => p.1 + 1)
      (fun p => branch (statements p.1) (conditions p.1) p.1 p.2) FormsBranch ts
      (branch (statements bound) (conditions bound) bound line ts) := by
  unfold branch
  refine tests.bind small (fun p : Nat × Nat => p.1) (fun p => Nat.le_refl _) _ ?_ ?_
  · rintro us ⟨e, derived⟩
    exact .keyword .doWord (.nothing ⟨us, [], e, [], 0, 0, rfl, derived, .nothing⟩)
  · intro e used rest lengths test
    dsimp only
    refine foretells_expect ?_ fun {l c us} split => ?_
    · exact .keyword .doWord (.nothing ⟨used, [], e, [], 0, 0, rfl, test, .nothing⟩)
    · subst split
      rw [List.length_cons] at lengths
      have few : us.length ≤ bound := by omega
      refine Foretells.map ?_ (fun _ => ⟨_, rfl⟩) fun _ _ => ⟨_, rfl⟩
      refine Foretells.mono ((foresees_block inner _).within few
        (fun p : (Nat × Nat) × Expr => p.1.1) fun p => ?_) ?_
      · omega
      · rintro vs ⟨ss, inside⟩
        exact ⟨used, vs, e, ss, l, c, rfl, test, inside⟩

theorem SameNext.opensBranch {ts us : List Token} (next : SameNext ts us) (opens : OpensBranch us) :
    OpensBranch ts := by
  obtain ⟨k, opens, begins⟩ := opensBranch_iff.1 opens
  exact opensBranch_iff.2 ⟨k, opens, next.beginsWith begins⟩

/-- The tokens are what follows the first branch of a choice. -/
def FormsTail (us : List Token) : Prop :=
  ∃ bs last, Derives us (.tail bs last)

/-- The last alternative of a choice, after its `otherwise`. -/
theorem foretells_otherwise {statements : Nat → Reader Stmt} (inner : Foresees .stmt statements)
    {bound l c : Nat} {ts : List Token} (small : ts.length ≤ bound)
    (separate : ¬ OpensBranch ts) :
    Foretells (fun bound => bound + 1)
      (fun bound us => (do
        let (last, rest) ← block (statements bound) bound [.endWord] us
        let rest ← expect (.keyword .endWord) rest
        return (([], some last), rest) : Attempt ((List Branch × Option (List Stmt)) × List Token)))
      (fun us => FormsTail (⟨.keyword .otherwiseWord, l, c⟩ :: us)) ts
      (do
        let (last, rest) ← block (statements bound) bound [.endWord] ts
        let rest ← expect (.keyword .endWord) rest
        return (([], some last), rest)) := by
  have blocks := foresees_block inner [.endWord]
  have closing {us : List Token} {ss : List Stmt} (derived : Derives us (.body ss))
      (apart : ¬ OpensBranch us) : Completable fun more =>
        FormsTail (⟨.keyword .otherwiseWord, l, c⟩ :: (us ++ more)) :=
    .keyword .endWord (.nothing ⟨[], some ss, .otherwise apart derived⟩)
  -- What completes the statements must not open a branch; before the first word nothing does.
  have apart : Foretells (fun bound => bound + 1)
      (fun bound => block (statements bound) bound [.endWord])
      (fun us => Forms .body us ∧ ¬ OpensBranch us) ts
      (block (statements bound) bound [.endWord] ts) := by
    refine (blocks.foretells small).redirect fun used left more split formed reached => ?_
    cases used with
    | nil => exact ⟨[], by simp, ⟨[], .nothing⟩, id⟩
    | cons t used =>
      refine ⟨more, formed, reached, fun opens => separate ?_⟩
      have next : SameNext ts (t :: used ++ more) := by
        rw [split]
        rfl
      exact next.opensBranch opens
  refine apart.bind _ ?_ fun {ss used rest} taken split => ?_
  · rintro us ⟨⟨ss, derived⟩, apart⟩
    exact closing derived apart
  have derived := Takes.derives (blocks.takes bound) taken split
  have apart : ¬ OpensBranch used := fun opens => separate (split ▸ opensBranch_append opens rest)
  dsimp only
  refine foretells_expect (closing derived apart) fun {l c us} split => ?_
  exact foretells_ok fun _ _ _ => ⟨_, rfl⟩

/-- The rest of a choice reads alike, and can always be completed by `end`. -/
theorem foretells_branchesAfter {statements : Nat → Reader Stmt} {conditions : Nat → Reader Expr}
    (inner : Foresees .stmt statements) (tests : Foresees (.expr .disjunction) conditions)
    {bound count : Nat} {ts : List Token} (small : ts.length ≤ bound) (enough : ts.length ≤ count) :
    Foretells (fun p : Nat × Nat => min p.1 p.2 + 1)
      (fun p => branchesAfter (statements p.1) (conditions p.1) p.1 p.2) FormsTail ts
      (branchesAfter (statements bound) (conditions bound) bound count ts) := by
  -- Without `otherwise` the closing word has to come.
  have last {count : Nat} {ts : List Token} (other : ¬ BeginsWith (.keyword .otherwiseWord) ts) :
      Foretells (fun p : Nat × Nat => min p.1 p.2 + 1)
        (fun p => branchesAfter (statements p.1) (conditions p.1) p.1 p.2) FormsTail ts
        (branchesAfter (statements bound) (conditions bound) bound count ts) := by
    rw [branchesAfter_of_other other]
    refine Foretells.congr (foretells_expect ?_ fun _ => foretells_ok fun p us next =>
      ⟨([], none), rfl⟩) fun p us _ next =>
        branchesAfter_of_other fun begins => other (next.beginsWith begins)
    exact .keyword .endWord (.nothing ⟨[], none, .close⟩)
  induction count generalizing ts with
  | zero =>
    obtain rfl := List.eq_nil_of_length_eq_zero (Nat.le_zero.1 enough)
    refine last ?_
    rintro ⟨l, c, us, ⟨⟩⟩
  | succ count ih =>
    by_cases begins : BeginsWith (.keyword .otherwiseWord) ts
    · obtain ⟨l, c, ts, rfl⟩ := begins
      rw [List.length_cons] at small enough
      by_cases opens : OpensBranch ts
      · obtain ⟨k, opens, line, column, ts, rfl⟩ := opensBranch_iff.1 opens
        rw [List.length_cons] at small enough
        rw [branchesAfter_branch opens]
        refine Foretells.take (Foretells.take ?_)
        refine Foretells.congr (Foretells.bind (Foretells.reindex
          (foretells_branch inner tests (by omega)) (fun p => (p.1.1.1, p.2.1)) (fun p => ?_)
          fun _ => rfl) (fun p first => branchesAfter (statements p.1.1.1) (conditions p.1.1.1)
            p.1.1.1 (p.1.1.2 - 1) first.2 >>= fun others =>
              pure ((first.1 :: others.1.1, others.1.2), others.2)) ?_ ?_) ?_
        · dsimp only
          omega
        · rintro us ⟨test, inside, e, ss, l', c', rfl, testDerived, insideDerived⟩
          exact .keyword .endWord (.nothing ⟨_, _, .branch opens testDerived insideDerived .close⟩)
        · intro first used rest taken split
          obtain ⟨test, inside, e, ss, l', c', rfl, split', testDerived, insideDerived⟩ :=
            takes_branch (inner.takes bound) (tests.takes bound) taken
          obtain rfl := List.append_cancel_right (split.symm.trans split')
          have lengths := congrArg List.length split
          rw [List.length_append] at lengths
          dsimp only
          refine Foretells.map ?_ (fun _ => ⟨_, rfl⟩) fun _ _ => ⟨_, rfl⟩
          refine Foretells.mono (Foretells.reindex (ih (by omega) (by omega))
            (fun p => (p.1.1.1.1, p.1.1.1.2 - 1)) (fun p => ?_) fun _ => rfl) ?_
          · dsimp only
            omega
          · rintro us ⟨bs, last, others⟩
            exact ⟨_, _, .branch opens testDerived insideDerived others⟩
        · rintro ⟨⟨⟨bound', count'⟩, l', c'⟩, line', column'⟩ us small' next
          obtain ⟨n, rfl⟩ : ∃ n, count' = n + 1 := ⟨count' - 1, by dsimp only at small'; omega⟩
          exact branchesAfter_branch opens
      · rw [branchesAfter_otherwise opens]
        refine Foretells.take ?_
        refine Foretells.congr (Foretells.reindex (foretells_otherwise inner (by omega) opens)
          (fun p => p.1.1) (fun p => ?_) fun _ => rfl) ?_
        · omega
        · rintro ⟨⟨bound', count'⟩, l', c'⟩ us small' next
          obtain ⟨n, rfl⟩ : ∃ n, count' = n + 1 := ⟨count' - 1, by dsimp only at small'; omega⟩
          exact branchesAfter_otherwise fun opens' => opens (next.opensBranch opens')
    · exact last begins

/-! ## Statements -/

theorem derives_true :
    Derives [⟨.keyword .trueWord, 0, 0⟩] (.expr .disjunction (.flag true 0)) := by
  iterate 8 refine .tighter (by decide) ?_
  exact .trueWord

/-- After a name: `=` and an expression. -/
theorem foretells_value {ι β : Type} {limit : ι → Nat} {goal : List Token → Prop}
    {values : Nat → Reader Expr} (foresees : Foresees (.expr .disjunction) values)
    (make : Expr → β) (makes : ι → Expr → β) {bound : Nat} {ts : List Token}
    (small : ts.length ≤ bound) (bounds : ι → Nat) (fits : ∀ i, limit i ≤ bounds i + 1)
    (forms : ∀ {us e l c}, Derives us (.expr .disjunction e) →
      goal (⟨.symbol .assign, l, c⟩ :: us)) :
    Foretells limit
      (fun i us => (do
        let rest ← expect (.symbol .assign) us
        let (found, rest) ← values (bounds i) rest
        return (makes i found, rest) : Attempt (β × List Token)))
      goal ts
      (do
        let rest ← expect (.symbol .assign) ts
        let (found, rest) ← values bound rest
        return (make found, rest)) := by
  refine foretells_expect ?_ fun {l c us} split => ?_
  · exact .symbol .assign (.keyword .trueWord (.nothing (forms derives_true)))
  · subst split
    rw [List.length_cons] at small
    have few : us.length ≤ bound := by omega
    refine Foretells.map ?_ (fun _ => ⟨_, rfl⟩) fun _ _ => ⟨_, rfl⟩
    refine Foretells.mono (foresees.within few bounds fun i => ?_) ?_
    · have := fits i
      omega
    · rintro vs ⟨e, derived⟩
      exact forms derived

/-- The tokens are a name, `=` and an expression. -/
def FormsAssignment (us : List Token) : Prop :=
  ∃ s e l c l' c' vs, us = ⟨.name s, l, c⟩ :: ⟨.symbol .assign, l', c'⟩ :: vs ∧
    Derives vs (.expr .disjunction e)

/-- A name and its value read alike, and can be completed. -/
theorem foretells_assignment {values : Nat → Reader Expr}
    (foresees : Foresees (.expr .disjunction) values) {bound : Nat} {ts : List Token}
    (small : ts.length ≤ bound) :
    Foretells (fun bound => bound + 1) (fun bound => assignment (values bound)) FormsAssignment ts
      (assignment (values bound) ts) := by
  unfold assignment
  refine foretells_expectName ?_ fun {s l c us} split => ?_
  · exact .name (.symbol .assign (.keyword .trueWord (.nothing
      ⟨"x", _, 0, 0, 0, 0, _, rfl, derives_true⟩)))
  · subst split
    rw [List.length_cons] at small
    have few : us.length ≤ bound := by omega
    refine foretells_value foresees (s, ·) (fun _ e => (s, e)) few (fun bound => bound)
      (fun bound => ?_) fun {us e l' c'} derived => ⟨s, e, l, c, l', c', us, rfl, derived⟩
    omega

/-- The inside of a loop: `do`, statements, `end`. -/
theorem foretells_enclosed {ι : Type} {limit : ι → Nat} {goal : List Token → Prop}
    {statements : Nat → Reader Stmt} (inner : Foresees .stmt statements) (make : List Stmt → Stmt)
    (makes : ι → List Stmt → Stmt) {bound : Nat} {ts : List Token} (small : ts.length ≤ bound)
    (bounds : ι → Nat) (fits : ∀ i, limit i ≤ bounds i + 1)
    (forms : ∀ {us ss l c l' c'}, Derives us (.body ss) →
      goal (⟨.keyword .doWord, l, c⟩ :: us ++ [⟨.keyword .endWord, l', c'⟩])) :
    Foretells limit
      (fun i us => (do
        let rest ← expect (.keyword .doWord) us
        let (body, rest) ← block (statements (bounds i)) (bounds i) [.endWord] rest
        let rest ← expect (.keyword .endWord) rest
        return (makes i body, rest) : Attempt (Stmt × List Token)))
      goal ts
      (do
        let rest ← expect (.keyword .doWord) ts
        let (body, rest) ← block (statements bound) bound [.endWord] rest
        let rest ← expect (.keyword .endWord) rest
        return (make body, rest)) := by
  refine foretells_expect ?_ fun {l c us} split => ?_
  · exact .keyword .doWord (.keyword .endWord (.nothing (forms .nothing)))
  · subst split
    rw [List.length_cons] at small
    refine (foresees_block inner [.endWord]).bind (by omega) bounds (fun i => ?_) _ ?_ ?_
    · have := fits i
      omega
    · rintro us ⟨ss, derived⟩
      exact .keyword .endWord (.nothing (forms derived))
    · intro ss used rest lengths derived
      dsimp only
      refine foretells_expect ?_ fun _ => foretells_ok fun _ _ _ => ⟨_, rfl⟩
      exact .keyword .endWord (.nothing (forms derived))

/-- A choice, after the word that opens its first branch. -/
theorem foretells_choice {statements : Nat → Reader Stmt} {conditions : Nat → Reader Expr}
    (inner : Foresees .stmt statements) (tests : Foresees (.expr .disjunction) conditions)
    {k : Keyword} (opens : k.opensBranch) {bound l c : Nat} {ts : List Token}
    (small : ts.length ≤ bound) :
    Foretells (fun p : Nat × Nat × Nat => p.1 + 1 - 1)
      (fun p us => (do
        let (first, rest) ← branch (statements p.1) (conditions p.1) p.1 p.2.1 us
        let ((more, last), rest) ← branchesAfter (statements p.1) (conditions p.1) p.1 p.1 rest
        return (.choose (first :: more) last p.2.1, rest) : Attempt (Stmt × List Token)))
      (fun us => Forms .stmt (⟨.keyword k, l, c⟩ :: us)) ts
      (do
        let (first, rest) ← branch (statements bound) (conditions bound) bound l ts
        let ((more, last), rest) ← branchesAfter (statements bound) (conditions bound) bound bound
          rest
        return (.choose (first :: more) last l, rest)) := by
  refine Foretells.bind (Foretells.reindex (foretells_branch inner tests small)
    (fun p : Nat × Nat × Nat => (p.1, p.2.1)) (fun p => Nat.sub_le _ _) fun _ => rfl) _ ?_ ?_
  · rintro us ⟨test, inside, e, ss, l', c', rfl, testDerived, insideDerived⟩
    exact .keyword .endWord (.nothing ⟨_, .choose opens testDerived insideDerived .close⟩)
  · intro first used rest taken split
    obtain ⟨test, inside, e, ss, l', c', rfl, split', testDerived, insideDerived⟩ :=
      takes_branch (inner.takes bound) (tests.takes bound) taken
    obtain rfl := List.append_cancel_right (split.symm.trans split')
    have lengths := congrArg List.length split
    rw [List.length_append] at lengths
    dsimp only
    refine Foretells.map ?_ (fun _ => ⟨_, rfl⟩) fun _ _ => ⟨_, rfl⟩
    refine Foretells.mono (Foretells.reindex
      (foretells_branchesAfter inner tests (by omega) (by omega))
      (fun p : (Nat × Nat × Nat) × Branch => (p.1.1, p.1.1)) (fun p => ?_) fun _ => rfl) ?_
    · dsimp only
      omega
    · rintro us ⟨bs, last, others⟩
      exact ⟨_, .choose opens testDerived insideDerived others⟩

/-- A range loop, after its first word. -/
theorem foretells_range {statements : Nat → Reader Stmt} {values : Nat → Reader Expr}
    (inner : Foresees .stmt statements) (bounds : Foresees (.expr .disjunction) values)
    {bound l c : Nat} {ts : List Token} (small : ts.length ≤ bound) :
    Foretells (fun p : Nat × Nat × Nat => p.1 + 1 - 1)
      (fun p us => (do
        let ((name, first), rest) ← assignment (values p.1) us
        let rest ← expect (.keyword .toWord) rest
        let (last, rest) ← values p.1 rest
        let rest ← expect (.keyword .doWord) rest
        let (body, rest) ← block (statements p.1) p.1 [.endWord] rest
        let rest ← expect (.keyword .endWord) rest
        return (.range name first last body p.2.1, rest) : Attempt (Stmt × List Token)))
      (fun us => Forms .stmt (⟨.keyword .loopWord, l, c⟩ :: us)) ts
      (do
        let ((name, first), rest) ← assignment (values bound) ts
        let rest ← expect (.keyword .toWord) rest
        let (last, rest) ← values bound rest
        let rest ← expect (.keyword .doWord) rest
        let (body, rest) ← block (statements bound) bound [.endWord] rest
        let rest ← expect (.keyword .endWord) rest
        return (.range name first last body l, rest)) := by
  have forms {s : String} {first last : Expr} {ss : List Stmt} {start stop inside : List Token}
      {l₁ c₁ l₂ c₂ l₃ c₃ l₄ c₄ l₅ c₅ : Nat}
      (startDerived : Derives start (.expr .disjunction first))
      (stopDerived : Derives stop (.expr .disjunction last))
      (insideDerived : Derives inside (.body ss)) :
      Forms .stmt (⟨.keyword .loopWord, l, c⟩ :: ⟨.name s, l₁, c₁⟩ :: ⟨.symbol .assign, l₂, c₂⟩ ::
        start ++ ⟨.keyword .toWord, l₃, c₃⟩ :: stop ++ ⟨.keyword .doWord, l₄, c₄⟩ :: inside ++
        [⟨.keyword .endWord, l₅, c₅⟩]) :=
    ⟨_, .range startDerived stopDerived insideDerived⟩
  have closing {s : String} {first : Expr} {start : List Token} {l₁ c₁ l₂ c₂ : Nat}
      (startDerived : Derives start (.expr .disjunction first)) : Completable fun more =>
        Forms .stmt (⟨.keyword .loopWord, l, c⟩ ::
          (⟨.name s, l₁, c₁⟩ :: ⟨.symbol .assign, l₂, c₂⟩ :: start ++ more)) := by
    refine .keyword .toWord (.keyword .trueWord (.keyword .doWord (.keyword .endWord ?_)))
    refine .nothing ?_
    simpa using forms startDerived derives_true .nothing
  refine Foretells.bind (Foretells.reindex (foretells_assignment bounds small)
    (fun p : Nat × Nat × Nat => p.1) (fun p => Nat.sub_le _ _) fun _ => rfl) _ ?_ ?_
  · rintro us ⟨s, first, l₁, c₁, l₂, c₂, start, rfl, startDerived⟩
    exact closing startDerived
  · intro found used rest taken split
    obtain ⟨name, first⟩ := found
    obtain ⟨start, l₁, c₁, l₂, c₂, split', startDerived⟩ :=
      assignment_eq_ok (bounds.takes bound) taken
    obtain rfl := List.append_cancel_right (split.symm.trans split')
    have lengths := congrArg List.length split
    rw [List.length_append] at lengths
    dsimp only
    refine foretells_expect (closing startDerived) fun {l₃ c₃ us} split => ?_
    subst split
    simp only [List.length_cons] at lengths
    refine bounds.bind (by omega) (fun p : (Nat × Nat × Nat) × String × Expr => p.1.1)
      (fun p => ?_) _ ?_ ?_
    · omega
    · rintro us ⟨e, stopDerived⟩
      refine .keyword .doWord (.keyword .endWord (.nothing ?_))
      simpa using forms startDerived stopDerived .nothing
    · intro last stop rest lengths' stopDerived
      have few : rest.length ≤ bound := by omega
      refine foretells_enclosed inner (.range name first last · l)
        (fun p body => .range p.1.2.1 p.1.2.2 p.2 body p.1.1.2.1) few
        (fun p : ((Nat × Nat × Nat) × String × Expr) × Expr => p.1.1.1) (fun p => ?_)
        fun {us ss l₄ c₄ l₅ c₅} inside => ?_
      · omega
      · simpa using forms startDerived stopDerived inside

/-- A loop with a condition, after its first word. -/
theorem foretells_whilst {statements : Nat → Reader Stmt} {values : Nat → Reader Expr}
    (inner : Foresees .stmt statements) (tests : Foresees (.expr .disjunction) values)
    {bound l c : Nat} {ts : List Token} (small : ts.length ≤ bound) :
    Foretells (fun p : Nat × Nat × Nat => p.1 + 1 - 1)
      (fun p us => (do
        let rest ← expect (.symbol .openParen) us
        let (condition, rest) ← values p.1 rest
        let rest ← expect (.symbol .closeParen) rest
        let rest ← expect (.keyword .doWord) rest
        let (body, rest) ← block (statements p.1) p.1 [.endWord] rest
        let rest ← expect (.keyword .endWord) rest
        return (.whilst condition body p.2.1, rest) : Attempt (Stmt × List Token)))
      (fun us => Forms .stmt (⟨.keyword .repeatWord, l, c⟩ :: us)) ts
      (do
        let rest ← expect (.symbol .openParen) ts
        let (condition, rest) ← values bound rest
        let rest ← expect (.symbol .closeParen) rest
        let rest ← expect (.keyword .doWord) rest
        let (body, rest) ← block (statements bound) bound [.endWord] rest
        let rest ← expect (.keyword .endWord) rest
        return (.whilst condition body l, rest)) := by
  have forms {e : Expr} {ss : List Stmt} {test inside : List Token}
      {l₁ c₁ l₂ c₂ l₃ c₃ l₄ c₄ : Nat} (testDerived : Derives test (.expr .disjunction e))
      (insideDerived : Derives inside (.body ss)) :
      Forms .stmt (⟨.keyword .repeatWord, l, c⟩ :: ⟨.symbol .openParen, l₁, c₁⟩ :: test ++
        ⟨.symbol .closeParen, l₂, c₂⟩ :: ⟨.keyword .doWord, l₃, c₃⟩ :: inside ++
        [⟨.keyword .endWord, l₄, c₄⟩]) :=
    ⟨_, .whilst testDerived insideDerived⟩
  have closing {e : Expr} {test : List Token} {l₁ c₁ : Nat}
      (testDerived : Derives test (.expr .disjunction e)) : Completable fun more =>
        Forms .stmt (⟨.keyword .repeatWord, l, c⟩ :: ⟨.symbol .openParen, l₁, c₁⟩ ::
          (test ++ more)) := by
    refine .symbol .closeParen (.keyword .doWord (.keyword .endWord (.nothing ?_)))
    simpa using forms testDerived .nothing
  refine foretells_expect ?_ fun {l₁ c₁ us} split => ?_
  · exact .symbol .openParen (.keyword .trueWord (closing derives_true))
  · subst split
    rw [List.length_cons] at small
    refine tests.bind (by omega) (fun p : Nat × Nat × Nat => p.1) (fun p => ?_) _ ?_ ?_
    · omega
    · rintro us ⟨e, testDerived⟩
      exact closing testDerived
    · intro e test rest lengths testDerived
      dsimp only
      refine foretells_expect (closing testDerived) fun {l₂ c₂ us} split => ?_
      subst split
      rw [List.length_cons] at lengths
      have few : us.length ≤ bound := by omega
      refine foretells_enclosed inner (.whilst e · l) (fun p body => .whilst p.2 body p.1.2.1)
        few (fun p : (Nat × Nat × Nat) × Expr => p.1.1) (fun p => ?_)
        fun {us ss l₃ c₃ l₄ c₄} inside => ?_
      · omega
      · simpa using forms testDerived inside

/-- A word that a statement opens with, and what is read after it. -/
theorem foretells_after {α : Type} {w : Word} {parts : Nat → Reader α} {goal : List Token → Prop}
    {readers : Nat → Reader Stmt} {bound l c : Nat} {ts : List Token} (make : Nat → α → Stmt)
    (part : Foretells (fun bound => bound + 1) parts goal ts (parts bound ts))
    (forms : ∀ us, goal us → Forms .stmt (⟨w, l, c⟩ :: us))
    (opened : ∀ {bound l c us}, readers bound (⟨w, l, c⟩ :: us) = (do
      let (found, rest) ← parts bound us
      return (make l found, rest))) :
    Foretells (fun bound => bound + 1) readers (Forms .stmt) (⟨w, l, c⟩ :: ts)
      (readers bound (⟨w, l, c⟩ :: ts)) := by
  rw [opened]
  refine Foretells.take ?_
  refine Foretells.congr ?_ fun p us _ _ => opened
  refine Foretells.map ?_ (fun _ => ⟨_, rfl⟩) fun _ _ => ⟨_, rfl⟩
  exact (part.mono forms).reindex (fun p => p.1) (fun p => Nat.sub_le _ _) fun _ => rfl

/-- Statements foresee, whatever the room.  The cases are the words they begin with, and each says
how what has been read can be completed. -/
theorem foresees_statement (room : Nat) : Foresees .stmt fun bound => statement bound room := by
  induction room with
  | zero => exact ⟨fun bound => takes_statement bound 0, fun _ => foretells_tooDeep⟩
  | succ room ih =>
    refine ⟨fun bound => takes_statement bound (room + 1), fun {bound ts} small => ?_⟩
    have values := foresees_expression room .disjunction
    have refused {ts : List Token} (other : ∀ t ∈ ts.head?, t.word.opensStatement = false) :
        Foretells (fun bound => bound + 1) (fun bound => statement bound (room + 1)) (Forms .stmt)
          ts (statement bound (room + 1) ts) := by
      rw [statement_of_other other]
      refine foretells_refuse ?_ fun bound us next =>
        statement_of_other (next.forall_head (·.opensStatement = false) other)
      exact .keyword .breakWord (.nothing ⟨_, .leave⟩)
    cases ts with
    | nil => exact refused (by rintro t ⟨⟩)
    | cons t ts =>
      obtain ⟨w, l, c⟩ := t
      rw [List.length_cons] at small
      have few : ts.length ≤ bound := Nat.le_of_succ_le small
      have assigned := foretells_assignment values few
      have valued := values.foretells few
      cases w with
      | name s =>
        rw [statement_name]
        refine Foretells.take ?_
        refine Foretells.congr ?_ fun _ _ _ _ => statement_name
        refine foretells_value values (Stmt.assign s · l)
          (fun (p : Nat × Nat × Nat) e => .assign s e p.2.1) few (fun p => p.1)
          (fun p => Nat.sub_le _ _) fun {us e l' c'} derived => ?_
        exact ⟨_, .assign derived⟩
      | keyword k =>
        cases k with
        | setWord =>
          refine foretells_after (fun l found => .declare found.1 found.2 false l) assigned ?_ rfl
          rintro us ⟨s, e, l₁, c₁, l₂, c₂, vs, rfl, derived⟩
          exact ⟨_, .set derived⟩
        | keepWord =>
          refine foretells_after (fun l found => .declare found.1 found.2 true l) assigned ?_ rfl
          rintro us ⟨s, e, l₁, c₁, l₂, c₂, vs, rfl, derived⟩
          exact ⟨_, .keep derived⟩
        | changeWord =>
          refine foretells_after (fun l found => .assign found.1 found.2 l) assigned ?_ rfl
          rintro us ⟨s, e, l₁, c₁, l₂, c₂, vs, rfl, derived⟩
          exact ⟨_, .change derived⟩
        | sayWord =>
          refine foretells_after (fun l found => .say found l) valued ?_ rfl
          rintro us ⟨e, derived⟩
          exact ⟨_, .say derived⟩
        | showWord =>
          refine foretells_after (fun l found => .display found l) valued ?_ rfl
          rintro us ⟨e, derived⟩
          exact ⟨_, .display derived⟩
        | askWord =>
          refine Foretells.take (foretells_expectName ?_ fun _ =>
            foretells_ok fun _ _ _ => ⟨_, rfl⟩)
          exact .name (.nothing ⟨_, .ask⟩)
        | whenWord => exact Foretells.take (foretells_choice ih values (.inl rfl) few)
        | checkWord => exact Foretells.take (foretells_choice ih values (.inr rfl) few)
        | loopWord => exact Foretells.take (foretells_range ih values few)
        | repeatWord => exact Foretells.take (foretells_whilst ih values few)
        | breakWord => exact Foretells.take (foretells_ok fun _ _ _ => ⟨_, rfl⟩)
        | continueWord => exact Foretells.take (foretells_ok fun _ _ _ => ⟨_, rfl⟩)
        | _ => exact refused (by rintro t ⟨⟩; rfl)
      | _ => exact refused (by rintro t ⟨⟩; rfl)

/-! ## Whole programs -/

/-- The statements of a whole source, as a reader with a bound. -/
def whole (room bound : Nat) : Reader (List Stmt) := fun ts => do
  match ← sequence (statement bound room) [] bound ts with
  | (body, []) => return (body, [])
  | (_, rest) => refuse rest .unexpected

/-- A program is one sequence up to the end of the source. -/
theorem program_eq_whole (room : Nat) (ts : List Token) :
    program room ts = (whole room ts.length ts).map fun found => ⟨found.1⟩ := by
  unfold program whole
  cases sequence (statement ts.length room) [] ts.length ts with
  | error r => rfl
  | ok found =>
    obtain ⟨body, rest⟩ := found
    cases rest <;> rfl

/-- A program leaves nothing. -/
theorem rest_of_whole {room bound : Nat} {ts rest : List Token} {body : List Stmt}
    (taken : whole room bound ts = .ok (body, rest)) : rest = [] := by
  obtain ⟨⟨body', rest'⟩, _, next⟩ := bind_eq_ok.1 taken
  cases rest' with
  | nil =>
    cases next
    rfl
  | cons t rest' => exact absurd next refuse_ne_ok

/-- A program reads the same words alike, and what it has read before it refuses one can be
completed. -/
theorem foretells_whole (room : Nat) {bound : Nat} {ts : List Token} (small : ts.length ≤ bound) :
    Foretells (fun bound => bound + 1) (whole room) (Forms .body) ts (whole room bound ts) := by
  have statements := foresees_statement room
  refine Foretells.bind (Foretells.reindex (foretells_sequence statements small small)
    (fun bound => (bound, bound)) (fun bound => ?_) fun _ => rfl) _ (fun us => .done) ?_
  · dsimp only
    omega
  · intro ss used rest taken split
    cases rest with
    | nil =>
      refine foretells_ok fun p us next => ⟨p.2, ?_⟩
      rw [next.eq_nil]
      rfl
    | cons t rest =>
      have derived :=
        Takes.derives (takes_sequence (statements.takes bound) [] bound) taken split
      refine foretells_refuse (.done ⟨ss, derived⟩) fun p us next => ?_
      obtain ⟨l, c, us, rfl⟩ := next.eq_cons
      rfl

/-- Whether tokens are a program is up to their words. -/
theorem program_of_sameWords {room : Nat} {ts us : List Token} {p : Program}
    (accepted : program room ts = .ok p) (words : SameWords ts us) :
    ∃ q, program room us = .ok q := by
  rw [program_eq_whole] at accepted ⊢
  have foretold := foretells_whole room (Nat.le_refl ts.length)
  cases outcome : whole room ts.length ts with
  | error r =>
    rw [outcome] at accepted
    cases accepted
  | ok found =>
    obtain ⟨body, rest⟩ := found
    rw [outcome] at foretold
    obtain ⟨used, split, ends⟩ := foretold
    obtain rfl : rest = [] := rest_of_whole outcome
    rw [List.append_nil] at split
    obtain ⟨body', again⟩ := ends us.length us [] (by simp) (split ▸ words) rfl
    rw [List.append_nil] at again
    exact ⟨⟨body'⟩, by rw [again]; rfl⟩

/-- What stands before a refused word begins a program, and the word is refused after all tokens
with the same words. -/
theorem program_refusal {room : Nat} {ts : List Token} {r : Refusal}
    (refused : program room ts = .error r) (shallow : r.complaint ≠ .tooDeep) :
    ∃ used left, ts = used ++ left ∧ r.found = left.head? ∧
      Completable (fun more => Forms .body (used ++ more)) ∧
      ∀ used' left', SameWords used used' → SameNext left left' →
        program room (used' ++ left') = refuse left' r.complaint := by
  rw [program_eq_whole] at refused
  have foretold := foretells_whole room (Nat.le_refl ts.length)
  cases outcome : whole room ts.length ts with
  | ok found =>
    rw [outcome] at refused
    cases refused
  | error r' =>
    rw [outcome] at refused foretold
    cases refused
    rcases foretold with deep | ⟨used, left, split, found, completes, ends⟩
    · exact absurd deep shallow
    · refine ⟨used, left, split, found, completes, fun used' left' words next => ?_⟩
      rw [program_eq_whole, ends _ used' left' (Nat.lt_succ_self _) words next]
      rfl

end Parlance.Descent
