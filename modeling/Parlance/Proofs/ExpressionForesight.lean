import Parlance.Proofs.Foresight

/-!
# Expressions and the words they are read from

The readers of all levels foresee: where one of them stops or refuses is up to the words before and
the next one, and a refused expression could have gone on.  Chains and arguments are read in loops,
so their lemmas say what has been read before and what its completion has to be.
-/

namespace Parlance.Descent

/-- A chain reads the same words alike under every bound.  Where it stops at a word, what it has
read is an expression already, so nothing needs to complete it. -/
theorem foretells_chainAfter {level : Level} {operands : Nat → Reader Expr}
    (foresees : Foresees (.expr level.tighter) operands) {bound count : Nat} {left : Expr}
    {before ts : List Token} (derived : Derives before (.expr level left))
    (small : ts.length ≤ bound) (enough : ts.length ≤ count) :
    Foretells (fun p : Nat × Nat × Expr => min p.1 p.2.1 + 1)
      (fun p => chainAfter (operands p.1) level p.2.1 p.2.2)
      (fun us => Forms (.expr level) (before ++ us)) ts
      (chainAfter (operands bound) level count left ts) := by
  induction count generalizing left before ts with
  | zero =>
    obtain rfl := List.eq_nil_of_length_eq_zero (Nat.le_zero.1 enough)
    refine foretells_ok fun p us next => ⟨p.2.2, chainAfter_of_none ?_⟩
    rw [next.eq_nil]
    rintro t ⟨⟩
  | succ count ih =>
    cases ts with
    | nil =>
      refine foretells_ok fun p us next => ⟨p.2.2, chainAfter_of_none ?_⟩
      rw [next.eq_nil]
      rintro t ⟨⟩
    | cons t ts =>
      obtain ⟨w, l, c⟩ := t
      simp only [List.length_cons] at small enough
      cases found : level.operator? w with
      | none =>
        rw [chainAfter_of_none (by rintro t ⟨⟩; exact found)]
        refine foretells_ok fun p us next => ⟨p.2.2, chainAfter_of_none ?_⟩
        obtain ⟨l', c', us, rfl⟩ := next.eq_cons
        rintro t ⟨⟩
        exact found
      | some op =>
        obtain ⟨own, rfl⟩ := Level.operator?_eq_some_iff.1 found
        have step {operand : Reader Expr} {count l c : Nat} {left : Expr} {ts : List Token} :
            chainAfter operand level (count + 1) left (⟨op.word, l, c⟩ :: ts) =
              operand ts >>= fun r =>
                chainAfter operand level count (Expr.join op left r.1) r.2 := by
          rw [chainAfter, found]
        rw [step]
        refine Foretells.take ?_
        refine Foretells.congr (foresees.bind (by omega) (fun p => p.1.1) ?_
          (fun p r => chainAfter (operands p.1.1) level (p.1.2.1 - 1)
            (Expr.join op p.1.2.2 r.1) r.2) ?_ ?_) ?_
        · intro p
          omega
        · rintro us ⟨e, right⟩
          have joined : Derives (before ++ ⟨op.word, l, c⟩ :: us)
              (.expr level (Expr.join op left e)) := .binary own derived right
          exact ⟨[], by simp, _, by simpa using joined⟩
        · intro right used rest lengths rightDerived
          have joined : Derives (before ++ ⟨op.word, l, c⟩ :: used)
              (.expr level (Expr.join op left right)) := .binary own derived rightDerived
          simp only [← List.cons_append, ← List.append_assoc]
          refine Foretells.reindex (ih joined (by omega) (by omega))
            (fun p => (p.1.1.1, p.1.1.2.1 - 1, Expr.join op p.1.1.2.2 p.2)) (fun p => ?_)
            fun _ => rfl
          dsimp only
          omega
        · rintro ⟨⟨bound', count', left'⟩, l', c'⟩ us small' _
          obtain ⟨n, rfl⟩ : ∃ n, count' = n + 1 := ⟨count' - 1, by dsimp only at small'; omega⟩
          exact step

/-- A level of operators foresees if its operands do. -/
theorem foresees_chain {level : Level} (loose : level ≠ .atom) {operands : Nat → Reader Expr}
    (foresees : Foresees (.expr level.tighter) operands) :
    Foresees (.expr level) fun bound => chain (operands bound) level bound where
  takes bound := takes_chain loose (foresees.takes bound) bound
  foretells {bound ts} small := by
    refine foresees.bind small (fun bound => bound) (fun _ => Nat.le_refl _) _ ?_ ?_
    · rintro us ⟨e, derived⟩
      exact .done ⟨e, .tighter loose derived⟩
    · intro first used rest lengths derived
      refine Foretells.reindex
        (foretells_chainAfter foresees (.tighter loose derived) (by omega) (by omega))
        (fun p => (p.1, p.1, p.2)) (fun p => ?_) fun _ => rfl
      dsimp only
      omega

/-- The tokens are the arguments of a call after the first, whatever that one is, and the closing
parenthesis. -/
def ClosesArgs (us : List Token) : Prop :=
  ∃ inside es l c, us = inside ++ [⟨.symbol .closeParen, l, c⟩] ∧
    ∀ {first e}, Derives first (.expr .disjunction e) → Derives (first ++ inside) (.args (e :: es))

theorem closesArgs_close (l c : Nat) : ClosesArgs [⟨.symbol .closeParen, l, c⟩] :=
  ⟨[], [], l, c, rfl, fun derived => by simpa using .lastArg derived⟩

theorem ClosesArgs.more {arg us : List Token} {e : Expr} {l c : Nat}
    (derived : Derives arg (.expr .disjunction e)) (closes : ClosesArgs us) :
    ClosesArgs (⟨.symbol .comma, l, c⟩ :: (arg ++ us)) := by
  obtain ⟨inside, es, l', c', rfl, args⟩ := closes
  exact ⟨⟨.symbol .comma, l, c⟩ :: (arg ++ inside), e :: es, l', c', by simp,
    fun first => .moreArgs first (args derived)⟩

/-- Further arguments are read alike, and arguments that have been begun can always be closed. -/
theorem foretells_argumentsAfter {operands : Nat → Reader Expr}
    (foresees : Foresees (.expr .disjunction) operands) {bound count : Nat} {ts : List Token}
    (small : ts.length ≤ bound) (enough : ts.length ≤ count) :
    Foretells (fun p : Nat × Nat => min p.1 p.2 + 1) (fun p => argumentsAfter (operands p.1) p.2)
      ClosesArgs ts (argumentsAfter (operands bound) count ts) := by
  -- Without a comma the parenthesis has to come.
  have last {count : Nat} {ts : List Token} (other : ¬ BeginsWith (.symbol .comma) ts) :
      Foretells (fun p : Nat × Nat => min p.1 p.2 + 1)
        (fun p => argumentsAfter (operands p.1) p.2) ClosesArgs ts
        (argumentsAfter (operands bound) count ts) := by
    rw [argumentsAfter_of_other other]
    refine Foretells.congr (foretells_expect ?_ fun {l c us} split =>
      foretells_ok fun p us next => ⟨[], rfl⟩) fun p us _ next =>
        argumentsAfter_of_other fun comma => other (next.beginsWith comma)
    exact .symbol .closeParen (.nothing (closesArgs_close 0 0))
  induction count generalizing ts with
  | zero =>
    obtain rfl := List.eq_nil_of_length_eq_zero (Nat.le_zero.1 enough)
    refine last ?_
    rintro ⟨l, c, us, ⟨⟩⟩
  | succ count ih =>
    by_cases comma : BeginsWith (.symbol .comma) ts
    · obtain ⟨l, c, ts, rfl⟩ := comma
      simp only [List.length_cons] at small enough
      rw [argumentsAfter_comma]
      refine Foretells.take ?_
      refine Foretells.congr (foresees.bind (by omega) (fun p => p.1.1) ?_
        (fun p arg => argumentsAfter (operands p.1.1) (p.1.2 - 1) arg.2 >>= fun args =>
          pure (arg.1 :: args.1, args.2)) ?_ ?_) ?_
      · intro p
        omega
      · rintro us ⟨e, derived⟩
        exact .symbol .closeParen (.nothing (.more derived (closesArgs_close 0 0)))
      · intro e used rest lengths derived
        dsimp only
        refine Foretells.map ?_ (fun _ => ⟨_, rfl⟩) fun _ _ => ⟨_, rfl⟩
        refine Foretells.mono ?_ fun us (closes : ClosesArgs us) => closes.more derived
        refine Foretells.reindex (ih (by omega) (by omega)) (fun p => (p.1.1.1, p.1.1.2 - 1))
          (fun p => ?_) fun _ => rfl
        dsimp only
        omega
      · rintro ⟨⟨bound', count'⟩, l', c'⟩ us small' _
        obtain ⟨n, rfl⟩ : ∃ n, count' = n + 1 := ⟨count' - 1, by dsimp only at small'; omega⟩
        exact argumentsAfter_comma
    · exact last comma

/-- The tokens make a call, after its name and the opening parenthesis. -/
def ClosesCall (us : List Token) : Prop :=
  ∀ s l c l' c', Forms (.expr .atom) (⟨.name s, l, c⟩ :: ⟨.symbol .openParen, l', c'⟩ :: us)

/-- An argument in front of what closes the arguments closes the call. -/
theorem ClosesArgs.call {arg us : List Token} {e : Expr}
    (derived : Derives arg (.expr .disjunction e)) (closes : ClosesArgs us) :
    ClosesCall (arg ++ us) := by
  obtain ⟨inside, es, l₂, c₂, rfl, args⟩ := closes
  intro s l c l' c'
  have whole : Derives (⟨.name s, l, c⟩ :: ⟨.symbol .openParen, l', c'⟩ :: (arg ++ inside) ++
      [⟨.symbol .closeParen, l₂, c₂⟩]) (.expr .atom (.call s (e :: es) l)) := .call (args derived)
  exact ⟨_, by simpa using whole⟩

/-- The arguments of a call are read alike, and can always be closed. -/
theorem foretells_arguments {operands : Nat → Reader Expr}
    (foresees : Foresees (.expr .disjunction) operands) {bound : Nat} {ts : List Token}
    (small : ts.length ≤ bound) :
    Foretells (fun bound => bound + 1) (fun bound => arguments (operands bound) bound) ClosesCall ts
      (arguments (operands bound) bound ts) := by
  by_cases closed : BeginsWith (.symbol .closeParen) ts
  · obtain ⟨l, c, ts, rfl⟩ := closed
    exact Foretells.take (foretells_ok fun p us _ => ⟨[], rfl⟩)
  · rw [arguments_of_open closed]
    refine Foretells.congr (foresees.bind small (fun bound => bound) (fun _ => Nat.le_refl _)
      (fun bound arg => argumentsAfter (operands bound) bound arg.2 >>= fun args =>
        pure (arg.1 :: args.1, args.2)) ?_ ?_)
      fun bound us _ next => arguments_of_open fun begins => closed (next.beginsWith begins)
    · rintro us ⟨e, derived⟩
      exact .symbol .closeParen (.nothing ((closesArgs_close 0 0).call derived))
    · intro e used rest lengths derived
      dsimp only
      refine Foretells.map ?_ (fun _ => ⟨_, rfl⟩) fun _ _ => ⟨_, rfl⟩
      refine Foretells.mono ?_ fun us (closes : ClosesArgs us) => closes.call derived
      refine Foretells.reindex (foretells_argumentsAfter foresees (by omega) (by omega))
        (fun p => (p.1, p.1)) (fun p => ?_) fun _ => rfl
      dsimp only
      omega

/-- Atoms foresee: what has been read of a group or a call can be completed by an operand and a
closing parenthesis. -/
theorem foresees_atom {inners : Nat → Reader Expr}
    (foresees : Foresees (.expr .disjunction) inners) :
    Foresees (.expr .atom) fun bound => atom (inners bound) bound where
  takes bound := takes_atom (foresees.takes bound) bound
  foretells {bound ts} small := by
    have refused {ts : List Token} (other : ∀ t ∈ ts.head?, t.word.opensOperand .atom = false) :
        Foretells (fun bound => bound + 1) (fun bound => atom (inners bound) bound)
          (Forms (.expr .atom)) ts (atom (inners bound) bound ts) := by
      rw [atom_of_other other]
      refine foretells_refuse ?_ fun bound us next =>
        atom_of_other (next.forall_head (·.opensOperand .atom = false) other)
      exact .keyword .trueWord (.nothing ⟨_, .trueWord⟩)
    cases ts with
    | nil => exact refused (by rintro t ⟨⟩)
    | cons t ts =>
      obtain ⟨w, l, c⟩ := t
      simp only [List.length_cons] at small
      cases w with
      | finish => exact refused (by rintro t ⟨⟩; rfl)
      | number digits => exact Foretells.take (foretells_ok fun _ _ _ => ⟨_, rfl⟩)
      | text content => exact Foretells.take (foretells_ok fun _ _ _ => ⟨_, rfl⟩)
      | keyword k =>
        cases k with
        | trueWord => exact Foretells.take (foretells_ok fun _ _ _ => ⟨_, rfl⟩)
        | falseWord => exact Foretells.take (foretells_ok fun _ _ _ => ⟨_, rfl⟩)
        | _ => exact refused (by rintro t ⟨⟩; rfl)
      | name s =>
        by_cases opened : BeginsWith (.symbol .openParen) ts
        · obtain ⟨l', c', ts, rfl⟩ := opened
          simp only [List.length_cons] at small
          change Foretells _ _ _ _ (arguments (inners bound) bound ts >>= fun args =>
            pure (Expr.call s args.1 l, args.2))
          refine Foretells.take (Foretells.take ?_)
          refine Foretells.map ?_ (fun _ => ⟨_, rfl⟩) fun _ _ => ⟨_, rfl⟩
          refine Foretells.mono ?_ fun us (closes : ClosesCall us) => closes s l c l' c'
          refine Foretells.reindex (foretells_arguments foresees (by omega)) (fun p => p.1.1)
            (fun p => ?_) fun _ => rfl
          omega
        · rw [atom_name opened]
          exact Foretells.take (foretells_ok fun p us next =>
            ⟨_, atom_name fun begins => opened (next.beginsWith begins)⟩)
      | symbol mark =>
        cases mark with
        | openParen =>
          change Foretells _ _ _ _ (inners bound ts >>= fun inner =>
            expect (.symbol .closeParen) inner.2 >>= fun rest => pure (inner.1, rest))
          refine Foretells.take ?_
          refine Foretells.congr (foresees.bind (by omega) (fun p => p.1) ?_
            (fun p inner => expect (.symbol .closeParen) inner.2 >>= fun rest =>
              pure (inner.1, rest)) ?_ ?_) fun _ _ _ _ => rfl
          · intro p
            omega
          · rintro us ⟨e, derived⟩
            exact .symbol .closeParen (.nothing ⟨e, .group derived⟩)
          · intro e used rest lengths derived
            refine foretells_expect ?_ fun _ => foretells_ok fun _ _ _ => ⟨_, rfl⟩
            exact .symbol .closeParen (.nothing ⟨e, .group derived⟩)
        | _ => exact refused (by rintro t ⟨⟩; rfl)

/-- A level with an operator in front of its operands. -/
theorem foretells_prefixed {level : Level} (loose : level ≠ .atom) {w : Word}
    {make : Expr → Nat → Expr} {readers operands inners : Nat → Reader Expr}
    (again : Foresees (.expr level) operands) (inner : Foresees (.expr level.tighter) inners)
    (derives : ∀ {us e l c}, Derives us (.expr level e) →
      Derives (⟨w, l, c⟩ :: us) (.expr level (make e l)))
    (marked : ∀ {bound l c us}, readers bound (⟨w, l, c⟩ :: us) = (do
      let (operand, rest) ← operands bound us
      return (make operand l, rest)))
    (plain : ∀ {bound us}, ¬ BeginsWith w us → readers bound us = inners bound us)
    {bound : Nat} {ts : List Token} (small : ts.length ≤ bound) :
    Foretells (fun bound => bound + 1) readers (Forms (.expr level)) ts (readers bound ts) := by
  by_cases begins : BeginsWith w ts
  · obtain ⟨l, c, ts, rfl⟩ := begins
    rw [List.length_cons] at small
    have few : ts.length ≤ bound := by omega
    rw [marked]
    refine Foretells.take ?_
    refine Foretells.congr ?_ fun p us _ _ => marked
    refine Foretells.map ?_ (fun _ => ⟨_, rfl⟩) fun _ _ => ⟨_, rfl⟩
    refine Foretells.mono (again.within few (fun p : Nat × Nat × Nat => p.1) fun p => ?_) ?_
    · omega
    · rintro us ⟨e, derived⟩
      exact ⟨_, derives derived⟩
  · rw [plain begins]
    refine Foretells.congr (Foretells.mono (inner.foretells small) ?_)
      fun bound us _ next => plain fun begins' => begins (next.beginsWith begins')
    rintro us ⟨e, derived⟩
    exact ⟨e, .tighter loose derived⟩

/-- Expressions of every level foresee, whatever the room; the induction is on the room, and within
it on the level. -/
theorem foresees_expression (room : Nat) (level : Level) :
    Foresees (.expr level) fun bound => expression bound room level := by
  induction room generalizing level with
  | zero => exact ⟨fun bound => takes_expression bound 0 level, fun _ => foretells_tooDeep⟩
  | succ room ih =>
    refine ⟨fun bound => takes_expression bound (room + 1) level, fun {bound ts} small => ?_⟩
    by_cases binary : level.isBinary = true
    · have loose : level ≠ .atom := by
        rintro rfl
        cases binary
      have chained := (foresees_chain loose (ih level.tighter)).foretells small
      rw [← expression_of_isBinary binary] at chained
      exact chained.congr fun bound us _ _ => expression_of_isBinary binary bound room us
    · cases level with
      | negation =>
        exact foretells_prefixed (by decide) (ih .negation) (ih .equality) .not rfl
          expression_negation small
      | sign =>
        exact foretells_prefixed (by decide) (ih .sign) (ih .atom) .negate rfl expression_sign small
      | atom => exact (foresees_atom (ih .disjunction)).foretells small
      | _ => exact absurd rfl binary

end Parlance.Descent
