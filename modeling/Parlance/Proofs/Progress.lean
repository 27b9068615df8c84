import Parlance.Proofs.DescentRoom

/-!
# The descent parser always makes progress

Places are counted in tokens from the beginning of the source.  The place after the last token is
the end of the source, where `Scan.toList` has the token that stands for it.  A reader leaves off at
a later place than it began at, and no reader gets beyond the end, so what is looked at next is a
token or the end of the source (`Proceeds`).  That is why the loops end by themselves, whatever
bound on their rounds they are given (`Uncounted`), and why a program has one outcome for all
sufficient room: it is what comes of reading without a limit on the nesting.
-/

namespace Parlance.Descent

/-! ## Places -/

/-- From every place in the tokens up to their end, the reader gets on by so many tokens at least
but not beyond the end; or it refuses a token there or later, or the end, where there is none. -/
structure Proceeds {α : Type} (least : Nat) (ts : List Token) (reader : Reader α) : Prop where
  onward : ∀ {pos : Nat} {found : α} {rest : List Token}, pos ≤ ts.length →
    reader (ts.drop pos) = .ok (found, rest) →
      ∃ next, pos + least ≤ next ∧ next ≤ ts.length ∧ rest = ts.drop next
  within : ∀ {pos : Nat} {refusal : Refusal}, pos ≤ ts.length →
    reader (ts.drop pos) = .error refusal →
      ∃ stop, pos ≤ stop ∧ stop ≤ ts.length ∧ refusal.found = ts[stop]?

/-- An end of what begins at a place begins at a later one. -/
theorem exists_drop_of_suffix {ts left : List Token} {pos : Nat} (within : pos ≤ ts.length)
    (suffix : left <:+ ts.drop pos) :
    ∃ next, pos + ((ts.drop pos).length - left.length) ≤ next ∧ next ≤ ts.length ∧
      left = ts.drop next := by
  have fewer := suffix.length_le
  have same := List.suffix_iff_eq_drop.1 suffix
  rw [List.drop_drop] at same
  rw [List.length_drop] at fewer same ⊢
  exact ⟨_, Nat.le_refl _, by omega, same⟩

/-- A reader that keeps within its tokens gets on by what it always takes. -/
theorem proceeds_of_repeats {α : Type} {least : Nat} {reader : Reader α}
    (repeats : ∀ ts, RepeatsOn True True ts reader reader)
    (takes : ∀ {ts found rest}, reader ts = .ok (found, rest) → rest.length + least ≤ ts.length)
    (ts : List Token) : Proceeds least ts reader where
  onward := by
    intro pos found rest inside taken
    have repeated := repeats (ts.drop pos) _ (List.suffix_refl _)
    rw [taken] at repeated
    have suffix : rest <:+ ts.drop pos := repeated.suffix_of_ok
    obtain ⟨next, later, before, same⟩ := exists_drop_of_suffix inside suffix
    have fewer := takes taken
    exact ⟨next, by omega, before, same⟩
  within := by
    intro pos refusal inside refused
    have repeated := repeats (ts.drop pos) _ (List.suffix_refl _)
    rw [refused] at repeated
    obtain ⟨left, suffix, found⟩ := repeated.suffix_of_error
    obtain ⟨stop, later, before, rfl⟩ := exists_drop_of_suffix inside suffix
    exact ⟨stop, by omega, before, by rw [found, List.head?_drop]⟩

/-- A word is taken only where there is one. -/
theorem lt_of_expect {word : Word} {ts rest : List Token} {pos : Nat}
    (taken : expect word (ts.drop pos) = .ok rest) :
    pos < ts.length ∧ rest = ts.drop (pos + 1) := by
  obtain ⟨line, column, here⟩ := expect_eq_ok taken
  refine ⟨?_, ?_⟩
  · have some : (ts.drop pos).length = rest.length + 1 := by rw [here, List.length_cons]
    rw [List.length_drop] at some
    omega
  · rw [← List.tail_drop, here, List.tail_cons]

section Readers

variable {ts : List Token}

theorem proceeds_expectName : Proceeds 1 ts expectName := by
  refine proceeds_of_repeats (fun _ => repeats_expectName) (fun taken => ?_) ts
  obtain ⟨line, column, rfl⟩ := expectName_eq_ok taken
  exact Nat.le_refl _

variable (bound room : Nat)

theorem within_expression (level : Level) (ts : List Token) :
    RepeatsOn True True ts (expression bound room level) (expression bound room level) :=
  (repeats_expression (.inl rfl) (Nat.le_refl room) level).imp (fun _ => trivial) fun _ => trivial

theorem within_statement (ts : List Token) :
    RepeatsOn True True ts (statement bound room) (statement bound room) :=
  (repeats_statement (.inl rfl) (Nat.le_refl room)).imp (fun _ => trivial) fun _ => trivial

theorem proceeds_expression (level : Level) : Proceeds 1 ts (expression bound room level) :=
  proceeds_of_repeats (within_expression bound room level)
    (fun taken => shortens_expression bound room level taken) ts

theorem proceeds_statement : Proceeds 1 ts (statement bound room) :=
  proceeds_of_repeats (within_statement bound room)
    (fun taken => shortens_statement bound room taken) ts

theorem proceeds_branch (line : Nat) : Proceeds 1 ts
    (branch (statement bound room) (expression bound room .disjunction) bound line) := by
  refine proceeds_of_repeats (fun us => ?_) (fun taken => shortens_branch taken) ts
  exact repeats_branch (within_statement bound room us) (shortens_statement bound room)
    (within_expression bound room .disjunction us) (.inl rfl) line

/-- Arguments proceed by a token at least, the parenthesis that closes them. -/
theorem proceeds_arguments :
    Proceeds 1 ts (arguments (expression bound room .disjunction) bound) := by
  have shortens : Shortens (expression bound room .disjunction) :=
    shortens_expression bound room .disjunction
  have arguments (us : List Token) :=
    repeats_arguments (within_expression bound room .disjunction us) shortens
      (.inl rfl : Fit us bound bound)
  refine proceeds_of_repeats arguments (fun {us args rest} taken => ?_) ts
  by_cases closed : BeginsWith (.symbol .closeParen) us
  · obtain ⟨l, c, us, rfl⟩ := closed
    cases taken
    exact Nat.le_refl _
  · rw [arguments_of_open closed] at taken
    obtain ⟨⟨arg, after⟩, argTaken, next⟩ := bind_eq_ok.1 taken
    obtain ⟨⟨more, rest'⟩, moreTaken, same⟩ := bind_eq_ok.1 next
    cases same
    have others := repeats_argumentsAfter (within_expression bound room .disjunction after) shortens
      (List.suffix_refl after) (.inl rfl : Fit after bound bound)
    rw [moreTaken] at others
    have fewer : rest.length ≤ after.length := others.suffix_of_ok.length_le
    have fewer' := shortens argTaken
    omega

/-- A sequence proceeds with each of its statements, and may be empty. -/
theorem proceeds_sequence (closers : List Keyword) :
    Proceeds 0 ts (sequence (statement bound room) closers bound) := by
  refine proceeds_of_repeats (fun us => ?_) (fun taken => ?_) ts
  · intro vs within
    exact repeats_sequence (within_statement bound room us) (shortens_statement bound room) closers
      within (.inl rfl)
  · obtain ⟨used, rfl, _⟩ := takes_sequence (takes_statement bound room) closers bound taken
    simp

end Readers

/-! ## Loops -/

/-- The bound on the rounds of a loop plays no role: all bounds that are no less than the number of
tokens give the same. -/
def Uncounted {α : Type} (readers : Nat → Reader α) : Prop :=
  ∀ (ts : List Token) (bound bound' : Nat), ts.length ≤ bound → ts.length ≤ bound' →
    readers bound ts = readers bound' ts

section Loops

variable (room : Nat)

theorem uncounted_sequence (closers : List Keyword) :
    Uncounted fun bound => sequence (statement bound room) closers bound := by
  intro ts bound bound' enough enough'
  have fit : Fit ts bound bound' := .inr ⟨enough, enough'⟩
  exact (repeats_sequence (repeats_statement fit (Nat.le_refl room)) (shortens_statement bound room)
    closers (List.suffix_refl ts) fit).eq_of_same_room (Nat.lt_irrefl room)

theorem uncounted_chain (level : Level) :
    Uncounted fun bound => chain (expression bound room level.tighter) level bound := by
  intro ts bound bound' enough enough'
  have fit : Fit ts bound bound' := .inr ⟨enough, enough'⟩
  exact (repeats_chain (repeats_expression fit (Nat.le_refl room) _)
    (shortens_expression bound room _) fit ts (List.suffix_refl ts)).eq_of_same_room
    (Nat.lt_irrefl room)

/-- The rest of a choice is never stopped by its counter. -/
theorem uncounted_branchesAfter : Uncounted fun bound =>
    branchesAfter (statement bound room) (expression bound room .disjunction) bound bound := by
  intro ts bound bound' enough enough'
  have fit : Fit ts bound bound' := .inr ⟨enough, enough'⟩
  have statements : RepeatsOn True (room < room) ts (statement bound room)
      (statement bound' room) :=
    (repeats_statement fit (Nat.le_refl room)).imp (fun _ => trivial) id
  have conditions : RepeatsOn True (room < room) ts (expression bound room .disjunction)
      (expression bound' room .disjunction) :=
    (repeats_expression fit (Nat.le_refl room) .disjunction).imp (fun _ => trivial) id
  exact (repeats_branchesAfter statements (shortens_statement bound room) conditions
    (fun _ => shortens_branch) fit (List.suffix_refl ts) fit).eq_of_same_room (Nat.lt_irrefl room)

theorem uncounted_argumentsAfter :
    Uncounted fun bound => argumentsAfter (expression bound room .disjunction) bound := by
  intro ts bound bound' enough enough'
  have fit : Fit ts bound bound' := .inr ⟨enough, enough'⟩
  exact (repeats_argumentsAfter (repeats_expression fit (Nat.le_refl room) .disjunction)
    (shortens_expression bound room _) (List.suffix_refl ts) fit).eq_of_same_room
    (Nat.lt_irrefl room)

end Loops

/-- A sequence of statements leaves off at a closing word or at the end of the tokens. -/
theorem stops_of_sequence {statement : Reader Stmt} (shortens : Shortens statement)
    {closers : List Keyword} {bound : Nat} {ts rest : List Token} {ss : List Stmt}
    (enough : ts.length ≤ bound) (taken : sequence statement closers bound ts = .ok (ss, rest)) :
    Stops closers rest := by
  induction bound generalizing ts ss with
  | zero =>
    obtain rfl := List.eq_nil_of_length_eq_zero (Nat.le_zero.1 enough)
    cases taken
    exact .inl rfl
  | succ bound ih =>
    cases ts with
    | nil =>
      cases taken
      exact .inl rfl
    | cons t ts =>
      obtain ⟨word, l, c⟩ := t
      have enough' : ts.length ≤ bound := Nat.le_of_succ_le_succ enough
      by_cases separator : word = .symbol .semicolon
      · subst separator
        exact ih enough' taken
      by_cases closing : ∃ k ∈ closers, word = .keyword k
      · obtain ⟨k, listed, rfl⟩ := closing
        rw [sequence_of_stops listed] at taken
        cases taken
        exact .inr ⟨k, l, c, ts, rfl, listed⟩
      · have other : ∀ k ∈ closers, word ≠ .keyword k := fun k listed same =>
          closing ⟨k, listed, same⟩
        rw [sequence_of_other separator other] at taken
        obtain ⟨⟨first, after⟩, firstTaken, next⟩ := bind_eq_ok.1 taken
        obtain ⟨⟨more, rest'⟩, moreTaken, same⟩ := bind_eq_ok.1 next
        cases same
        have fewer := shortens firstTaken
        exact ih (Nat.le_trans (Nat.le_of_lt_succ fewer) enough') moreTaken

/-- A chain leaves off before a token that is no operator of its level. -/
theorem none_of_chainAfter {operand : Reader Expr} (shortens : Shortens operand) {level : Level}
    {bound : Nat} {left e : Expr} {ts rest : List Token} (enough : ts.length ≤ bound)
    (taken : chainAfter operand level bound left ts = .ok (e, rest)) :
    ∀ t ∈ rest.head?, level.operator? t.word = none := by
  induction bound generalizing ts left with
  | zero =>
    obtain rfl := List.eq_nil_of_length_eq_zero (Nat.le_zero.1 enough)
    cases taken
    simp
  | succ bound ih =>
    cases ts with
    | nil =>
      cases taken
      simp
    | cons t ts =>
      rw [chainAfter] at taken
      split at taken
      · obtain ⟨⟨right, after⟩, rightTaken, next⟩ := bind_eq_ok.1 taken
        have fewer := shortens rightTaken
        exact ih (by simp only [List.length_cons] at enough; omega) next
      · next none =>
        cases taken
        intro u here
        cases here
        exact none

theorem none_of_chain {operand : Reader Expr} (shortens : Shortens operand) {level : Level}
    {bound : Nat} {e : Expr} {ts rest : List Token} (enough : ts.length ≤ bound)
    (taken : chain operand level bound ts = .ok (e, rest)) :
    ∀ t ∈ rest.head?, level.operator? t.word = none := by
  obtain ⟨⟨first, after⟩, firstTaken, next⟩ := bind_eq_ok.1 taken
  have fewer := shortens firstTaken
  exact none_of_chainAfter shortens (Nat.le_trans (Nat.le_of_lt fewer) enough) next

/-! ## The parser -/

/-- A program is refused at one of its tokens or at their end. -/
theorem exists_of_program_error {room : Nat} {ts : List Token} {refusal : Refusal}
    (refused : program room ts = .error refusal) :
    ∃ stop ≤ ts.length, refusal.found = ts[stop]? := by
  have repeats := repeats_program (Nat.le_refl room) ts
  rw [refused] at repeats
  obtain ⟨left, suffix, found⟩ := repeats.suffix_of_error
  obtain ⟨stop, _, before, rfl⟩ := exists_drop_of_suffix (Nat.zero_le ts.length) suffix
  exact ⟨stop, before, by rw [found, List.head?_drop]⟩

/-- A program has one outcome for all room that is enough for its tokens, and with less room it has
that one or is too deep. -/
theorem exists_program_eq (ts : List Token) : ∃ answer,
    (∀ room, 9 * ts.length < room → program room ts = answer) ∧
    (∀ refusal, answer = .error refusal → refusal.complaint ≠ .tooDeep) ∧
    ∀ room, program room ts = answer ∨
      ∃ refusal, program room ts = .error refusal ∧ refusal.complaint = .tooDeep := by
  have enough {room room' : Nat} (fits : 9 * ts.length < room) (roomier : room ≤ room') :=
    (repeats_program roomier ts).eq_of_enough (by omega)
  refine ⟨program (9 * ts.length + 1) ts, fun room fits => ?_, ?_, fun room => ?_⟩
  · exact (enough (Nat.lt_succ_self _) fits).1.symm
  · exact (enough (Nat.lt_succ_self _) (Nat.le_refl _)).2
  · rcases Nat.lt_or_ge (9 * ts.length) room with fits | small
    · exact .inl (enough (Nat.lt_succ_self _) fits).1.symm
    · exact (repeats_program (Nat.le_succ_of_le small) ts).eq_or_tooDeep

/-- The descent parser always makes progress.  A statement, an expression of any level, a branch and
arguments take a token at least and do not get beyond the end of the tokens, and a word is taken
only where there is one.  So the loops end, and where their own condition says; and a program has
one outcome for all room that is enough for its tokens, which is never that it is too deep.  With
less room it has that outcome, or it is too deep. -/
theorem parser_makes_progress (ts : List Token) :
    (∀ bound room,
      Proceeds 1 ts (statement bound room) ∧
      (∀ level, Proceeds 1 ts (expression bound room level)) ∧
      (∀ line, Proceeds 1 ts
        (branch (statement bound room) (expression bound room .disjunction) bound line)) ∧
      Proceeds 1 ts (arguments (expression bound room .disjunction) bound) ∧
      ∀ closers, Proceeds 0 ts (sequence (statement bound room) closers bound)) ∧
    Proceeds 1 ts expectName ∧
    (∀ word pos rest, expect word (ts.drop pos) = .ok rest →
      pos < ts.length ∧ rest = ts.drop (pos + 1)) ∧
    (∀ room,
      (∀ closers, Uncounted fun bound => sequence (statement bound room) closers bound) ∧
      (∀ level, Uncounted fun bound => chain (expression bound room level.tighter) level bound) ∧
      (Uncounted fun bound =>
        branchesAfter (statement bound room) (expression bound room .disjunction) bound bound) ∧
      Uncounted fun bound => argumentsAfter (expression bound room .disjunction) bound) ∧
    (∀ bound room us rest, us.length ≤ bound →
      (∀ closers ss, sequence (statement bound room) closers bound us = .ok (ss, rest) →
        Stops closers rest) ∧
      ∀ level e, chain (expression bound room level.tighter) level bound us = .ok (e, rest) →
        ∀ t ∈ rest.head?, level.operator? t.word = none) ∧
    ∃ answer,
      (∀ room, 9 * ts.length < room → program room ts = answer) ∧
      (∀ refusal, answer = .error refusal → refusal.complaint ≠ .tooDeep) ∧
      ∀ room,
        (program room ts = answer ∨
          ∃ refusal, program room ts = .error refusal ∧ refusal.complaint = .tooDeep) ∧
        ∀ refusal, program room ts = .error refusal →
          ∃ stop ≤ ts.length, refusal.found = ts[stop]? := by
  refine ⟨fun bound room => ⟨proceeds_statement bound room, proceeds_expression bound room,
    proceeds_branch bound room, proceeds_arguments bound room, proceeds_sequence bound room⟩,
    proceeds_expectName, fun word pos rest => lt_of_expect, fun room => ⟨uncounted_sequence room,
    uncounted_chain room, uncounted_branchesAfter room, uncounted_argumentsAfter room⟩, ?_, ?_⟩
  · intro bound room us rest enough
    refine ⟨fun closers ss taken => ?_, fun level e taken => ?_⟩
    · exact stops_of_sequence (shortens_statement bound room) enough taken
    · exact none_of_chain (shortens_expression bound room _) enough taken
  · obtain ⟨answer, settled, deep, outcomes⟩ := exists_program_eq ts
    exact ⟨answer, settled, deep, fun room =>
      ⟨outcomes room, fun refusal refused => exists_of_program_error refused⟩⟩

/-- The operand of a statement is read up to the next one. -/
theorem parser_makes_progress_past_sum :
    let ts : List Token := [⟨.keyword .sayWord, 1, 1⟩, ⟨.name "a", 1, 5⟩, ⟨.symbol .plus, 1, 7⟩,
      ⟨.name "b", 1, 9⟩, ⟨.keyword .breakWord, 2, 1⟩]
    ∃ e next, expression 5 46 .disjunction (ts.drop 1) = .ok (e, ts.drop next) ∧ 1 < next ∧
      next ≤ 5 := by
  intro ts
  have taken : expression 5 46 .disjunction (ts.drop 1) =
      .ok (.binary .add (.name "a" 1) (.name "b" 1) 1, ts.drop 4) := rfl
  obtain ⟨_, expressions, _⟩ := (parser_makes_progress ts).1 5 46
  obtain ⟨next, later, before, same⟩ := (expressions .disjunction).onward (by decide) taken
  exact ⟨_, next, by rw [taken, same], later, before⟩

end Parlance.Descent
