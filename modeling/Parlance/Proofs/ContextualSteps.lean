import Parlance.Contextual.Automaton

/-!
# What a word does to the stack machine

`Step` lists what one word can do, point by point, with what is asked of the word and of the stacks;
`Finish` lists the ways in which a source can end.  Every step that the machine takes and every end
that it accepts is one of these (`Step.of_step`, `Finish.of_finish?`), so a property of its states
is shown case by case, and nothing else has to look into the functions that the machine is put
together from.
-/

namespace Parlance.Contextual

/-- The word brings the machine from the first state to the second one. -/
inductive Step (word : Lexeme) : State → State → Prop
  -- Between statements.
  | set {blocks done situation} (read : word.terminal = .keyword .setWord) :
    Step word ⟨blocks, done, .statement situation⟩
      ⟨blocks, done, .target (.declare false) word.line⟩
  | keep {blocks done situation} (read : word.terminal = .keyword .keepWord) :
    Step word ⟨blocks, done, .statement situation⟩
      ⟨blocks, done, .target (.declare true) word.line⟩
  | change {blocks done situation} (read : word.terminal = .keyword .changeWord) :
    Step word ⟨blocks, done, .statement situation⟩ ⟨blocks, done, .target .assign word.line⟩
  | ask {blocks done situation} (read : word.terminal = .keyword .askWord) :
    Step word ⟨blocks, done, .statement situation⟩ ⟨blocks, done, .target .ask word.line⟩
  | loop {blocks done situation} (read : word.terminal = .keyword .loopWord) :
    Step word ⟨blocks, done, .statement situation⟩ ⟨blocks, done, .target .loop word.line⟩
  | assign {blocks done situation} (read : word.terminal = .name) :
    Step word ⟨blocks, done, .statement situation⟩
      ⟨blocks, done, .assignment (.assign (String.ofList word.letters) word.line)⟩
  | say {blocks done situation} (read : word.terminal = .keyword .sayWord) :
    Step word ⟨blocks, done, .statement situation⟩ ⟨blocks, done, .operand (.say word.line) []⟩
  | display {blocks done situation} (read : word.terminal = .keyword .showWord) :
    Step word ⟨blocks, done, .statement situation⟩ ⟨blocks, done, .operand (.display word.line) []⟩
  | choose {blocks done situation}
      (read : word.terminal = .keyword .whenWord ∨ word.terminal = .keyword .checkWord) :
    Step word ⟨blocks, done, .statement situation⟩
      ⟨blocks, done, .operand (.condition word.line [] word.line) []⟩
  | whilst {blocks done situation} (read : word.terminal = .keyword .repeatWord) :
    Step word ⟨blocks, done, .statement situation⟩ ⟨blocks, done, .condition word.line⟩
  | leave {blocks done situation} (read : word.terminal = .keyword .breakWord) :
    Step word ⟨blocks, done, .statement situation⟩
      ⟨blocks, .leave word.line :: done, .statement .between⟩
  | next {blocks done situation} (read : word.terminal = .keyword .continueWord) :
    Step word ⟨blocks, done, .statement situation⟩
      ⟨blocks, .next word.line :: done, .statement .between⟩
  | semicolon {blocks done situation} (read : word.terminal = .symbol .semicolon) :
    Step word ⟨blocks, done, .statement situation⟩ ⟨blocks, done, .statement .between⟩
  | close {block blocks done situation} (read : word.terminal = .keyword .endWord) :
    Step word ⟨block :: blocks, done, .statement situation⟩
      ⟨blocks, block.close done, .statement .between⟩
  | otherwise {before line earlier condition branchLine blocks done situation}
      (read : word.terminal = .keyword .otherwiseWord) :
    Step word ⟨.branch before line earlier condition branchLine :: blocks, done,
        .statement situation⟩
      ⟨.otherwise before line (endBranch done earlier condition branchLine) :: blocks, [],
        .statement .blockStart⟩
  | otherwiseWhen {before line earlier condition branchLine blocks done situation}
      (read : word.terminal = .otherwiseWhen) :
    Step word ⟨.branch before line earlier condition branchLine :: blocks, done,
        .statement situation⟩
      ⟨blocks, before, .operand (.condition line (endBranch done earlier condition branchLine)
        (word.line + word.letters.count '\n')) []⟩
  -- A name that is due.
  | declared {blocks done fixed line} (read : word.terminal = .name) :
    Step word ⟨blocks, done, .target (.declare fixed) line⟩
      ⟨blocks, done, .assignment (.declare (String.ofList word.letters) fixed line)⟩
  | changed {blocks done line} (read : word.terminal = .name) :
    Step word ⟨blocks, done, .target .assign line⟩
      ⟨blocks, done, .assignment (.assign (String.ofList word.letters) line)⟩
  | counter {blocks done line} (read : word.terminal = .name) :
    Step word ⟨blocks, done, .target .loop line⟩
      ⟨blocks, done, .assignment (.first (String.ofList word.letters) line)⟩
  | asked {blocks done line} (read : word.terminal = .name) :
    Step word ⟨blocks, done, .target .ask line⟩
      ⟨blocks, .ask (String.ofList word.letters) line :: done, .statement .between⟩
  -- A sign that is due.
  | equals {blocks done purpose} (read : word.terminal = .symbol .assign) :
    Step word ⟨blocks, done, .assignment purpose⟩ ⟨blocks, done, .operand purpose []⟩
  | test {blocks done line} (read : word.terminal = .symbol .openParen) :
    Step word ⟨blocks, done, .condition line⟩ ⟨blocks, done, .operand (.whilst line) []⟩
  | enter {blocks done condition line} (read : word.terminal = .keyword .doWord) :
    Step word ⟨blocks, done, .body condition line⟩
      ⟨.whilst done condition line :: blocks, [], .statement .blockStart⟩
  -- An operand.
  | number {blocks done purpose pending} (read : word.terminal = .number) :
    Step word ⟨blocks, done, .operand purpose pending⟩
      ⟨blocks, done, .operator purpose pending
        (.number (Number.literal (String.ofList word.letters)) word.line)⟩
  | text {blocks done purpose pending} (read : word.terminal = .text) :
    Step word ⟨blocks, done, .operand purpose pending⟩
      ⟨blocks, done, .operator purpose pending
        (.text (String.ofList word.letters.tail.dropLast) word.line)⟩
  | trueWord {blocks done purpose pending} (read : word.terminal = .keyword .trueWord) :
    Step word ⟨blocks, done, .operand purpose pending⟩
      ⟨blocks, done, .operator purpose pending (.flag true word.line)⟩
  | falseWord {blocks done purpose pending} (read : word.terminal = .keyword .falseWord) :
    Step word ⟨blocks, done, .operand purpose pending⟩
      ⟨blocks, done, .operator purpose pending (.flag false word.line)⟩
  | name {blocks done purpose pending} (read : word.terminal = .name) :
    Step word ⟨blocks, done, .operand purpose pending⟩
      ⟨blocks, done, .name purpose pending (String.ofList word.letters) word.line⟩
  | negate {blocks done purpose pending} (read : word.terminal = .symbol .minus) :
    Step word ⟨blocks, done, .operand purpose pending⟩
      ⟨blocks, done, .operand purpose (.unary .negate word.line :: pending)⟩
  | not {blocks done purpose pending} (read : word.terminal = .keyword .notWord) :
    Step word ⟨blocks, done, .operand purpose pending⟩
      ⟨blocks, done, .operand purpose (.unary .not word.line :: pending)⟩
  | group {blocks done purpose pending} (read : word.terminal = .symbol .openParen) :
    Step word ⟨blocks, done, .operand purpose pending⟩
      ⟨blocks, done, .operand purpose (.group :: pending)⟩
  | callNone {blocks done purpose pending name line} (read : word.terminal = .symbol .closeParen) :
    Step word ⟨blocks, done, .operand purpose (.call name line [] :: pending)⟩
      ⟨blocks, done, .operator purpose pending (.call name [] line)⟩
  -- After an operand.  A name that no parenthesis follows is an operand like any other.
  | call {blocks done purpose pending name line} (read : word.terminal = .symbol .openParen) :
    Step word ⟨blocks, done, .name purpose pending name line⟩
      ⟨blocks, done, .operand purpose (.call name line [] :: pending)⟩
  | bare {blocks done purpose pending name line s} (read : word.terminal ≠ .symbol .openParen)
      (step : Step word ⟨blocks, done, .operator purpose pending (.name name line)⟩ s) :
    Step word ⟨blocks, done, .name purpose pending name line⟩ s
  | binary {blocks done purpose pending value op} (read : word.terminal.operator? = some op) :
    Step word ⟨blocks, done, .operator purpose pending value⟩
      ⟨blocks, done, .operand purpose
        (.binary op (settle (binaryLevel op) pending value).2 ::
          (settle (binaryLevel op) pending value).1)⟩
  | endGroup {blocks done purpose pending value rest inner}
      (read : word.terminal = .symbol .closeParen)
      (settled : settle 0 pending value = (.group :: rest, inner)) :
    Step word ⟨blocks, done, .operator purpose pending value⟩
      ⟨blocks, done, .operator purpose rest inner⟩
  | lastArg {blocks done purpose pending value rest name line args last}
      (read : word.terminal = .symbol .closeParen)
      (settled : settle 0 pending value = (.call name line args :: rest, last)) :
    Step word ⟨blocks, done, .operator purpose pending value⟩
      ⟨blocks, done, .operator purpose rest (.call name (args.reverse ++ [last]) line)⟩
  | moreArgs {blocks done purpose pending value rest name line args arg}
      (read : word.terminal = .symbol .comma)
      (settled : settle 0 pending value = (.call name line args :: rest, arg)) :
    Step word ⟨blocks, done, .operator purpose pending value⟩
      ⟨blocks, done, .operand purpose (.call name line (arg :: args) :: rest)⟩
  -- After a whole expression.
  | branch {blocks done pending value line earlier branchLine condition}
      (read : word.terminal = .keyword .doWord)
      (settled : settle 0 pending value = ([], condition)) :
    Step word ⟨blocks, done, .operator (.condition line earlier branchLine) pending value⟩
      ⟨.branch done line earlier condition branchLine :: blocks, [], .statement .between⟩
  | range {blocks done pending value name first line last}
      (read : word.terminal = .keyword .doWord) (settled : settle 0 pending value = ([], last)) :
    Step word ⟨blocks, done, .operator (.last name first line) pending value⟩
      ⟨.range done name first last line :: blocks, [], .statement .blockStart⟩
  | upTo {blocks done pending value name line first} (read : word.terminal = .keyword .toWord)
      (settled : settle 0 pending value = ([], first)) :
    Step word ⟨blocks, done, .operator (.first name line) pending value⟩
      ⟨blocks, done, .operand (.last name first line) []⟩
  | tested {blocks done pending value line condition} (read : word.terminal = .symbol .closeParen)
      (settled : settle 0 pending value = ([], condition)) :
    Step word ⟨blocks, done, .operator (.whilst line) pending value⟩
      ⟨blocks, done, .body condition line⟩
  | finish {blocks done purpose pending value whole stmt s}
      (settled : settle 0 pending value = ([], whole))
      (finished : purpose.finish? whole = some stmt)
      (step : Step word ⟨blocks, stmt :: done, .statement .between⟩ s) :
    Step word ⟨blocks, done, .operator purpose pending value⟩ s

/-- The source can end in the state, with the statements. -/
inductive Finish : State → List Stmt → Prop
  | between {done situation} : Finish ⟨[], done, .statement situation⟩ done
  | bare {done purpose pending name line body}
      (finish : Finish ⟨[], done, .operator purpose pending (.name name line)⟩ body) :
    Finish ⟨[], done, .name purpose pending name line⟩ body
  | complete {done purpose pending value whole stmt}
      (settled : settle 0 pending value = ([], whole))
      (finished : purpose.finish? whole = some stmt) :
    Finish ⟨[], done, .operator purpose pending value⟩ (stmt :: done)

/-! ## The steps of the machine -/

section

variable {blocks : List Open} {done : List Stmt} {purpose : Purpose} {pending : List Pending}
variable {value : Expr} {word : Lexeme} {s s' : State}

/-- The words between statements, each with what it begins or ends. -/
theorem Step.of_stepStatement {situation : Situation}
    (stepped : stepStatement blocks done word = some s) :
    Step word ⟨blocks, done, .statement situation⟩ s := by
  unfold stepStatement at stepped
  dsimp only at stepped
  split at stepped
  · next read => cases stepped; exact .set read
  · next read => cases stepped; exact .keep read
  · next read => cases stepped; exact .change read
  · next read => cases stepped; exact .ask read
  · next read => cases stepped; exact .loop read
  · next read => cases stepped; exact .assign read
  · next read => cases stepped; exact .say read
  · next read => cases stepped; exact .display read
  · next read => cases stepped; exact .choose (.inl read)
  · next read => cases stepped; exact .choose (.inr read)
  · next read => cases stepped; exact .whilst read
  · next read => cases stepped; exact .leave read
  · next read => cases stepped; exact .next read
  · next read => cases stepped; exact .semicolon read
  · next read =>
    split at stepped
    · cases stepped
      exact .close read
    · cases stepped
  · next read =>
    split at stepped
    · cases stepped
      exact .otherwise read
    · cases stepped
  · next read =>
    split at stepped
    · cases stepped
      exact .otherwiseWhen read
    · cases stepped
  · cases stepped

/-- The words that an operand begins with, and the parenthesis of a call without arguments. -/
theorem Step.of_stepOperand {point : Point}
    (stepped : stepOperand purpose pending word = some point) :
    Step word ⟨blocks, done, .operand purpose pending⟩ ⟨blocks, done, point⟩ := by
  unfold stepOperand at stepped
  dsimp only at stepped
  split at stepped
  · next read => cases stepped; exact .number read
  · next read => cases stepped; exact .text read
  · next read => cases stepped; exact .trueWord read
  · next read => cases stepped; exact .falseWord read
  · next read => cases stepped; exact .name read
  · next read => cases stepped; exact .negate read
  · next read => cases stepped; exact .not read
  · next read => cases stepped; exact .group read
  · next read =>
    split at stepped
    · cases stepped
      exact .callNone read
    · cases stepped
  · cases stepped

/-- The words after a whole expression; most of them belong to the next statement. -/
theorem Step.of_stepComplete {whole : Expr} (settled : settle 0 pending value = ([], whole))
    (stepped : stepComplete blocks done purpose whole word = some s) :
    Step word ⟨blocks, done, .operator purpose pending value⟩ s := by
  unfold stepComplete at stepped
  split at stepped
  · next read => cases stepped; exact .branch read settled
  · next read => cases stepped; exact .range read settled
  · next read => cases stepped; exact .upTo read settled
  · next read => cases stepped; exact .tested read settled
  · split at stepped
    · next finished => exact .finish settled finished (.of_stepStatement stepped)
    · cases stepped

/-- The words after an operand: an operator, a parenthesis, a comma, or one that ends the
expression. -/
theorem Step.of_stepOperator
    (stepped : stepOperator blocks done purpose pending value word = some s) :
    Step word ⟨blocks, done, .operator purpose pending value⟩ s := by
  unfold stepOperator at stepped
  split at stepped
  · next read => cases stepped; exact .binary read
  · split at stepped
    · next read settled => cases stepped; exact .endGroup read settled
    · next read settled => cases stepped; exact .lastArg read settled
    · next read settled => cases stepped; exact .moreArgs read settled
    · next settled => exact .of_stepComplete settled stepped
    · cases stepped

/-- Every step that the machine takes is one of those listed. -/
theorem Step.of_step (stepped : s.step word = some s') : Step word s s' := by
  obtain ⟨blocks, done, point⟩ := s
  cases point with
  | statement situation => exact .of_stepStatement stepped
  | target target line =>
    obtain ⟨read, same⟩ := Option.ite_none_right_eq_some.1 stepped
    cases same
    cases target with
    | declare fixed => exact .declared read
    | assign => exact .changed read
    | ask => exact .asked read
    | loop => exact .counter read
  | assignment purpose =>
    obtain ⟨read, same⟩ := Option.ite_none_right_eq_some.1 stepped
    cases same
    exact .equals read
  | condition line =>
    obtain ⟨read, same⟩ := Option.ite_none_right_eq_some.1 stepped
    cases same
    exact .test read
  | body condition line =>
    obtain ⟨read, same⟩ := Option.ite_none_right_eq_some.1 stepped
    cases same
    exact .enter read
  | operand purpose pending =>
    obtain ⟨point, found, same⟩ := Option.map_eq_some_iff.1 stepped
    cases same
    exact .of_stepOperand found
  | name purpose pending name line =>
    dsimp only [State.step] at stepped
    split at stepped
    · next read => cases stepped; exact .call read
    · next read => exact .bare read (.of_stepOperator stepped)
  | operator purpose pending value => exact .of_stepOperator stepped

/-! ## Operators that are settled -/

/-- What holds of all that waits and of the value, and goes from the parts of an operation to the
whole of it, holds after operators are settled. -/
theorem settle_keeps {Waits : Pending → Prop} {Holds : Expr → Prop}
    (unary : ∀ {op line value}, Waits (.unary op line) → Holds value →
      Holds (.unary op value line))
    (binary : ∀ {op left value}, Waits (.binary op left) → Holds value →
      Holds (Expr.join op left value))
    {level : Nat} {pending' : List Pending} {value' : Expr}
    (settled : settle level pending value = (pending', value')) (waiting : ∀ p ∈ pending, Waits p)
    (ok : Holds value) : (∀ p ∈ pending', Waits p) ∧ Holds value' := by
  fun_induction settle level pending value with
  | case1 op line rest value _ ih =>
    obtain ⟨first, rest⟩ := List.forall_mem_cons.1 waiting
    exact ih settled rest (unary first ok)
  | case3 op left rest value _ ih =>
    obtain ⟨first, rest⟩ := List.forall_mem_cons.1 waiting
    exact ih settled rest (binary first ok)
  | case2 | case4 | case5 =>
    cases settled
    exact ⟨waiting, ok⟩

/-! ## The end of the source -/

/-- A source that ends in an expression ends if that completes a statement. -/
theorem Finish.of_complete {body : List Stmt}
    (ended : (match settle 0 pending value with
      | ([], whole) => (purpose.finish? whole).map fun stmt => stmt :: done
      | _ => none) = some body) : Finish ⟨[], done, .operator purpose pending value⟩ body := by
  split at ended
  · next whole settled =>
    obtain ⟨stmt, finished, rfl⟩ := Option.map_eq_some_iff.1 ended
    exact .complete settled finished
  · cases ended

/-- Every end that the machine accepts is one of those listed. -/
theorem Finish.of_finish? {body : List Stmt} (finished : s.finish? = some body) :
    Finish s body := by
  obtain ⟨blocks, done, point⟩ := s
  obtain ⟨empty, ended⟩ := Option.ite_none_right_eq_some.1 finished
  obtain rfl : blocks = [] := List.isEmpty_iff.1 empty
  cases point with
  | statement situation =>
    cases ended
    exact .between
  | name purpose pending name line => exact .bare (.of_complete ended)
  | operator purpose pending value => exact .of_complete ended
  | target | assignment | condition | body | operand => cases ended

end

end Parlance.Contextual
