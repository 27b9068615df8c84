import Parlance.Proofs.ContextualRun
import Parlance.Proofs.DescentSoundness

/-!
# The stack machine follows the descent parser

A reader of the descent parser and the machine go through the same tokens.  `Tracks` says so of one
attempt: where the reader finds something, the machine passes the same tokens and holds the same;
where the reader refuses a token, the machine has come to the same place and is stuck there
(`Halts`).  It is carried through the parser reader by reader, with one rule for `bind`.

The machine knows a word only in its situation, and that is why being stuck is hedged.  A reserved
word where a name may stand is taken for a name, and a name that begins with the letters of `do`
for `do`.  A refusal of any other word is `Unmistakable`, and so is one at a place where only one
word could come.
-/

namespace Parlance.Contextual

open Descent hiding parse

/-! ## Passing tokens -/

/-- From one state to another the machine passes the tokens ahead of it, up to the rest. -/
inductive Passes : State → List Token → State → List Token → Prop
  | refl {s ts} : Passes s ts s ts
  | word {s s' s'' t ts rest terminal} (known : t.word.terminal? = some terminal)
      (accepted : s.situation.accepts terminal = true)
      (stepped : s.step ⟨terminal, t.word.spelling, t.line⟩ = some s')
      (apart : t.word = .keyword .otherwiseWord → ¬ OpensBranch ts)
      (more : Passes s' ts s'' rest) :
    Passes s (t :: ts) s'' rest
  | otherwiseWhen {s s' s'' ts rest k l c line column} (opens : k.opensBranch)
      (accepted : s.situation.accepts .otherwiseWhen = true)
      (stepped : ∀ letters : List Char, l + letters.count '\n' = line →
        s.step ⟨.otherwiseWhen, letters, l⟩ = some s')
      (more : Passes s' ts s'' rest) :
    Passes s (⟨.keyword .otherwiseWord, l, c⟩ :: ⟨.keyword k, line, column⟩ :: ts) s'' rest

/-- Tokens are passed one stretch after the other. -/
theorem Passes.trans {s s' s'' : State} {ts us vs : List Token} (first : Passes s ts s' us)
    (second : Passes s' us s'' vs) : Passes s ts s'' vs := by
  induction first with
  | refl => exact second
  | word known accepted stepped apart _ ih => exact .word known accepted stepped apart (ih second)
  | otherwiseWhen opens accepted stepped _ ih =>
    exact .otherwiseWhen opens accepted stepped (ih second)

/-- A run passes its tokens, whatever comes behind them. -/
theorem Run.passes {s s' : State} {ts : List Token} (run : Run s ts s') (rest : List Token) :
    Passes s (ts ++ rest) s' rest := by
  induction run with
  | refl => exact .refl
  | word known accepted stepped apart _ ih =>
    refine .word known accepted stepped (fun same opens => ?_) ih
    obtain ⟨some, separate⟩ := apart same
    exact separate (opensBranch_of_append some opens)
  | otherwiseWhen opens accepted stepped _ ih => exact .otherwiseWhen opens accepted stepped ih

/-! ## Being stuck -/

/-- The token does not fit, neither as what it is nor, if it is a reserved word, as a name. -/
structure Stuck (s : State) (t : Token) : Prop where
  own : ∀ terminal, t.word.terminal? = some terminal → s.situation.accepts terminal = true →
    ∀ letters line, s.step ⟨terminal, letters, line⟩ = none
  joined : t.word = .keyword .otherwiseWord → s.situation.accepts .otherwiseWhen = true →
    ∀ letters line, s.step ⟨.otherwiseWhen, letters, line⟩ = none
  renamed : ∀ k, t.word = .keyword k → s.situation.accepts (.keyword k) = false →
    s.situation.accepts .name = true → ∀ letters line, s.step ⟨.name, letters, line⟩ = none
  partly : s.situation = .doDue → ∀ name, t.word = .name name →
    ¬ Keyword.doWord.letters <+: name.toList

/-- The word is refused at a place where it cannot be taken for another one: it is no reserved
word, or a certain word was due, or it closes a block and a statement was due.  A name that begins
with the letters of `do` must not stand where `do` is due. -/
def Unmistakable (complaint : Complaint) : Word → Prop
  | .keyword k => (∃ word, complaint = .expectedWord word) ∨
      complaint = .unexpected ∧ (k = .endWord ∨ k = .otherwiseWord)
  | .name name => complaint = .expectedWord (.keyword .doWord) →
      ¬ Keyword.doWord.letters <+: name.toList
  | _ => True

/-- The machine is before the first statement of the source, or of a block that is no branch. -/
def State.IsFresh (s : State) : Prop :=
  s.point = .statement .start ∨ s.point = .statement .blockStart

/-- The machine does not go on with what is ahead.  A closing word may be taken for a name by a
machine that has not seen a statement yet. -/
def Halts (s : State) (complaint : Complaint) : List Token → Prop
  | [] => s.finish? = none
  | t :: _ => Unmistakable complaint t.word →
      Stuck s t ∨ (∃ k, t.word = .keyword k) ∧ complaint = .unexpected ∧ s.IsFresh

/-! ## Attempts -/

/-- The machine goes through the tokens as the attempt does. -/
def Tracks {β : Type} (s : State) (ts : List Token) (rest : β → List Token)
    (ok : β → State → Prop) : Attempt β → Prop
  | .ok found => (rest found).length ≤ ts.length ∧ ∃ s', Passes s ts s' (rest found) ∧ ok found s'
  | .error refusal => refusal.complaint = .tooDeep ∨
      ∃ s' left, Passes s ts s' left ∧ refusal.found = left.head? ∧
        Halts s' refusal.complaint left

section Tracks

variable {α β : Type} {s s' : State} {ts us : List Token}

theorem tracks_ok {rest : β → List Token} {ok : β → State → Prop} {found : β}
    (shorter : (rest found).length ≤ ts.length) (passes : Passes s ts s' (rest found))
    (holds : ok found s') : Tracks s ts rest ok (.ok found) :=
  ⟨shorter, s', passes, holds⟩

theorem tracks_refuse {rest : β → List Token} {ok : β → State → Prop} {complaint : Complaint}
    (halts : Halts s complaint ts) : Tracks s ts rest ok (refuse ts complaint) :=
  .inr ⟨s, ts, .refl, rfl, halts⟩

theorem tracks_tooDeep {rest : β → List Token} {ok : β → State → Prop} :
    Tracks s ts rest ok (refuse us .tooDeep) :=
  .inl rfl

/-- What the machine has passed before goes in front. -/
theorem Tracks.after {rest : β → List Token} {ok : β → State → Prop} {attempt : Attempt β}
    (tracks : Tracks s' us rest ok attempt) (passes : Passes s ts s' us)
    (shorter : us.length ≤ ts.length) : Tracks s ts rest ok attempt := by
  cases attempt with
  | ok found =>
    obtain ⟨shorter', s'', passes', holds⟩ := tracks
    exact ⟨Nat.le_trans shorter' shorter, s'', passes.trans passes', holds⟩
  | error refusal =>
    rcases tracks with deep | ⟨s'', left, passes', found, halts⟩
    · exact .inl deep
    · exact .inr ⟨s'', left, passes.trans passes', found, halts⟩

/-- The machine goes on from where the first attempt has ended. -/
theorem Tracks.bind {rest : α → List Token} {rest' : β → List Token} {ok : α → State → Prop}
    {ok' : β → State → Prop} {first : Attempt α} {next : α → Attempt β}
    (tracks : Tracks s ts rest ok first)
    (onward : ∀ found s', (rest found).length ≤ ts.length → ok found s' →
      Tracks s' (rest found) rest' ok' (next found)) :
    Tracks s ts rest' ok' (first >>= next) := by
  cases first with
  | ok found =>
    obtain ⟨shorter, s', passes, holds⟩ := tracks
    exact (onward found s' shorter holds).after passes shorter
  | error refusal => exact tracks

/-- More may be known of what is found than is asked for. -/
theorem Tracks.mono {rest : β → List Token} {ok ok' : β → State → Prop} {attempt : Attempt β}
    (tracks : Tracks s ts rest ok attempt)
    (weaker : ∀ found s', (rest found).length ≤ ts.length → ok found s' → ok' found s') :
    Tracks s ts rest ok' attempt := by
  cases attempt with
  | ok found =>
    obtain ⟨shorter, s', passes, holds⟩ := tracks
    exact ⟨shorter, s', passes, weaker found s' shorter holds⟩
  | error refusal => exact tracks

/-- A token taken first makes what is left shorter. -/
theorem Tracks.after_token {rest : β → List Token} {ok : β → State → Prop} {attempt : Attempt β}
    {t : Token} (tracks : Tracks s' ts rest ok attempt) (run : Run s [t] s') :
    Tracks s (t :: ts) rest (fun found s => (rest found).length ≤ ts.length ∧ ok found s)
      attempt :=
  (tracks.mono fun _ _ shorter holds => ⟨shorter, holds⟩).after (run.passes ts) (Nat.le_succ _)

/-- One word that is due. -/
theorem tracks_expect {word : Word} {ok : List Token → State → Prop}
    (halts : ¬ BeginsWith word ts → Halts s (.expectedWord word) ts)
    (fits : ∀ line column rest, ts = ⟨word, line, column⟩ :: rest →
      ∃ s', Run s [⟨word, line, column⟩] s' ∧ ok rest s') :
    Tracks s ts id ok (expect word ts) := by
  by_cases begins : BeginsWith word ts
  · obtain ⟨line, column, rest, rfl⟩ := begins
    obtain ⟨s', run, holds⟩ := fits line column rest rfl
    rw [expect_self]
    exact tracks_ok (Nat.le_succ _) (run.passes rest) holds
  · rw [expect_of_other begins]
    exact tracks_refuse (halts begins)

end Tracks

/-! ## After an expression -/

section Holds

variable {blocks : List Open} {done : List Stmt} {purpose : Purpose} {level : Level}
  {pending : List Pending} {e : Expr} {s : State}

theorem Holds.looser (loose : level ≠ .atom)
    (holds : Holds blocks done purpose level.tighter pending e s) :
    Holds blocks done purpose level pending e s := by
  obtain ⟨pending', value, rests, same⟩ := holds
  have rank := Level.rank_tighter loose
  exact ⟨pending', value, rests, fun k low => same k (by omega)⟩

/-- The right operand and the operator before it make up an expression. -/
theorem Holds.join {op : BinaryOp} {left right : Expr} (own : op.level = level)
    (holds : Holds blocks done purpose level.tighter (.binary op left :: pending) right s) :
    Holds blocks done purpose level pending (Expr.join op left right) s := by
  obtain ⟨pending', value, rests, same⟩ := holds
  have loose : level ≠ .atom := by
    rw [← own]
    cases op <;> decide
  have rank := Level.rank_tighter loose
  refine ⟨pending', value, rests, fun k low => ?_⟩
  have tight : k ≤ binaryLevel op := by
    rw [binaryLevel_eq, own]
    exact low
  rw [same k (by omega), settle_binary tight]

theorem Holds.unary {op : UnaryOp} {line : Nat} (own : unaryLevel op = level.rank + 1)
    (holds : Holds blocks done purpose level (.unary op line :: pending) e s) :
    Holds blocks done purpose level pending (.unary op e line) s := by
  obtain ⟨pending', value, rests, same⟩ := holds
  refine ⟨pending', value, rests, fun k low => ?_⟩
  rw [same k low, settle_unary (by omega)]

/-- After an operand only words that can follow one are looked for, and a parenthesis after a
bare name. -/
theorem Holds.situation_cases (holds : Holds blocks done purpose level pending e s) :
    s.situation = .operandDone ∨ s.situation = .nameDone := by
  obtain ⟨_, _, rests, _⟩ := holds
  cases rests with
  | name => exact .inr rfl
  | operator => exact .inl rfl

end Holds

/-- The expression does not go on with what comes next: that is no operator that binds as tightly
as the level, nor the arguments of a call. -/
def Ended (level : Level) (s : State) (rest : List Token) : Prop :=
  ∀ t ∈ rest.head?, (∀ op : BinaryOp, level.rank ≤ op.level.rank → t.word ≠ op.word) ∧
    (t.word = .symbol .openParen → s.situation ≠ .nameDone)

/-- An expression that ends before tokens which no operator of the looser level begins has ended for
that level, too. -/
theorem Ended.looser {level : Level} {s : State} {rest : List Token}
    (ended : Ended level.tighter s rest) (loose : level ≠ .atom)
    (own : ∀ t ∈ rest.head?, level.operator? t.word = none) : Ended level s rest := by
  intro t next
  obtain ⟨operators, paren⟩ := ended t next
  refine ⟨fun op low same => ?_, paren⟩
  have rank := Level.rank_tighter loose
  by_cases here : op.level = level
  · have found : level.operator? t.word = some op :=
      Level.operator?_eq_some_iff.2 ⟨here, same.symm⟩
    rw [own t next] at found
    cases found
  · have apart : op.level.rank ≠ level.rank := fun same => here (Level.rank_injective same)
    exact operators op (by omega) same

/-- What comes next is no operator at all. -/
theorem Ended.operator?_eq_none {s : State} {t : Token} {rest : List Token} {terminal : Terminal}
    (ended : Ended .disjunction s (t :: rest)) (known : t.word.terminal? = some terminal) :
    terminal.operator? = none := by
  cases found : terminal.operator? with
  | none => rfl
  | some op =>
    refine absurd ?_ ((ended t rfl).1 op (Nat.zero_le _))
    obtain ⟨word, line, column⟩ := t
    cases word with
    | keyword k => cases k <;> cases known <;> cases found <;> rfl
    | symbol symbol => cases symbol <;> cases known <;> cases found <;> rfl
    | _ => cases known <;> cases found

theorem unique_keyword {k : Keyword} {w : Word} (known : w.terminal? = some (.keyword k)) :
    w = .keyword k := by
  cases w <;> simp_all [Word.terminal?]

theorem unique_symbol {symbol : Symbol} {w : Word} (known : w.terminal? = some (.symbol symbol)) :
    w = .symbol symbol := by
  cases w <;> simp_all [Word.terminal?]

/-- Nor is it an opening parenthesis: only after a bare name is one looked for. -/
theorem Ended.ne_openParen {level : Level} {s : State} {t : Token} {rest : List Token}
    {terminal : Terminal} (ended : Ended level s (t :: rest))
    (after : s.situation = .operandDone ∨ s.situation = .nameDone)
    (known : t.word.terminal? = some terminal) (accepted : s.situation.accepts terminal = true) :
    terminal ≠ .symbol .openParen := by
  rintro rfl
  rcases after with after | after
  · rw [after] at accepted
    cases accepted
  · exact (ended t rfl).2 (unique_symbol known) after

/-- An expression is complete, and apart from operators only certain words can come after it. -/
structure Awaits (s : State) (due : List Terminal) : Prop where
  after : s.situation = .operandDone ∨ s.situation = .nameDone
  refused : ∀ word : Lexeme, word.terminal.operator? = none → word.terminal ≠ .symbol .openParen →
    word.terminal ∉ due → s.step word = none
  unfinished : s.finish? = none

section Awaits

variable {blocks : List Open} {done : List Stmt} {purpose : Purpose} {pending : List Pending}
  {e : Expr} {s : State}

/-- Inside parentheses an expression is followed by the closing one. -/
theorem awaits_group
    (holds : Holds blocks done purpose .disjunction (.group :: pending) e s) :
    Awaits s [.symbol .closeParen] := by
  obtain ⟨pending', value, rests, settled⟩ := holds.settle_zero
  have grouped : settle 0 pending' value = (.group :: pending, e) := settled
  refine ⟨holds.situation_cases, ?_, ?_⟩
  · intro word plain closed other
    rw [rests.step_eq closed]
    simp only [stepOperator, plain, grouped]
    clear settled grouped
    split <;> simp_all
  · cases rests <;> simp [State.finish?, grouped]

/-- An argument is followed by the closing parenthesis or by a comma. -/
theorem awaits_call {name : String} {line : Nat} {args : List Expr}
    (holds : Holds blocks done purpose .disjunction (.call name line args :: pending) e s) :
    Awaits s [.symbol .closeParen, .symbol .comma] := by
  obtain ⟨pending', value, rests, settled⟩ := holds.settle_zero
  have called : settle 0 pending' value = (.call name line args :: pending, e) := settled
  refine ⟨holds.situation_cases, ?_, ?_⟩
  · intro word plain closed other
    rw [rests.step_eq closed]
    simp only [stepOperator, plain, called]
    clear settled called
    split <;> simp_all
  · cases rests <;> simp [State.finish?, called]

/-- The word that has to follow an expression that finishes no statement. -/
def Purpose.due? : Purpose → Option Terminal
  | .condition .. | .last .. => some (.keyword .doWord)
  | .first .. => some (.keyword .toWord)
  | .whilst _ => some (.symbol .closeParen)
  | _ => none

theorem Purpose.finish?_of_due? {due : Terminal} (asked : purpose.due? = some due) :
    purpose.finish? e = none := by
  cases purpose <;> first | rfl | cases asked

/-- After an expression that a certain word has to follow, every other word is refused. -/
theorem stepComplete_eq_none {due : Terminal} (asked : purpose.due? = some due) {word : Lexeme}
    (other : word.terminal ≠ due) : stepComplete blocks done purpose e word = none := by
  unfold stepComplete
  split
  case h_5 => rw [Purpose.finish?_of_due? asked]
  all_goals
    next here =>
      cases asked
      exact absurd here other

/-- After an expression that finishes no statement, the word that its purpose asks for is due. -/
theorem awaits_purpose {due : Terminal} (holds : Holds blocks done purpose .disjunction [] e s)
    (asked : purpose.due? = some due) : Awaits s [due] := by
  refine ⟨holds.situation_cases, ?_, ?_⟩
  · intro word plain closed other
    rw [holds.step_complete plain closed]
    exact stepComplete_eq_none asked (by simpa using other)
  · obtain ⟨pending', value, rests, settled⟩ := holds.settle_zero
    have whole : settle 0 pending' value = ([], e) := settled
    have unfinished : purpose.finish? e = none := Purpose.finish?_of_due? asked
    cases rests <;> simp [State.finish?, whole, unfinished]

/-- Another word than the ones due is one that the machine is stuck at. -/
theorem Awaits.halts {due : List Terminal} {complaint : Complaint} {ts : List Token}
    (awaits : Awaits s due) (ended : Ended .disjunction s ts)
    (fixed : .name ∉ due ∧ .otherwiseWhen ∉ due)
    (other : ∀ t ∈ ts.head?, ∀ terminal ∈ due, t.word.terminal? ≠ some terminal) :
    Halts s complaint ts := by
  cases ts with
  | nil => exact awaits.unfinished
  | cons t ts =>
    refine fun _ => .inl ⟨fun terminal known accepted letters line => ?_,
      fun _ _ letters line => ?_, fun _ _ _ _ letters line => ?_, fun doDue => ?_⟩
    · exact awaits.refused _ (ended.operator?_eq_none known)
        (ended.ne_openParen awaits.after known accepted) fun listed =>
          other t rfl terminal listed known
    · exact awaits.refused _ rfl (by simp) fixed.2
    · exact awaits.refused _ rfl (by simp) fixed.1
    · rcases awaits.after with after | after <;> cases doDue.symm.trans after

/-- The word due is not the next one. -/
theorem terminal?_ne_of_not_beginsWith {word : Word} {terminal : Terminal} {ts : List Token}
    (unique : ∀ w : Word, w.terminal? = some terminal → w = word) (other : ¬ BeginsWith word ts) :
    ∀ t ∈ ts.head?, t.word.terminal? ≠ some terminal := by
  intro t next known
  exact other (unique _ known ▸ beginsWith_head next)

/-- A word that is due after an expression does not come. -/
theorem Awaits.halts_expect {word : Word} {terminal : Terminal} {complaint : Complaint}
    {ts : List Token} (awaits : Awaits s [terminal]) (ended : Ended .disjunction s ts)
    (fixed : .name ∉ [terminal] ∧ .otherwiseWhen ∉ [terminal])
    (unique : ∀ w : Word, w.terminal? = some terminal → w = word) (other : ¬ BeginsWith word ts) :
    Halts s complaint ts := by
  refine awaits.halts ended fixed fun t next terminal' listed => ?_
  cases List.mem_singleton.1 listed
  exact terminal?_ne_of_not_beginsWith unique other t next

end Awaits

/-! ## Expressions -/

/-- No call is closed right after it was opened. -/
def Filled (pending : List Pending) (ts : List Token) : Prop :=
  BeginsWith (.symbol .closeParen) ts → ∀ name line rest, pending ≠ .call name line [] :: rest

theorem filled_nil {ts : List Token} : Filled [] ts := by
  intro _ name line rest same
  cases same

theorem filled_cons {head : Pending} {pending : List Pending} {ts : List Token}
    (other : ∀ name line, head ≠ .call name line []) : Filled (head :: pending) ts := by
  intro _ name line rest same
  cases same
  exact other name line rfl

/-- Where an operand is due, the machine goes through the tokens as the reader of expressions of the
level does. -/
def TracksExpr (bound : Nat) (level : Level) (reader : Reader Expr) : Prop :=
  ∀ (ts : List Token) (blocks : List Open) (done : List Stmt) (purpose : Purpose)
    (pending : List Pending), ts.length ≤ bound → strength pending ≤ cap level →
    Filled pending ts →
    Tracks ⟨blocks, done, .operand purpose pending⟩ ts Prod.snd
      (fun found s => Holds blocks done purpose level pending found.1 s ∧ Ended level s found.2)
      (reader ts)

section Expressions

variable {bound : Nat} {level : Level} {operand : Reader Expr} {blocks : List Open}
  {done : List Stmt} {purpose : Purpose} {pending : List Pending}

/-- What a level without operators reads, the level above it reads. -/
theorem Tracks.looser {s : State} {ts : List Token} {attempt : Attempt (Expr × List Token)}
    (tracks : Tracks s ts Prod.snd
      (fun found s => Holds blocks done purpose level.tighter pending found.1 s ∧
        Ended level.tighter s found.2) attempt)
    (loose : level ≠ .atom) (own : ∀ word, level.operator? word = none) :
    Tracks s ts Prod.snd
      (fun found s => Holds blocks done purpose level pending found.1 s ∧ Ended level s found.2)
      attempt := by
  refine tracks.mono ?_
  rintro ⟨e, rest⟩ s _ ⟨holds, ended⟩
  exact ⟨holds.looser loose, ended.looser loose fun t _ => own t.word⟩

/-- The machine follows the operands of a chain one after the other; before each operator it settles
what the parser has already joined. -/
theorem tracks_chainAfter (loose : level ≠ .atom)
    (operands : TracksExpr bound level.tighter operand)
    (weak : strength pending ≤ cap level) {count : Nat} {left : Expr} {ts : List Token} {s : State}
    (enough : ts.length ≤ count) (short : ts.length ≤ bound)
    (holds : Holds blocks done purpose level pending left s)
    (ended : Ended level.tighter s ts) :
    Tracks s ts Prod.snd
      (fun found s => Holds blocks done purpose level pending found.1 s ∧ Ended level s found.2)
      (chainAfter operand level count left ts) := by
  induction count generalizing left ts s with
  | zero =>
    cases List.eq_nil_of_length_eq_zero (Nat.le_zero.1 enough)
    exact tracks_ok (Nat.le_refl _) .refl ⟨holds, ended.looser loose (by simp)⟩
  | succ count ih =>
    cases ts with
    | nil => exact tracks_ok (Nat.le_refl _) .refl ⟨holds, ended.looser loose (by simp)⟩
    | cons t ts =>
      simp only [List.length_cons] at enough short
      rw [chainAfter]
      split
      · next op found =>
        obtain ⟨own, spelled⟩ := Level.operator?_eq_some_iff.1 found
        obtain ⟨terminal, known, operator, follows⟩ := operator_terminal op
        have taken : Run s [t] ⟨blocks, done, .operand purpose (.binary op left :: pending)⟩ := by
          rw [spelled] at known
          refine .one known (holds.accepts follows) (holds.step_operator own weak operator) ?_
          rw [← spelled]
          cases op <;> simp [BinaryOp.word]
        have weak' : strength (.binary op left :: pending) ≤ cap level.tighter := by
          rw [← own]
          exact binaryLevel_le_cap op
        refine Tracks.after ?_ (taken.passes ts) (Nat.le_succ _)
        refine (operands ts blocks done purpose _ (by omega) weak' (filled_cons (by simp))).bind ?_
        rintro ⟨right, rest⟩ s' shorter ⟨holds', ended'⟩
        exact ih (by omega) (by omega) (holds'.join own) ended'
      · next missing =>
        refine tracks_ok (Nat.le_refl _) .refl ⟨holds, ended.looser loose fun u next => ?_⟩
        cases next
        exact missing

/-- The machine follows a level of operators with two operands. -/
theorem tracksExpr_chain (loose : level ≠ .atom)
    (operands : TracksExpr bound level.tighter operand) :
    TracksExpr bound level (chain operand level bound) := by
  intro ts blocks done purpose pending short weak filled
  refine (operands ts blocks done purpose pending short
    (Nat.le_trans weak (cap_le_tighter level)) filled).bind ?_
  rintro ⟨first, rest⟩ s shorter ⟨holds, ended⟩
  have short' : rest.length ≤ bound := Nat.le_trans shorter short
  exact tracks_chainAfter loose operands weak short' short' (holds.looser loose) ended

/-- An operator before its only operand. -/
theorem tracks_unary (op : UnaryOp) (word : Word) {terminal : Terminal}
    (operands : TracksExpr bound level operand) (own : unaryLevel op = level.rank + 1)
    (fits : unaryLevel op ≤ cap level) (known : word.terminal? = some terminal)
    (accepted : ∀ pending, strength pending ≤ cap level →
      (operandSituation pending).accepts terminal = true)
    (stepped : ∀ purpose pending letters line,
      stepOperand purpose pending ⟨terminal, letters, line⟩ =
        some (.operand purpose (.unary op line :: pending)))
    (plain : word ≠ .keyword .otherwiseWord) {ts : List Token} {line column : Nat}
    (short : ts.length ≤ bound) (weak : strength pending ≤ cap level) :
    Tracks ⟨blocks, done, .operand purpose pending⟩ (⟨word, line, column⟩ :: ts) Prod.snd
      (fun found s => Holds blocks done purpose level pending found.1 s ∧ Ended level s found.2)
      (do
        let (found, rest) ← operand ts
        return (.unary op found line, rest)) := by
  have taken : Run ⟨blocks, done, .operand purpose pending⟩ [⟨word, line, column⟩]
      ⟨blocks, done, .operand purpose (.unary op line :: pending)⟩ :=
    .one known (accepted pending weak) (by simp [State.step, stepped]) plain
  refine Tracks.after ?_ (taken.passes ts) (Nat.le_succ _)
  refine (operands ts blocks done purpose (.unary op line :: pending) short fits
    (filled_cons (by simp))).bind ?_
  rintro ⟨found, rest⟩ s shorter ⟨holds, ended⟩
  exact tracks_ok (Nat.le_refl _) .refl ⟨holds.unary own, ended⟩

theorem operandSituation_cases (pending : List Pending) :
    operandSituation pending = .operandDue ∨ operandSituation pending = .argumentDue ∨
      operandSituation pending = .tightDue := by
  unfold operandSituation
  split <;> simp

/-- No operand begins here. -/
theorem halts_operand {ts : List Token} (filled : Filled pending ts)
    (other : ∀ t ∈ ts.head?, ∀ terminal, t.word.terminal? = some terminal →
      terminal.startsOperand = false) :
    Halts ⟨blocks, done, .operand purpose pending⟩ .notAnOperand ts := by
  cases ts with
  | nil =>
    simp only [Halts, State.finish?]
    split <;> rfl
  | cons t ts =>
    intro unmistakable
    obtain ⟨word, line, column⟩ := t
    have unreserved : ∀ k, word ≠ .keyword k := by
      rintro k rfl
      rcases unmistakable with ⟨_, same⟩ | ⟨same, _⟩ <;> cases same
    refine .inl ⟨fun terminal known accepted => ?_, fun same => absurd same (unreserved _),
      fun k same => absurd same (unreserved k), fun doDue => ?_⟩
    · have starts := other _ rfl terminal known
      cases word with
      | keyword k => exact absurd rfl (unreserved k)
      | symbol symbol =>
        cases known
        simp only [State.situation, Point.situation] at accepted
        unfold operandSituation at accepted
        split at accepted
        · have closes : symbol = .closeParen := by simpa [Situation.accepts, starts] using accepted
          subst closes
          exact absurd rfl (filled ⟨line, column, ts, rfl⟩ _ _ _)
        all_goals simp [Situation.accepts, starts] at accepted
      | _ => cases known <;> cases starts
    · rcases operandSituation_cases pending with same | same | same <;> cases doDue.symm.trans same

/-- The arguments of a call after the first. -/
theorem tracks_argumentsAfter (operands : TracksExpr bound .disjunction operand) {name : String}
    {line count : Nat} {before : List Expr} {arg : Expr} {ts : List Token} {s : State}
    (enough : ts.length ≤ count) (short : ts.length ≤ bound)
    (holds : Holds blocks done purpose .disjunction (.call name line before :: pending) arg s)
    (ended : Ended .disjunction s ts) :
    Tracks s ts Prod.snd
      (fun found s => s = ⟨blocks, done,
        .operator purpose pending (.call name (before.reverse ++ arg :: found.1) line)⟩)
      (argumentsAfter operand count ts) := by
  fun_induction argumentsAfter operand count ts generalizing before arg s with
  | case1 count l c ts ih =>
    simp only [List.length_cons] at enough short
    have taken : Run s [⟨.symbol .comma, l, c⟩]
        ⟨blocks, done, .operand purpose (.call name line (arg :: before) :: pending)⟩ :=
      .one rfl (holds.accepts rfl) (holds.step_comma rfl) (by simp)
    refine Tracks.after ?_ (taken.passes ts) (Nat.le_succ _)
    refine (operands ts blocks done purpose (.call name line (arg :: before) :: pending)
      (by omega) (Nat.zero_le _) (filled_cons (by simp))).bind ?_
    rintro ⟨next, rest⟩ s' shorter ⟨holds', ended'⟩
    dsimp only at shorter
    refine (ih rest (by omega) (by omega) holds' ended').bind ?_
    rintro ⟨more, rest'⟩ s'' _ rfl
    exact tracks_ok (Nat.le_refl _) .refl (by simp)
  | case2 count ts other =>
    refine Tracks.bind (tracks_expect (fun open' => (awaits_call holds).halts ended (by decide) ?_)
      fun _ _ _ _ => ⟨_, .one rfl (holds.accepts rfl) (holds.step_call rfl) (by simp), rfl⟩) ?_
    · have last : ¬ BeginsWith (.symbol .comma) ts := by
        rintro ⟨l, c, rest, rfl⟩
        cases count with
        | zero => cases enough
        | succ count => exact other count l c rest rfl rfl
      intro t next terminal listed
      simp only [List.mem_cons, List.not_mem_nil, or_false] at listed
      rcases listed with rfl | rfl
      · exact terminal?_ne_of_not_beginsWith (fun _ => unique_symbol) open' t next
      · exact terminal?_ne_of_not_beginsWith (fun _ => unique_symbol) last t next
    · rintro rest s' _ rfl
      exact tracks_ok (Nat.le_refl _) .refl rfl

/-- The arguments of a call. -/
theorem tracks_arguments (operands : TracksExpr bound .disjunction operand) {name : String}
    {line : Nat} {ts : List Token} (short : ts.length ≤ bound) :
    Tracks ⟨blocks, done, .operand purpose (.call name line [] :: pending)⟩ ts Prod.snd
      (fun found s => s = ⟨blocks, done, .operator purpose pending (.call name found.1 line)⟩)
      (arguments operand bound ts) := by
  by_cases closed : BeginsWith (.symbol .closeParen) ts
  · obtain ⟨l, c, rest, rfl⟩ := closed
    have taken : Run ⟨blocks, done, .operand purpose (.call name line [] :: pending)⟩
        [⟨.symbol .closeParen, l, c⟩]
        ⟨blocks, done, .operator purpose pending (.call name [] line)⟩ :=
      .one rfl rfl rfl (by simp)
    exact tracks_ok (Nat.le_succ _) (taken.passes rest) rfl
  · rw [arguments_of_open closed]
    refine (operands ts blocks done purpose (.call name line [] :: pending) short (Nat.zero_le _)
      (fun begins => absurd begins closed)).bind ?_
    rintro ⟨arg, rest⟩ s shorter ⟨holds, ended⟩
    have short' : rest.length ≤ bound := Nat.le_trans shorter short
    refine (tracks_argumentsAfter operands short' short' holds ended).bind ?_
    rintro ⟨args, rest'⟩ s' _ rfl
    exact tracks_ok (Nat.le_refl _) .refl rfl

/-- An atom has ended unless it is a name before a parenthesis. -/
theorem ended_atom {s : State} {ts : List Token}
    (separate : BeginsWith (.symbol .openParen) ts → s.situation ≠ .nameDone) :
    Ended .atom s ts := by
  intro t next
  constructor
  · intro op tight
    cases op <;> exact absurd tight (by decide)
  · intro paren
    exact separate (paren ▸ beginsWith_head next)

theorem ended_operator {e : Expr} {ts : List Token} :
    Ended .atom ⟨blocks, done, .operator purpose pending e⟩ ts := by
  refine ended_atom fun _ named => ?_
  cases named

/-- An operand that is one token. -/
theorem tracks_token {t : Token} {ts : List Token} {e : Expr} {terminal : Terminal}
    (known : t.word.terminal? = some terminal) (starts : terminal.startsOperand = true)
    (stepped : stepOperand purpose pending ⟨terminal, t.word.spelling, t.line⟩ =
      some (.operator purpose pending e)) :
    Tracks ⟨blocks, done, .operand purpose pending⟩ (t :: ts) Prod.snd
      (fun found s => Holds blocks done purpose .atom pending found.1 s ∧ Ended .atom s found.2)
      (.ok (e, ts)) := by
  have taken : Run ⟨blocks, done, .operand purpose pending⟩ [t]
      ⟨blocks, done, .operator purpose pending e⟩ := by
    refine .one known (accepts_operand pending starts) (by simp [State.step, stepped]) ?_
    intro same
    rw [same] at known
    cases known
    cases starts
  exact tracks_ok (Nat.le_succ _) (taken.passes ts)
    ⟨.of_rests (.operator e), ended_operator⟩

/-- The machine takes a sign and the words that the parser takes for operands. -/
theorem startsOperand_eq_false {word : Word} {terminal : Terminal}
    (known : word.terminal? = some terminal) (other : word.opensOperand .atom = false)
    (unsigned : word ≠ .symbol .minus) : terminal.startsOperand = false := by
  cases word with
  | keyword k =>
    cases known
    cases k <;> first | rfl | cases other
  | symbol mark =>
    cases known
    cases mark with
    | minus => exact absurd rfl unsigned
    | openParen => cases other
    | _ => rfl
  | finish => cases known
  | _ => cases other

/-- The machine follows atoms: literals, names, calls and groups. -/
theorem tracks_atom (inner : TracksExpr bound .disjunction operand) {ts : List Token}
    (short : ts.length ≤ bound) (filled : Filled pending ts)
    (unsigned : ¬ BeginsWith (.symbol .minus) ts) :
    Tracks ⟨blocks, done, .operand purpose pending⟩ ts Prod.snd
      (fun found s => Holds blocks done purpose .atom pending found.1 s ∧ Ended .atom s found.2)
      (atom operand bound ts) := by
  have refused (other : ∀ t ∈ ts.head?, t.word.opensOperand .atom = false) :
      Tracks ⟨blocks, done, .operand purpose pending⟩ ts Prod.snd
        (fun found s => Holds blocks done purpose .atom pending found.1 s ∧ Ended .atom s found.2)
        (atom operand bound ts) := by
    rw [atom_of_other other]
    refine tracks_refuse (halts_operand filled fun t next terminal known => ?_)
    exact startsOperand_eq_false known (other t next)
      fun same => unsigned (same ▸ beginsWith_head next)
  cases ts with
  | nil => exact refused (by simp)
  | cons t ts =>
    simp only [List.length_cons] at short
    obtain ⟨word, line, column⟩ := t
    cases word with
    | number digits => exact tracks_token rfl rfl (by simp [stepOperand, Word.spelling])
    | text content => exact tracks_token rfl rfl (by simp [stepOperand, Word.spelling])
    | name name =>
      by_cases called : BeginsWith (.symbol .openParen) ts
      · obtain ⟨l, c, rest, rfl⟩ := called
        simp only [List.length_cons] at short
        have opened : Run ⟨blocks, done, .operand purpose pending⟩
            [⟨.name name, line, column⟩, ⟨.symbol .openParen, l, c⟩]
            ⟨blocks, done, .operand purpose (.call name line [] :: pending)⟩ :=
          run_name.trans run_callOpen
        refine Tracks.after ?_ (opened.passes rest) (Nat.le_add_right _ 2)
        refine (tracks_arguments inner (by omega)).bind ?_
        rintro ⟨args, rest'⟩ s _ rfl
        exact tracks_ok (Nat.le_refl _) .refl ⟨.of_rests (.operator _), ended_operator⟩
      · rw [atom_name called]
        exact tracks_ok (Nat.le_succ _) (run_name.passes ts)
          ⟨.of_rests (.name name line), ended_atom fun paren => absurd paren called⟩
    | keyword k =>
      cases k with
      | trueWord => exact tracks_token rfl rfl rfl
      | falseWord => exact tracks_token rfl rfl rfl
      | _ => exact refused (by rintro t ⟨⟩; rfl)
    | symbol mark =>
      cases mark with
      | openParen =>
        have opened : Run ⟨blocks, done, .operand purpose pending⟩
            [⟨.symbol .openParen, line, column⟩] ⟨blocks, done, .operand purpose
              (.group :: pending)⟩ := .one rfl (accepts_operand pending rfl) rfl (by simp)
        refine Tracks.after ?_ (opened.passes ts) (Nat.le_succ _)
        refine (inner ts blocks done purpose (.group :: pending) (by omega) (Nat.zero_le _)
          (filled_cons (by simp))).bind ?_
        rintro ⟨e, rest⟩ s shorter ⟨holds, ended⟩
        refine Tracks.bind (tracks_expect (fun other =>
          (awaits_group holds).halts_expect ended (by decide) (fun _ => unique_symbol) other)
          fun _ _ _ _ => ⟨_, .one rfl (holds.accepts rfl) (holds.step_group rfl) (by simp), rfl⟩)
          ?_
        rintro rest' s' _ rfl
        exact tracks_ok (Nat.le_refl _) .refl ⟨.of_rests (.operator _), ended_operator⟩
      | _ => exact refused (by rintro t ⟨⟩; rfl)
    | finish => exact refused (by rintro t ⟨⟩; rfl)

/-- Expressions of a level; an operand without a sign is no longer preceded by one. -/
theorem tracks_expression (bound room : Nat) (level : Level) {ts : List Token}
    {blocks : List Open} {done : List Stmt} {purpose : Purpose} {pending : List Pending}
    (short : ts.length ≤ bound) (weak : strength pending ≤ cap level) (filled : Filled pending ts)
    (unsigned : level = .atom → ¬ BeginsWith (.symbol .minus) ts) :
    Tracks ⟨blocks, done, .operand purpose pending⟩ ts Prod.snd
      (fun found s => Holds blocks done purpose level pending found.1 s ∧ Ended level s found.2)
      (expression bound room level ts) := by
  induction room generalizing level ts blocks done purpose pending with
  | zero => exact tracks_tooDeep
  | succ room ih =>
    have reads (level : Level) (loose : level ≠ .atom) :
        TracksExpr bound level (expression bound room level) :=
      fun ts blocks done purpose pending short weak filled =>
        ih level short weak filled fun same => absurd same loose
    have chained {level : Level} (loose : level ≠ .atom) (inner : level.tighter ≠ .atom)
        (weak : strength pending ≤ cap level) :=
      tracksExpr_chain loose (reads level.tighter inner) ts blocks done purpose pending short weak
        filled
    cases level with
    | disjunction => exact chained (by decide) (by decide) weak
    | conjunction => exact chained (by decide) (by decide) weak
    | equality => exact chained (by decide) (by decide) weak
    | comparison => exact chained (by decide) (by decide) weak
    | sum => exact chained (by decide) (by decide) weak
    | product => exact chained (by decide) (by decide) weak
    | negation =>
      by_cases negated : BeginsWith (.keyword .notWord) ts
      · obtain ⟨line, column, rest, rfl⟩ := negated
        exact tracks_unary .not (.keyword .notWord) (reads .negation (by decide)) rfl (by decide)
          rfl (fun _ weak => accepts_not weak) (fun _ _ _ _ => rfl) (by simp)
          (Nat.le_of_succ_le short) weak
      · rw [expression_negation negated]
        exact (ih .equality short (Nat.le_trans weak (cap_le_tighter .negation)) filled
          (by simp)).looser (by decide) fun _ => rfl
    | sign =>
      by_cases negative : BeginsWith (.symbol .minus) ts
      · obtain ⟨line, column, rest, rfl⟩ := negative
        exact tracks_unary .negate (.symbol .minus) (reads .sign (by decide)) rfl (by decide) rfl
          (fun _ _ => accepts_operand _ rfl) (fun _ _ _ _ => rfl) (by simp)
          (Nat.le_of_succ_le short) weak
      · rw [expression_sign negative]
        exact (ih .atom short (Nat.le_trans weak (cap_le_tighter .sign)) filled
          fun _ => negative).looser (by decide) fun _ => rfl
    | atom => exact tracks_atom (reads _ (by decide)) short filled (unsigned rfl)

end Expressions

end Parlance.Contextual
