import Parlance.Proofs.ContextualSteps
import Parlance.Proofs.DescentSoundness
import Parlance.Proofs.Occurrences
import Parlance.Session

/-!
# Where the expressions of a program come from

Both front ends put expressions together from words: a literal or a name is an expression, and the
others are made of smaller ones.  So a property that literals and names have and that goes from the
parts to the whole (`Composes`) holds of every expression in a program that a front end has read.
In particular every number in such a program comes from the digits of a literal.
-/

namespace Parlance

/-- The property holds of literals and names, and of what is made of expressions with it. -/
structure Composes (P : Expr → Prop) : Prop where
  number : ∀ digits line, P (.number (Number.literal digits) line)
  text : ∀ content line, P (.text content line)
  flag : ∀ value line, P (.flag value line)
  name : ∀ name line, P (.name name line)
  unary : ∀ {e} op line, P e → P (.unary op e line)
  join : ∀ {l r} op, P l → P r → P (Expr.join op l r)
  call : ∀ {args} name line, (∀ arg ∈ args, P arg) → P (.call name args line)

variable {P : Expr → Prop}

/-- Every expression in the statement has the property. -/
def Stmt.Over (P : Expr → Prop) (s : Stmt) : Prop :=
  ∀ o ∈ s.occurrences, o.Over P

/-- Every expression in the branch has the property. -/
def Branch.Over (P : Expr → Prop) (b : Branch) : Prop :=
  ∀ o ∈ b.occurrences, o.Over P

/-- What holds of the expressions of a choice holds of those of its branches and of its last
alternative. -/
theorem Stmt.over_choose {branches : List Branch} {last : Option (List Stmt)} {line : Nat} :
    (Stmt.choose branches last line).Over P ↔
      (∀ b ∈ branches, b.Over P) ∧ ∀ body ∈ last, ∀ s ∈ body, s.Over P := by
  cases last with
  | none => simp [Stmt.Over, Branch.Over, Stmt.occurrences, Branch.forall_allOccurrences]
  | some body =>
    simp [Stmt.Over, Branch.Over, Stmt.occurrences, List.forall_mem_append,
      Branch.forall_allOccurrences, Stmt.forall_allOccurrences, -List.mem_append]

theorem Stmt.over_range {name : String} {first last : Expr} {body : List Stmt} {line : Nat} :
    (Stmt.range name first last body line).Over P ↔
      P first ∧ P last ∧ ∀ s ∈ body, s.Over P := by
  simp [Stmt.Over, Stmt.occurrences, Occurrence.Over, Stmt.forall_allOccurrences]

theorem Stmt.over_whilst {condition : Expr} {body : List Stmt} {line : Nat} :
    (Stmt.whilst condition body line).Over P ↔ P condition ∧ ∀ s ∈ body, s.Over P := by
  simp [Stmt.Over, Stmt.occurrences, Occurrence.Over, Stmt.forall_allOccurrences]

theorem Branch.over_mk {condition : Expr} {body : List Stmt} {line : Nat} :
    (Branch.mk condition body line).Over P ↔ P condition ∧ ∀ s ∈ body, s.Over P := by
  simp [Stmt.Over, Branch.Over, Branch.occurrences, Occurrence.Over, Stmt.forall_allOccurrences]

/-! ## Derivations -/

/-- Every expression in the phrase has the property. -/
def Phrase.Over (P : Expr → Prop) : Phrase → Prop
  | .expr _ e => P e
  | .args es => ∀ e ∈ es, P e
  | .stmt s => s.Over P
  | .body ss => ∀ s ∈ ss, s.Over P
  | .tail bs last => (∀ b ∈ bs, b.Over P) ∧ ∀ body ∈ last, ∀ s ∈ body, s.Over P

/-- A property of expressions that composes holds of all expressions of a derived phrase. -/
theorem Derives.over (composes : Composes P) {ts : List Token} {phrase : Phrase}
    (derived : Derives ts phrase) : phrase.Over P := by
  induction derived with
  | tighter loose inner ih => exact ih
  | binary own first second ihFirst ihSecond => exact composes.join _ ihFirst ihSecond
  | not operand ih => exact composes.unary _ _ ih
  | negate operand ih => exact composes.unary _ _ ih
  | number => exact composes.number _ _
  | text => exact composes.text _ _
  | trueWord => exact composes.flag _ _
  | falseWord => exact composes.flag _ _
  | name => exact composes.name _ _
  | group inner ih => exact ih
  | callNone => exact composes.call _ _ fun arg none => absurd none List.not_mem_nil
  | call arguments ih => exact composes.call _ _ ih
  | lastArg arg ih => exact List.forall_mem_singleton.2 ih
  | moreArgs arg more ihArg ihMore => exact List.forall_mem_cons.2 ⟨ihArg, ihMore⟩
  | set value ih | keep value ih | change value ih | assign value ih =>
    exact List.forall_mem_cons.2 ⟨ih, List.forall_mem_singleton.2 trivial⟩
  | say value ih | display value ih => exact List.forall_mem_singleton.2 ih
  | ask => exact List.forall_mem_singleton.2 trivial
  | leave | next => exact fun o none => absurd none List.not_mem_nil
  | range start stop inside ihStart ihStop ihInside =>
    exact Stmt.over_range.2 ⟨ihStart, ihStop, ihInside⟩
  | whilst test inside ihTest ihInside => exact Stmt.over_whilst.2 ⟨ihTest, ihInside⟩
  | choose opens test inside others ihTest ihInside ihOthers =>
    refine Stmt.over_choose.2 ⟨List.forall_mem_cons.2 ⟨?_, ihOthers.1⟩, ihOthers.2⟩
    exact Branch.over_mk.2 ⟨ihTest, ihInside⟩
  | close => simp [Phrase.Over]
  | otherwise separate inside ih => simpa [Phrase.Over] using ih
  | branch opens test inside others ihTest ihInside ihOthers =>
    refine ⟨List.forall_mem_cons.2 ⟨?_, ihOthers.1⟩, ihOthers.2⟩
    exact Branch.over_mk.2 ⟨ihTest, ihInside⟩
  | nothing => exact fun s none => absurd none List.not_mem_nil
  | semicolon more ih => exact ih
  | sequence first more ihFirst ihMore => exact List.forall_mem_cons.2 ⟨ihFirst, ihMore⟩

theorem Descent.over_parse (composes : Composes P) {source : String} {p : Program}
    (parsed : Descent.parse source = .ok p) : ∀ s ∈ p.body, s.Over P := by
  obtain ⟨_, _, accepted⟩ := Descent.parseWithin_eq_ok_iff.1 parsed
  exact (derivedFrom_of_program accepted).over composes

/-! ## The stack machine -/

namespace Contextual

/-- Every expression in what is not finished has the property. -/
def Pending.Over (P : Expr → Prop) : Pending → Prop
  | .group | .unary .. => True
  | .call _ _ args => ∀ arg ∈ args, P arg
  | .binary _ left => P left

/-- Every expression that goes with a purpose has the property. -/
def Purpose.Over (P : Expr → Prop) : Purpose → Prop
  | .condition _ earlier _ => ∀ b ∈ earlier, b.Over P
  | .last _ start _ => P start
  | _ => True

/-- Every expression in an unfinished block and before it has the property. -/
def Open.Over (P : Expr → Prop) : Open → Prop
  | .branch before _ earlier condition _ =>
    (∀ s ∈ before, s.Over P) ∧ (∀ b ∈ earlier, b.Over P) ∧ P condition
  | .otherwise before _ branches => (∀ s ∈ before, s.Over P) ∧ ∀ b ∈ branches, b.Over P
  | .range before _ first last _ => (∀ s ∈ before, s.Over P) ∧ P first ∧ P last
  | .whilst before condition _ => (∀ s ∈ before, s.Over P) ∧ P condition

/-- Every expression in an unfinished statement has the property. -/
def Point.Over (P : Expr → Prop) : Point → Prop
  | .statement _ | .target .. | .condition _ => True
  | .assignment purpose => purpose.Over P
  | .body test _ => P test
  | .operand purpose pending | .name purpose pending _ _ =>
    purpose.Over P ∧ ∀ p ∈ pending, p.Over P
  | .operator purpose pending value => purpose.Over P ∧ (∀ p ∈ pending, p.Over P) ∧ P value

/-- Every expression in a state has the property. -/
structure State.Over (P : Expr → Prop) (s : State) : Prop where
  blocks : ∀ b ∈ s.blocks, b.Over P
  done : ∀ stmt ∈ s.done, stmt.Over P
  point : s.point.Over P

theorem over_of_settle (composes : Composes P) {level : Nat} {pending pending' : List Pending}
    {value value' : Expr} (settled : settle level pending value = (pending', value'))
    (waiting : ∀ p ∈ pending, p.Over P) (ok : P value) :
    (∀ p ∈ pending', p.Over P) ∧ P value' :=
  settle_keeps (fun _ inner => composes.unary _ _ inner)
    (fun left right => composes.join _ left right) settled waiting ok

theorem over_finish? {purpose : Purpose} {value : Expr} {stmt : Stmt} (ok : P value)
    (finished : purpose.finish? value = some stmt) : stmt.Over P := by
  cases purpose <;> cases finished
  all_goals simpa [Stmt.Over, Stmt.occurrences, Occurrence.Over] using ok

theorem over_endBranch {done : List Stmt} {earlier : List Branch} {condition : Expr} {line : Nat}
    (finished : ∀ s ∈ done, s.Over P) (before : ∀ b ∈ earlier, b.Over P) (test : P condition) :
    ∀ b ∈ endBranch done earlier condition line, b.Over P := by
  have last : (Branch.mk condition done.reverse line).Over P :=
    Branch.over_mk.2 ⟨test, by simpa using finished⟩
  exact List.forall_mem_append.2 ⟨before, List.forall_mem_singleton.2 last⟩

/-- Closing a block keeps the property for its expressions. -/
theorem Open.Over.close {block : Open} {done : List Stmt} (holds : block.Over P)
    (finished : ∀ s ∈ done, s.Over P) : ∀ s ∈ block.close done, s.Over P := by
  have inside : ∀ s ∈ done.reverse, s.Over P := by simpa using finished
  cases block with
  | branch before line earlier condition branchLine =>
    obtain ⟨outer, others, test⟩ := holds
    refine List.forall_mem_cons.2 ⟨Stmt.over_choose.2 ⟨?_, ?_⟩, outer⟩
    · exact over_endBranch finished others test
    · intro body none
      cases none
  | otherwise before line branches =>
    obtain ⟨outer, others⟩ := holds
    refine List.forall_mem_cons.2 ⟨Stmt.over_choose.2 ⟨others, ?_⟩, outer⟩
    intro body last
    cases last
    exact inside
  | range before name first last line =>
    obtain ⟨outer, start, stop⟩ := holds
    exact List.forall_mem_cons.2 ⟨Stmt.over_range.2 ⟨start, stop, inside⟩, outer⟩
  | whilst before condition line =>
    obtain ⟨outer, test⟩ := holds
    exact List.forall_mem_cons.2 ⟨Stmt.over_whilst.2 ⟨test, inside⟩, outer⟩

/-! ### One word further -/

variable {word : Lexeme} {s s' : State}

/-- A word keeps the property for all expressions in the state: those it completes are composed of
those that waited. -/
theorem State.Over.step (composes : Composes P) (holds : s.Over P) (step : Step word s s') :
    s'.Over P := by
  -- After a bare name or a finished statement the step is that of another state over `P`.
  induction step with
  | set | keep | change | ask | loop | assign | whilst | semicolon =>
    exact ⟨holds.blocks, holds.done, trivial⟩
  | say | display => exact ⟨holds.blocks, holds.done, trivial, by simp⟩
  | choose => exact ⟨holds.blocks, holds.done, by simp [Purpose.Over], by simp⟩
  | leave | next =>
    refine ⟨holds.blocks, List.forall_mem_cons.2 ⟨?_, holds.done⟩, trivial⟩
    exact fun o none => absurd none List.not_mem_nil
  | close =>
    obtain ⟨block, around⟩ := List.forall_mem_cons.1 holds.blocks
    exact ⟨around, block.close holds.done, trivial⟩
  | otherwise =>
    obtain ⟨⟨before, earlier, test⟩, around⟩ := List.forall_mem_cons.1 holds.blocks
    refine ⟨List.forall_mem_cons.2 ⟨⟨before, ?_⟩, around⟩, by simp, trivial⟩
    exact over_endBranch holds.done earlier test
  | otherwiseWhen =>
    obtain ⟨⟨before, earlier, test⟩, around⟩ := List.forall_mem_cons.1 holds.blocks
    exact ⟨around, before, over_endBranch holds.done earlier test, by simp⟩
  | declared | changed | counter => exact ⟨holds.blocks, holds.done, trivial⟩
  | asked =>
    refine ⟨holds.blocks, List.forall_mem_cons.2 ⟨?_, holds.done⟩, trivial⟩
    exact List.forall_mem_singleton.2 trivial
  | equals => exact ⟨holds.blocks, holds.done, holds.point, by simp⟩
  | test => exact ⟨holds.blocks, holds.done, trivial, by simp⟩
  | enter =>
    exact ⟨List.forall_mem_cons.2 ⟨⟨holds.done, holds.point⟩, holds.blocks⟩, by simp, trivial⟩
  | number =>
    exact ⟨holds.blocks, holds.done, holds.point.1, holds.point.2, composes.number _ _⟩
  | text => exact ⟨holds.blocks, holds.done, holds.point.1, holds.point.2, composes.text _ _⟩
  | trueWord | falseWord =>
    exact ⟨holds.blocks, holds.done, holds.point.1, holds.point.2, composes.flag _ _⟩
  | name => exact ⟨holds.blocks, holds.done, holds.point⟩
  | negate | not | group =>
    obtain ⟨aim, waiting⟩ := holds.point
    exact ⟨holds.blocks, holds.done, aim, List.forall_mem_cons.2 ⟨trivial, waiting⟩⟩
  | callNone =>
    obtain ⟨aim, waiting⟩ := holds.point
    have rest := (List.forall_mem_cons.1 waiting).2
    exact ⟨holds.blocks, holds.done, aim, rest, composes.call _ _ (by simp)⟩
  | call =>
    obtain ⟨aim, waiting⟩ := holds.point
    refine ⟨holds.blocks, holds.done, aim, List.forall_mem_cons.2 ⟨?_, waiting⟩⟩
    simp [Pending.Over]
  | bare _ _ ih =>
    obtain ⟨aim, waiting⟩ := holds.point
    exact ih ⟨holds.blocks, holds.done, aim, waiting, composes.name _ _⟩
  | binary =>
    obtain ⟨aim, waiting, ok⟩ := holds.point
    obtain ⟨rest, left⟩ := over_of_settle composes rfl waiting ok
    exact ⟨holds.blocks, holds.done, aim, List.forall_mem_cons.2 ⟨left, rest⟩⟩
  | endGroup _ settled =>
    obtain ⟨aim, waiting, ok⟩ := holds.point
    obtain ⟨rest, inner⟩ := over_of_settle composes settled waiting ok
    exact ⟨holds.blocks, holds.done, aim, (List.forall_mem_cons.1 rest).2, inner⟩
  | lastArg _ settled =>
    obtain ⟨aim, waiting, ok⟩ := holds.point
    obtain ⟨rest, last⟩ := over_of_settle composes settled waiting ok
    obtain ⟨args, rest⟩ := List.forall_mem_cons.1 rest
    refine ⟨holds.blocks, holds.done, aim, rest, composes.call _ _ ?_⟩
    refine List.forall_mem_append.2 ⟨fun arg listed => ?_, List.forall_mem_singleton.2 last⟩
    exact args arg (List.mem_reverse.1 listed)
  | moreArgs _ settled =>
    obtain ⟨aim, waiting, ok⟩ := holds.point
    obtain ⟨rest, arg⟩ := over_of_settle composes settled waiting ok
    obtain ⟨args, rest⟩ := List.forall_mem_cons.1 rest
    refine ⟨holds.blocks, holds.done, aim, List.forall_mem_cons.2 ⟨?_, rest⟩⟩
    exact List.forall_mem_cons.2 ⟨arg, args⟩
  | branch _ settled | range _ settled =>
    obtain ⟨aim, waiting, ok⟩ := holds.point
    obtain ⟨-, whole⟩ := over_of_settle composes settled waiting ok
    refine ⟨List.forall_mem_cons.2 ⟨?_, holds.blocks⟩, by simp, trivial⟩
    exact ⟨holds.done, aim, whole⟩
  | upTo _ settled =>
    obtain ⟨-, waiting, ok⟩ := holds.point
    obtain ⟨-, start⟩ := over_of_settle composes settled waiting ok
    exact ⟨holds.blocks, holds.done, start, by simp⟩
  | tested _ settled =>
    obtain ⟨-, waiting, ok⟩ := holds.point
    obtain ⟨-, condition⟩ := over_of_settle composes settled waiting ok
    exact ⟨holds.blocks, holds.done, condition⟩
  | finish settled finished _ ih =>
    obtain ⟨-, waiting, ok⟩ := holds.point
    obtain ⟨-, whole⟩ := over_of_settle composes settled waiting ok
    have stmt := over_finish? whole finished
    exact ih ⟨holds.blocks, List.forall_mem_cons.2 ⟨stmt, holds.done⟩, trivial⟩

/-- At the end of the source the property holds of all expressions of the statements. -/
theorem State.Over.finish (composes : Composes P) {body : List Stmt} (holds : s.Over P)
    (finish : Finish s body) : ∀ stmt ∈ body, stmt.Over P := by
  induction finish with
  | between => exact holds.done
  | bare _ ih =>
    obtain ⟨aim, waiting⟩ := holds.point
    exact ih ⟨holds.blocks, holds.done, aim, waiting, composes.name _ _⟩
  | complete settled finished =>
    obtain ⟨-, waiting, ok⟩ := holds.point
    obtain ⟨-, whole⟩ := over_of_settle composes settled waiting ok
    exact List.forall_mem_cons.2 ⟨over_finish? whole finished, holds.done⟩

/-- The property holds of all expressions of a program that is parsed. -/
theorem over_parseFrom (composes : Composes P) {s : State} {line : Nat} {cs : List Char}
    {p : Program} (holds : s.Over P) (parsed : parseFrom s line cs = .ok p) :
    ∀ stmt ∈ p.body, stmt.Over P := by
  fun_induction parseFrom s line cs with
  | case1 s line cs here skipped body finished =>
    cases parsed
    have whole := holds.finish composes (.of_finish? finished)
    simpa using whole
  | case2 | case3 | case4 => cases parsed
  | case5 s line cs here c rest skipped terminal letters after found shorter next stepped ih =>
    exact ih (holds.step composes (.of_step stepped)) parsed

end Contextual

/-- A property that goes from the parts to the whole holds of every expression that a front end has
read. -/
theorem FrontEnd.over_parse (composes : Composes P) {frontEnd : FrontEnd} {source : String}
    {p : Program} (parsed : frontEnd.parse source = .ok p) {e : Expr}
    (occurs : .value e ∈ p.occurrences) : P e := by
  have holds : ∀ s ∈ p.body, s.Over P := by
    cases frontEnd with
    | descent => exact Descent.over_parse composes parsed
    | contextual =>
      have started : ({} : Contextual.State).Over P := ⟨by simp, by simp, trivial⟩
      exact Contextual.over_parseFrom composes started parsed
  exact Stmt.forall_allOccurrences.2 holds _ occurs

/-- Every number of an expression is that of a literal, and so in what is composed of such
expressions. -/
theorem composes_literals :
    Composes fun e => ∀ x ∈ e.numbers, ∃ digits, x = Number.literal digits where
  number digits line := by
    intro x listed
    exact ⟨digits, List.mem_singleton.1 listed⟩
  text content line x none := absurd none List.not_mem_nil
  flag value line x none := absurd none List.not_mem_nil
  name name line x none := absurd none List.not_mem_nil
  unary op line inside x listed := by
    rw [Expr.numbers_unary] at listed
    exact inside x listed
  join op inLeft inRight x listed := by
    rw [Expr.join, Expr.numbers_binary, List.mem_append] at listed
    exact listed.elim (inLeft x) (inRight x)
  call name line inside x listed := by
    obtain ⟨arg, member, listed⟩ := Expr.mem_numbers_call.1 listed
    exact inside arg member x listed

/-- The numbers of a program that a front end has read are number literals. -/
theorem FrontEnd.exists_literal_of_parse {frontEnd : FrontEnd} {source : String} {p : Program}
    (parsed : frontEnd.parse source = .ok p) {x : Float} (listed : x ∈ p.numbers) :
    ∃ digits, x = Number.literal digits := by
  obtain ⟨part, inside, same⟩ := List.mem_filterMap.1 listed
  obtain ⟨e, occurs, inside⟩ := Program.exists_of_mem_parts inside
  refine FrontEnd.over_parse composes_literals parsed occurs x ?_
  exact List.mem_filterMap.2 ⟨part, inside, same⟩

end Parlance
