import Parlance.Proofs.ContextualSteps
import Parlance.Proofs.SourceLines

/-!
# The lines of the stack machine

The second front end takes every line from the words it reads, so all lines in its state are lines
of the source (`State.OnLines`), and so are those of the program or the report that it ends with.
-/

namespace Parlance.Contextual

/-! ## The lines in a state -/

variable {P : Nat → Prop}

/-- Every line in an unfinished expression has a property. -/
def Pending.OnLines (P : Nat → Prop) : Pending → Prop
  | .group => True
  | .call _ line args => P line ∧ ∀ e ∈ args, e.OnLines P
  | .unary _ line => P line
  | .binary _ left => left.OnLines P

/-- Every line in the statement around an expression has a property. -/
def Purpose.OnLines (P : Nat → Prop) : Purpose → Prop
  | .declare _ _ line => P line
  | .assign _ line => P line
  | .say line => P line
  | .display line => P line
  | .condition line earlier branchLine => P line ∧ (∀ b ∈ earlier, b.OnLines P) ∧ P branchLine
  | .first _ line => P line
  | .last _ start line => start.OnLines P ∧ P line
  | .whilst line => P line

/-- Every line in an unfinished block and before it has a property. -/
def Open.OnLines (P : Nat → Prop) : Open → Prop
  | .branch before line earlier condition branchLine =>
    (∀ s ∈ before, s.OnLines P) ∧ P line ∧ (∀ b ∈ earlier, b.OnLines P) ∧ condition.OnLines P ∧
      P branchLine
  | .otherwise before line branches =>
    (∀ s ∈ before, s.OnLines P) ∧ P line ∧ ∀ b ∈ branches, b.OnLines P
  | .range before _ first last line =>
    (∀ s ∈ before, s.OnLines P) ∧ first.OnLines P ∧ last.OnLines P ∧ P line
  | .whilst before condition line => (∀ s ∈ before, s.OnLines P) ∧ condition.OnLines P ∧ P line

/-- Every line in an unfinished statement has a property. -/
def Point.OnLines (P : Nat → Prop) : Point → Prop
  | .statement _ => True
  | .target _ line => P line
  | .assignment purpose => purpose.OnLines P
  | .condition line => P line
  | .body test line => test.OnLines P ∧ P line
  | .operand purpose pending => purpose.OnLines P ∧ ∀ p ∈ pending, p.OnLines P
  | .name purpose pending _ line => purpose.OnLines P ∧ (∀ p ∈ pending, p.OnLines P) ∧ P line
  | .operator purpose pending value =>
    purpose.OnLines P ∧ (∀ p ∈ pending, p.OnLines P) ∧ value.OnLines P

/-- Every line in a state has a property. -/
structure State.OnLines (P : Nat → Prop) (s : State) : Prop where
  blocks : ∀ b ∈ s.blocks, b.OnLines P
  done : ∀ stmt ∈ s.done, stmt.OnLines P
  point : s.point.OnLines P

/-- The lines of a word: that of its first character and that of its last. -/
def Lexeme.OnLines (P : Nat → Prop) (word : Lexeme) : Prop :=
  P word.line ∧ P (word.line + word.letters.count '\n')

theorem onLines_of_settle {level : Nat} {pending pending' : List Pending} {value value' : Expr}
    (settled : settle level pending value = (pending', value'))
    (pendingLines : ∀ p ∈ pending, p.OnLines P) (valueLines : value.OnLines P) :
    (∀ p ∈ pending', p.OnLines P) ∧ value'.OnLines P :=
  settle_keeps (fun ok inner => ⟨ok, inner⟩) (fun left right => .join _ left right) settled
    pendingLines valueLines

theorem Purpose.OnLines.finish? {purpose : Purpose} {value : Expr} {stmt : Stmt}
    (lines : purpose.OnLines P) (valueLines : value.OnLines P)
    (finished : purpose.finish? value = some stmt) : stmt.OnLines P := by
  cases purpose <;> cases finished <;> exact ⟨lines, valueLines⟩

theorem onLines_endBranch {done : List Stmt} {earlier : List Branch} {condition : Expr}
    {line : Nat} (doneLines : ∀ s ∈ done, s.OnLines P) (earlierLines : ∀ b ∈ earlier, b.OnLines P)
    (conditionLines : condition.OnLines P) (ok : P line) :
    ∀ b ∈ endBranch done earlier condition line, b.OnLines P := by
  have last : (Branch.mk condition done.reverse line).OnLines P :=
    ⟨ok, conditionLines, by simpa using doneLines⟩
  simpa [endBranch, or_imp, forall_and] using ⟨earlierLines, last⟩

/-- Closing a block adds its lines to those of the statements before it. -/
theorem Open.OnLines.close {block : Open} {done : List Stmt} (lines : block.OnLines P)
    (doneLines : ∀ s ∈ done, s.OnLines P) : ∀ s ∈ block.close done, s.OnLines P := by
  cases block with
  | branch before line earlier condition branchLine =>
    obtain ⟨beforeLines, ok, earlierLines, conditionLines, branchOk⟩ := lines
    refine List.forall_mem_cons.2 ⟨Stmt.onLines_choose.2 ⟨ok, ?_, nofun⟩, beforeLines⟩
    exact onLines_endBranch doneLines earlierLines conditionLines branchOk
  | otherwise before line branches =>
    obtain ⟨beforeLines, ok, branchLines⟩ := lines
    refine List.forall_mem_cons.2 ⟨Stmt.onLines_choose.2 ⟨ok, branchLines, ?_⟩, beforeLines⟩
    rintro body ⟨⟩
    simpa using doneLines
  | range before name first last line =>
    obtain ⟨beforeLines, firstLines, lastLines, ok⟩ := lines
    refine List.forall_mem_cons.2 ⟨⟨ok, firstLines, lastLines, ?_⟩, beforeLines⟩
    simpa using doneLines
  | whilst before condition line =>
    obtain ⟨beforeLines, conditionLines, ok⟩ := lines
    refine List.forall_mem_cons.2 ⟨⟨ok, conditionLines, ?_⟩, beforeLines⟩
    simpa using doneLines

/-! ## One word further -/

variable {word : Lexeme} {s s' : State}

/-- A word adds its own line to the state and no other.  `otherwise when` adds the line of its last
character, the line of the branch; every other word that of its first one. -/
theorem State.OnLines.step (lines : s.OnLines P) (wordLines : word.OnLines P)
    (step : Step word s s') : s'.OnLines P := by
  have first : P word.line := wordLines.1
  -- After a bare name or a finished statement the step is that of another state with these lines.
  induction step with
  | set | keep | change | ask | loop | assign | whilst => exact ⟨lines.blocks, lines.done, first⟩
  | say | display => exact ⟨lines.blocks, lines.done, first, by simp⟩
  | choose => exact ⟨lines.blocks, lines.done, ⟨first, by simp, first⟩, by simp⟩
  | leave | next =>
    exact ⟨lines.blocks, List.forall_mem_cons.2 ⟨first, lines.done⟩, trivial⟩
  | semicolon => exact ⟨lines.blocks, lines.done, trivial⟩
  | close =>
    obtain ⟨block, around⟩ := List.forall_mem_cons.1 lines.blocks
    exact ⟨around, block.close lines.done, trivial⟩
  | otherwise =>
    obtain ⟨⟨before, ok, earlier, condition, branchOk⟩, around⟩ :=
      List.forall_mem_cons.1 lines.blocks
    have branches := onLines_endBranch lines.done earlier condition branchOk
    exact ⟨List.forall_mem_cons.2 ⟨⟨before, ok, branches⟩, around⟩, by simp, trivial⟩
  | otherwiseWhen =>
    obtain ⟨⟨before, ok, earlier, condition, branchOk⟩, around⟩ :=
      List.forall_mem_cons.1 lines.blocks
    have branches := onLines_endBranch lines.done earlier condition branchOk
    exact ⟨around, before, ⟨ok, branches, wordLines.2⟩, by simp⟩
  | declared | changed | counter => exact ⟨lines.blocks, lines.done, lines.point⟩
  | asked =>
    exact ⟨lines.blocks, List.forall_mem_cons.2 ⟨lines.point, lines.done⟩, trivial⟩
  | equals | test => exact ⟨lines.blocks, lines.done, lines.point, by simp⟩
  | enter =>
    obtain ⟨condition, ok⟩ := lines.point
    refine ⟨List.forall_mem_cons.2 ⟨?_, lines.blocks⟩, by simp, trivial⟩
    exact ⟨lines.done, condition, ok⟩
  | number | text | trueWord | falseWord | name =>
    obtain ⟨aim, waiting⟩ := lines.point
    exact ⟨lines.blocks, lines.done, aim, waiting, first⟩
  | negate | not =>
    obtain ⟨aim, waiting⟩ := lines.point
    exact ⟨lines.blocks, lines.done, aim, List.forall_mem_cons.2 ⟨first, waiting⟩⟩
  | group =>
    obtain ⟨aim, waiting⟩ := lines.point
    exact ⟨lines.blocks, lines.done, aim, List.forall_mem_cons.2 ⟨trivial, waiting⟩⟩
  | callNone =>
    obtain ⟨aim, waiting⟩ := lines.point
    obtain ⟨⟨ok, -⟩, rest⟩ := List.forall_mem_cons.1 waiting
    exact ⟨lines.blocks, lines.done, aim, rest, ok, by simp [Expr.AllOnLines]⟩
  | call =>
    obtain ⟨aim, waiting, ok⟩ := lines.point
    exact ⟨lines.blocks, lines.done, aim, List.forall_mem_cons.2 ⟨⟨ok, by simp⟩, waiting⟩⟩
  | bare _ _ ih => exact ih ⟨lines.blocks, lines.done, lines.point⟩
  | binary =>
    obtain ⟨aim, waiting, ok⟩ := lines.point
    obtain ⟨rest, left⟩ := onLines_of_settle rfl waiting ok
    exact ⟨lines.blocks, lines.done, aim, List.forall_mem_cons.2 ⟨left, rest⟩⟩
  | endGroup _ settled =>
    obtain ⟨aim, waiting, ok⟩ := lines.point
    obtain ⟨rest, inner⟩ := onLines_of_settle settled waiting ok
    exact ⟨lines.blocks, lines.done, aim, (List.forall_mem_cons.1 rest).2, inner⟩
  | lastArg _ settled =>
    obtain ⟨aim, waiting, ok⟩ := lines.point
    obtain ⟨rest, last⟩ := onLines_of_settle settled waiting ok
    obtain ⟨⟨callOk, args⟩, rest⟩ := List.forall_mem_cons.1 rest
    refine ⟨lines.blocks, lines.done, aim, rest, callOk, ?_⟩
    simpa [or_imp, forall_and] using ⟨args, last⟩
  | moreArgs _ settled =>
    obtain ⟨aim, waiting, ok⟩ := lines.point
    obtain ⟨rest, arg⟩ := onLines_of_settle settled waiting ok
    obtain ⟨⟨callOk, args⟩, rest⟩ := List.forall_mem_cons.1 rest
    refine ⟨lines.blocks, lines.done, aim, List.forall_mem_cons.2 ⟨⟨callOk, ?_⟩, rest⟩⟩
    exact List.forall_mem_cons.2 ⟨arg, args⟩
  | branch _ settled =>
    obtain ⟨⟨lineOk, earlier, branchOk⟩, waiting, ok⟩ := lines.point
    obtain ⟨-, condition⟩ := onLines_of_settle settled waiting ok
    refine ⟨List.forall_mem_cons.2 ⟨?_, lines.blocks⟩, by simp, trivial⟩
    exact ⟨lines.done, lineOk, earlier, condition, branchOk⟩
  | range _ settled =>
    obtain ⟨⟨start, lineOk⟩, waiting, ok⟩ := lines.point
    obtain ⟨-, last⟩ := onLines_of_settle settled waiting ok
    refine ⟨List.forall_mem_cons.2 ⟨?_, lines.blocks⟩, by simp, trivial⟩
    exact ⟨lines.done, start, last, lineOk⟩
  | upTo _ settled =>
    obtain ⟨lineOk, waiting, ok⟩ := lines.point
    obtain ⟨-, start⟩ := onLines_of_settle settled waiting ok
    exact ⟨lines.blocks, lines.done, ⟨start, lineOk⟩, by simp⟩
  | tested _ settled =>
    obtain ⟨lineOk, waiting, ok⟩ := lines.point
    obtain ⟨-, condition⟩ := onLines_of_settle settled waiting ok
    exact ⟨lines.blocks, lines.done, condition, lineOk⟩
  | finish settled finished _ ih =>
    obtain ⟨aim, waiting, ok⟩ := lines.point
    obtain ⟨-, whole⟩ := onLines_of_settle settled waiting ok
    have stmt := aim.finish? whole finished
    exact ih ⟨lines.blocks, List.forall_mem_cons.2 ⟨stmt, lines.done⟩, trivial⟩

/-- At the end of the source the statements have lines of the state. -/
theorem State.OnLines.finish {body : List Stmt} (lines : s.OnLines P) (finish : Finish s body) :
    ∀ stmt ∈ body, stmt.OnLines P := by
  induction finish with
  | between => exact lines.done
  | bare _ ih => exact ih ⟨lines.blocks, lines.done, lines.point⟩
  | complete settled finished =>
    obtain ⟨aim, waiting, ok⟩ := lines.point
    obtain ⟨-, whole⟩ := onLines_of_settle settled waiting ok
    exact List.forall_mem_cons.2 ⟨aim.finish? whole finished, lines.done⟩

/-! ## The whole source -/

/-- `otherwise when` and what is left are the text. -/
theorem append_of_spanOtherwiseWhen? {cs letters rest : List Char}
    (found : spanOtherwiseWhen? cs = some (letters, rest)) : letters ++ rest = cs := by
  simp only [spanOtherwiseWhen?, Option.bind_eq_bind, Option.bind_eq_some_iff] at found
  obtain ⟨afterWord, stripped, ⟨gap, afterGap⟩, gapFound, found⟩ := found
  split at found
  · cases found
  · obtain ⟨⟨word, final⟩, whenFound, same⟩ := Option.bind_eq_some_iff.1 found
    cases same
    have last : afterGap = word ++ final := eq_append_of_spanWhen? whenFound
    rw [eq_append_of_strip? stripped, eq_append_of_spanGap? gapFound, last]
    simp

/-- A word of fixed letters and what is left are the text. -/
theorem append_of_spanFixed? {accepts : Terminal → Bool} {cs letters rest : List Char}
    {t : Terminal} (found : spanFixed? accepts cs = some (t, letters, rest)) :
    letters ++ rest = cs := by
  obtain ⟨⟨u, word⟩, _, found⟩ := List.exists_of_findSome?_eq_some found
  obtain ⟨_, found⟩ := Option.ite_none_right_eq_some.1 found
  obtain ⟨after, stripped, same⟩ := Option.map_eq_some_iff.1 found
  cases same
  exact (eq_append_of_strip? stripped).symm

/-- A word and what is left are the text. -/
theorem append_of_spanWord? {accepts : Terminal → Bool} {c : Char} {cs letters rest : List Char}
    {t : Terminal} (found : spanWord? accepts c cs = some (t, letters, rest)) :
    letters ++ rest = c :: cs := by
  unfold spanWord? at found
  split at found
  · obtain ⟨_, same⟩ := Prod.mk.inj (Option.some.inj found)
    have whole := spanNumber_append (c :: cs)
    rwa [same] at whole
  · split at found
    · cases found
      rw [List.cons_append, List.takeWhile_append_dropWhile]
    · split at found
      · next quoted =>
        split at found
        · next quote after closed =>
          cases found
          have opens : c = '"' := by simpa using (Bool.and_eq_true_iff.1 quoted).2
          simpa [opens] using takeWhile_append_quote closed
        · cases found
      · exact append_of_spanFixed? found

/-- A word and the rest make up the text. -/
theorem append_of_span? {accepts : Terminal → Bool} {c : Char} {cs letters rest : List Char}
    {t : Terminal} (found : span? accepts c cs = some (t, letters, rest)) :
    letters ++ rest = c :: cs := by
  unfold span? at found
  split at found
  · next pair together =>
    cases found
    exact append_of_spanOtherwiseWhen? (Option.ite_none_right_eq_some.1 together).2
  · exact append_of_spanWord? found

/-- Skipping a gap moves on by the lines in it. -/
theorem lines_skipGap (comment : Bool) (line : Nat) (cs : List Char) :
    line ≤ (skipGap comment line cs).1 ∧
      (skipGap comment line cs).1 + (skipGap comment line cs).2.count '\n' =
        line + cs.count '\n' := by
  fun_induction skipGap comment line cs with
  | case1 => simp
  | case2 comment line cs ih =>
    simp only [List.count_cons_self]
    omega
  | case3 line c cs other ih =>
    rw [List.count_cons_of_ne other]
    exact ih
  | case4 line c cs other _ ih =>
    rw [List.count_cons_of_ne other]
    exact ih
  | case5 line cs other _ ih => simpa using ih
  | case6 => simp

/-- After a gap the machine is on a line of the source, and the lines that are left make up the
rest. -/
theorem lineOf_of_skipGap {source : String} {line here : Nat} {cs rest : List Char}
    (low : 1 ≤ line) (left : line + cs.count '\n' = 1 + source.toList.count '\n')
    (skipped : skipGap false line cs = (here, rest)) :
    LineOf source here ∧ here + rest.count '\n' = 1 + source.toList.count '\n' := by
  have lines := lines_skipGap false line cs
  simp only [skipped] at lines
  exact ⟨⟨by omega, by omega⟩, by omega⟩

/-- From a state whose lines are lines of the source, the machine names no other ones. -/
theorem located_parseFrom {source : String} {s : State} {line : Nat} {cs : List Char}
    (lines : s.OnLines (LineOf source)) (low : 1 ≤ line)
    (left : line + cs.count '\n' = 1 + source.toList.count '\n') :
    Located source (parseFrom s line cs) := by
  fun_induction parseFrom s line cs with
  | case1 s line cs here skipped body finished =>
    have bodyLines := lines.finish (.of_finish? finished)
    simpa [Located] using bodyLines
  | case2 s line cs here skipped finished =>
    exact ⟨here, rfl, (lineOf_of_skipGap low left skipped).1⟩
  | case3 s line cs here c rest skipped missed =>
    refine ⟨here, ?_, (lineOf_of_skipGap low left skipped).1⟩
    unfold unreadable
    split <;> rfl
  | case4 s line cs here c rest skipped terminal letters after found shorter stuck =>
    exact ⟨here, rfl, (lineOf_of_skipGap low left skipped).1⟩
  | case5 s line cs here c rest skipped terminal letters after found shorter next stepped ih =>
    obtain ⟨ok, restLeft⟩ := lineOf_of_skipGap low left skipped
    rw [← append_of_span? found, List.count_append] at restLeft
    have last : LineOf source (here + letters.count '\n') := ⟨Nat.le_add_right_of_le ok.1, by omega⟩
    exact ih (lines.step ⟨ok, last⟩ (.of_step stepped)) last.1 (by omega)

theorem located_parse (source : String) : Located source (parse source) :=
  located_parseFrom ⟨nofun, nofun, trivial⟩ (Nat.le_refl 1) rfl

end Parlance.Contextual
