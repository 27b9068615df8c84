import Mathlib
import Parlance.Proofs.ContextualLines
import Parlance.Proofs.EvaluationOutcome
import Parlance.Proofs.Growth

/-!
# Nothing but mistakes comes out of a source

A program that a front end has read runs into no fault, whatever the input and the cancel signal:
each way it can fail is a mistake at a line of the source.  The invariant of a run is that names are
bound to values of the language only.
-/

namespace Parlance

open Machine

/-- From an environment of values the computation gets to such environments only.  Its results have
a property, and it fails with a problem at a line with a property, or is followed no longer. -/
def Confined {α : Type} (P : Nat → Prop) (setup : Setup) (m : Machine α) (ok : α → Prop) : Prop :=
  ∀ s : State, s.env.HoldsValues →
    Ensures setup s m (fun value s' => ok value ∧ s'.env.HoldsValues)
      fun failure _ => failure = .endless ∨ failure.IsProblem P

section Confined

variable {α β : Type} {P : Nat → Prop} {setup : Setup} {line : Nat}

theorem confined_pure {ok : α → Prop} {value : α} (holds : ok value) :
    Confined P setup (pure value) ok :=
  fun _ values => ensures_pure ⟨holds, values⟩

theorem confined_problem {ok : α → Prop} {problem : Problem} (inside : P line) :
    Confined P setup (throw (.problem (lineTree line) problem)) ok :=
  fun _ _ => ensures_throw (.inr ⟨line, problem, inside, rfl⟩)

theorem confined_endless {ok : α → Prop} : Confined P setup (throw .endless) ok :=
  fun _ _ => ensures_throw (.inl rfl)

theorem Confined.bind {ok : α → Prop} {ok' : β → Prop} {m : Machine α} {next : α → Machine β}
    (first : Confined P setup m ok) (onward : ∀ a, ok a → Confined P setup (next a) ok') :
    Confined P setup (m >>= next) ok' :=
  fun s values => (first s values).bind fun a s' ⟨holds, values'⟩ => onward a holds s' values'

theorem confined_read {ok : α → Prop} {next : Setup → Machine α}
    (onward : Confined P setup (next setup) ok) : Confined P setup (read >>= next) ok :=
  fun s values => ensures_read (onward s values)

theorem confined_poll : Confined P setup poll fun _ => True := by
  intro s values
  unfold poll
  refine ensures_read ?_
  split
  · exact ensures_pure ⟨trivial, values⟩
  · exact ensures_get (ensures_modify_bind (ensures_pure ⟨trivial, values⟩))

theorem confined_checkpoint (inside : P line) :
    Confined P setup (checkpoint (lineTree line)) fun _ => True := by
  refine confined_poll.bind fun isSet _ => ?_
  split
  · exact confined_problem inside
  · exact confined_pure trivial

/-- Waiting for the signal changes nothing but the count of the questions. -/
theorem confined_awaitSignal {atLast : Machine Unit}
    (last : Confined P setup atLast fun _ => True) (bound : Nat) :
    Confined P setup (awaitSignal atLast bound) fun _ => True := by
  induction bound with
  | zero => exact last
  | succ bound ih =>
    refine confined_poll.bind fun isSet _ => ?_
    split
    · exact confined_pure trivial
    · exact ih

/-- Reading a line changes the input only. -/
theorem confined_readLine : Confined P setup readLine fun _ => True := by
  intro s values
  unfold readLine
  refine ensures_get ?_
  split
  · exact ensures_pure ⟨trivial, values⟩
  · exact ensures_pure ⟨trivial, values⟩
  · exact ensures_modify_bind (ensures_pure ⟨trivial, values⟩)
  · exact ensures_modify_bind (ensures_pure ⟨trivial, values⟩)
  · refine ensures_read ?_
    dsimp only
    split
    · have awaited : Confined P setup (awaitSignal (pure ()) (setup.renewals + 1)) fun _ => True :=
        confined_awaitSignal (confined_pure trivial) (setup.renewals + 1)
      exact ensures_read ((awaited.bind fun _ _ => confined_pure trivial) s values)
    · have awaited : Confined P setup (awaitSignal (throw .endless) setup.patience) fun _ => True :=
        confined_awaitSignal confined_endless setup.patience
      exact ensures_read ((awaited.bind fun _ _ => confined_pure trivial) s values)

theorem confined_writeLine {text : String} : Confined P setup (writeLine text) fun _ => True :=
  fun _ values => ensures_modify ⟨trivial, values⟩

theorem confined_trace {level : Nat} {text : Unit → String} :
    Confined P setup (trace level text) fun _ => True := by
  refine confined_read ?_
  split
  · exact fun _ values => ensures_modify ⟨trivial, values⟩
  · exact confined_pure trivial

theorem confined_need {ok : α → Prop} {part : α} {fault : Fault} (holds : ok part) :
    Confined P setup (need (some part) fault) ok :=
  confined_pure holds

/-- Looking at an environment of values fails inside the statement, if at all. -/
theorem confined_inspect {ok : α → Prop} {look : Environment → Except Failure α}
    (inside : P line)
    (gives : ∀ env : Environment, env.HoldsValues → Gives ok (Failure.InExpression P) (look env)) :
    Confined P setup (inspect (lineTree line) look) ok := by
  intro s values
  have given := gives s.env values
  refine ensures_get ?_
  split
  · next value found =>
    rw [found] at given
    exact ensures_pure ⟨given, values⟩
  · next failure found =>
    rw [found] at given
    rcases given with rfl | problem
    · exact ensures_throw (.inr ⟨line, .tooDeep, inside, rfl⟩)
    · obtain ⟨n, problem, ok', rfl⟩ := problem
      exact ensures_throw (.inr ⟨n, problem, ok', rfl⟩)

end Confined

/-! ## Bindings -/

section Bindings

variable {P : Nat → Prop} {setup : Setup} {env : Environment} {name : String} {value fixed : Tree}
  {line : Nat}

theorem holdsValues_put (values : env.HoldsValues) (isValue : value.IsValue) (key : Key)
    (id : Tree) : (env.put key id value fixed).HoldsValues :=
  Environment.forall_value_put values isValue

/-- The result is the environment with the value put in, or a problem at the line. -/
def Writes (line value : Tree) (env : Environment) (result : Except Failure Environment) : Prop :=
  (∃ key name fixed, result = .ok (env.put key name value fixed)) ∨
    ∃ problem, result = .error (.problem line problem)

/-- An operation that writes a value to the environment keeps it an environment of values. -/
theorem confined_update {change : Environment → Except Failure Environment} (inside : P line)
    (isValue : value.IsValue) (writes : ∀ env, Writes (lineTree line) value env (change env)) :
    Confined P setup (update change) fun _ => True := by
  intro s values
  refine ensures_get ?_
  rcases writes s.env with ⟨key, name, fixed, written⟩ | ⟨problem, failed⟩
  · rw [written]
    exact ensures_modify ⟨trivial, holdsValues_put values isValue key name⟩
  · rw [failed]
    exact ensures_throw (.inr ⟨line, problem, inside, rfl⟩)

theorem keyOf_text (name : String) : Environment.keyOf (.text name) = .ok (.text name) :=
  rfl

/-- A declaration writes its value or fails at its line. -/
theorem confined_declare (inside : P line) (isValue : value.IsValue) :
    Confined P setup (update (·.declare (.text name) value fixed (lineTree line)))
      fun _ => True := by
  refine confined_update inside isValue fun env => ?_
  simp only [Environment.declare, keyOf_text, bind, Except.bind]
  split
  · exact .inr ⟨_, rfl⟩
  · exact .inl ⟨_, _, _, rfl⟩

/-- An assignment writes its value or fails at its line. -/
theorem confined_assign (inside : P line) (isValue : value.IsValue) :
    Confined P setup (update (·.assign (.text name) value (lineTree line))) fun _ => True := by
  refine confined_update inside isValue fun env => ?_
  simp only [Environment.assign, keyOf_text, bind, Except.bind]
  split
  · exact .inr ⟨_, rfl⟩
  · split
    · exact .inr ⟨_, rfl⟩
    · exact .inl ⟨_, _, _, rfl⟩

theorem confined_bind (inside : P line) (isValue : value.IsValue) :
    Confined P setup (update (·.bind (.text name) value (lineTree line))) fun _ => True := by
  refine confined_update inside isValue fun env => ?_
  simp only [Environment.bind, keyOf_text, bind, Except.bind]
  split
  · exact .inr ⟨_, rfl⟩
  · exact .inl ⟨_, _, _, rfl⟩

end Bindings

/-! ## Statements -/

/-- The line of a signal has a property. -/
def Flow.OnLines (P : Nat → Prop) : Flow → Prop
  | .done => True
  | .leave line | .next line => ∃ n, P n ∧ line = lineTree n

section Statements

open Execution

variable {P : Nat → Prop} {setup : Setup} {execute : Tree → Machine Flow} {room line : Nat}

/-- Every statement has a line, and it is one of those that its tree mentions. -/
theorem exists_line_of_stmt {stmt : Stmt} (lines : stmt.OnLines P) :
    ∃ n, P n ∧ stmt.toTree.line? = some (lineTree n) := by
  cases stmt with
  | choose branches last line =>
    refine ⟨line, (Stmt.onLines_choose.1 lines).1, ?_⟩
    cases last <;> rfl
  | ask name line | leave line | next line => exact ⟨line, lines, rfl⟩
  | declare _ _ _ line | assign _ _ line | say _ line | display _ line => exact ⟨line, lines.1, rfl⟩
  | range _ _ _ _ line | whilst _ _ line => exact ⟨line, lines.1, rfl⟩

/-- Statements that are confined one by one are so in a row. -/
theorem confined_runAll {ss : List Stmt} (lines : ∀ stmt ∈ ss, stmt.OnLines P)
    (each : ∀ stmt ∈ ss, Confined P setup (execute stmt.toTree) (Flow.OnLines P)) :
    Confined P setup (runAll execute (Stmt.toTrees ss)) (Flow.OnLines P) := by
  induction ss with
  | nil => exact confined_pure trivial
  | cons stmt ss ih =>
    rw [List.forall_mem_cons] at lines each
    obtain ⟨n, inside, line⟩ := exists_line_of_stmt lines.1
    rw [Stmt.toTrees, runAll, line]
    refine (confined_need rfl).bind fun t same => ?_
    subst same
    refine (confined_checkpoint inside).bind fun _ _ => each.1.bind fun flow flowLines => ?_
    split
    · exact ih lines.2 each.2
    · exact confined_pure flowLines

/-- A block is confined if its statements are. -/
theorem confined_runBlock {ss : List Stmt} (lines : ∀ stmt ∈ ss, stmt.OnLines P)
    (each : ∀ stmt ∈ ss, Confined P setup (execute stmt.toTree) (Flow.OnLines P)) :
    Confined P setup (runBlock execute (.block (.list (Stmt.toTrees ss)))) (Flow.OnLines P) := by
  refine (confined_need rfl).bind fun t same => ?_
  subst same
  refine (confined_need rfl).bind fun ts same => ?_
  subst same
  exact confined_runAll lines each

/-- A choice is confined if its tests, its branches and its last alternative are. -/
theorem confined_runBranches {holds : Tree → Machine Bool} {otherwise : Machine Flow}
    {bs : List Branch} (lines : ∀ b ∈ bs, b.OnLines P)
    (test : ∀ e : Expr, e.OnLines P → Confined P setup (holds e.toTree) fun _ => True)
    (each : ∀ stmt : Stmt, stmt.OnLines P →
      Confined P setup (execute stmt.toTree) (Flow.OnLines P))
    (last : Confined P setup otherwise (Flow.OnLines P)) :
    Confined P setup (runBranches execute holds otherwise (Branch.toTrees bs))
      (Flow.OnLines P) := by
  induction bs with
  | nil => exact last
  | cons b bs ih =>
    rw [List.forall_mem_cons] at lines
    obtain ⟨condition, body, line⟩ := b
    obtain ⟨_, conditionLines, bodyLines⟩ := lines.1
    rw [Stmt.allOnLines_iff] at bodyLines
    refine (test condition conditionLines).bind fun taken _ => ?_
    split
    · refine confined_trace.bind fun _ _ => ?_
      exact confined_runBlock bodyLines fun stmt member => each stmt (bodyLines stmt member)
    · exact ih lines.2

/-- A loop is confined if its test and its round are; the induction is on the patience. -/
theorem confined_whileLoop {test : Machine Bool} {round : Machine Flow}
    (tests : Confined P setup test fun _ => True)
    (rounds : Confined P setup round (Flow.OnLines P)) (patience : Nat) :
    Confined P setup (whileLoop test round patience) fun _ => True := by
  induction patience with
  | zero => exact confined_endless
  | succ patience ih =>
    refine tests.bind fun holds _ => ?_
    split
    · refine rounds.bind fun flow _ => ?_
      split
      · exact confined_pure trivial
      · exact ih
    · exact confined_pure trivial

/-- A range loop is confined if its rounds are, whatever its counter has come to. -/
theorem confined_rangeLoop {round : Float → Machine Flow} {last : Float}
    (rounds : ∀ counter, Confined P setup (round counter) (Flow.OnLines P)) (patience : Nat)
    (counter : Float) : Confined P setup (rangeLoop round last patience counter) fun _ => True := by
  induction patience generalizing counter with
  | zero => exact confined_endless
  | succ patience ih =>
    rw [rangeLoop]
    split
    · refine (rounds counter).bind fun flow _ => ?_
      split
      · exact confined_pure trivial
      · exact ih _
    · exact confined_pure trivial

theorem confined_value {e : Expr} (inside : P line) (lines : e.OnLines P) :
    Confined P setup (inspect (lineTree line) (evaluate · room e.toTree)) Tree.IsValue :=
  confined_inspect inside fun _ values => evaluates_evaluate values room e lines

theorem confined_condition {e : Expr} (inside : P line) (lines : e.OnLines P) :
    Confined P setup (inspect (lineTree line) (evaluateCondition · room e.toTree)) fun _ => True :=
  confined_inspect inside fun _ values => gives_evaluateCondition values room lines

theorem isValue_answerOf (answer : String) : (answerOf answer).IsValue := by
  unfold answerOf
  split <;> exact trivial

/-- One statement keeps to values and mistakes, if the statements inside it do. -/
theorem confined_step (each : ∀ stmt : Stmt, stmt.OnLines P →
      Confined P setup (execute stmt.toTree) (Flow.OnLines P))
    {stmt : Stmt} (lines : stmt.OnLines P) :
    Confined P setup (step room execute stmt.toTree) (Flow.OnLines P) := by
  cases stmt with
  | declare name value fixed line =>
    refine (confined_value lines.1 lines.2).bind fun v isValue => ?_
    refine (confined_declare lines.1 isValue).bind fun _ _ => ?_
    exact confined_trace.bind fun _ _ => confined_pure trivial
  | assign name value line =>
    refine (confined_value lines.1 lines.2).bind fun v isValue => ?_
    refine (confined_assign lines.1 isValue).bind fun _ _ => ?_
    exact confined_trace.bind fun _ _ => confined_pure trivial
  | say value line | display value line =>
    refine (confined_value lines.1 lines.2).bind fun v _ => ?_
    exact confined_writeLine.bind fun _ _ => confined_pure trivial
  | ask name line =>
    have inside : P line := lines
    refine confined_readLine.bind fun answer _ => ?_
    cases answer with
    | none => exact (confined_checkpoint inside).bind fun _ _ => confined_problem inside
    | some answer =>
      refine (confined_bind inside (isValue_answerOf answer)).bind fun _ _ => ?_
      exact confined_trace.bind fun _ _ => confined_pure trivial
  | choose branches last line =>
    obtain ⟨inside, branchLines, lastLines⟩ := Stmt.onLines_choose.1 lines
    have tests (e : Expr) (eLines : e.OnLines P) : Confined P setup
        (inspect (lineTree line) (evaluateCondition · room e.toTree)) fun _ => True :=
      confined_condition inside eLines
    cases last with
    | none =>
      refine (confined_need rfl).bind fun bs same => ?_
      subst same
      exact confined_runBranches branchLines tests each (confined_pure trivial)
    | some body =>
      have bodyLines := lastLines body rfl
      refine (confined_need rfl).bind fun bs same => ?_
      subst same
      refine confined_runBranches branchLines tests each (confined_trace.bind fun _ _ => ?_)
      exact confined_runBlock bodyLines fun stmt member => each stmt (bodyLines stmt member)
  | range name first last body line =>
    obtain ⟨inside, firstLines, lastLines, bodyLines⟩ := lines
    rw [Stmt.allOnLines_iff] at bodyLines
    have round (counter : Float) : Confined P setup (do
        checkpoint (lineTree line)
        update (·.bind (.text name) (.number counter) (lineTree line))
        traceStep (lineTree line) fun _ =>
          "loop " ++ (Tree.text name).plain ++ " = " ++ Number.display counter
        runBlock execute (.block (.list (Stmt.toTrees body)))) (Flow.OnLines P) := by
      have isValue : (Tree.number counter).IsValue := trivial
      refine (confined_checkpoint inside).bind fun _ _ => ?_
      refine (confined_bind inside isValue).bind fun _ _ => confined_trace.bind fun _ _ => ?_
      exact confined_runBlock bodyLines fun stmt member => each stmt (bodyLines stmt member)
    refine (confined_value inside firstLines).bind fun start _ => ?_
    refine (confined_value inside lastLines).bind fun stop _ => ?_
    split
    · refine confined_read ((confined_rangeLoop round setup.patience _).bind fun _ _ => ?_)
      exact confined_pure trivial
    · exact confined_problem inside
  | whilst condition body line =>
    obtain ⟨inside, conditionLines, bodyLines⟩ := lines
    rw [Stmt.allOnLines_iff] at bodyLines
    have test : Confined P setup (do
        checkpoint (lineTree line)
        inspect (lineTree line) (evaluateCondition · room condition.toTree)) fun _ => True :=
      (confined_checkpoint inside).bind fun _ _ => confined_condition inside conditionLines
    have round : Confined P setup (do
        traceStep (lineTree line) fun _ => "repeat iteration"
        runBlock execute (.block (.list (Stmt.toTrees body)))) (Flow.OnLines P) :=
      confined_trace.bind fun _ _ =>
        confined_runBlock bodyLines fun stmt member => each stmt (bodyLines stmt member)
    refine confined_read ((confined_whileLoop test round setup.patience).bind fun _ _ => ?_)
    exact confined_pure trivial
  | leave line => exact confined_pure ⟨line, lines, rfl⟩
  | next line => exact confined_pure ⟨line, lines, rfl⟩

/-- A statement whose lines have the property fails on such a line, if at all. -/
theorem confined_execute (room : Nat) {stmt : Stmt} (lines : stmt.OnLines P) :
    Confined P setup (Execution.execute room stmt.toTree) (Flow.OnLines P) := by
  induction room generalizing stmt with
  | zero =>
    obtain ⟨n, inside, line⟩ := exists_line_of_stmt lines
    rw [Execution.execute, line]
    exact confined_problem inside
  | succ room ih => exact confined_step (fun _ => ih) lines

/-- A program whose lines have the property fails on such a line, if at all. -/
theorem confined_runProgram {ss : List Stmt} (lines : ∀ stmt ∈ ss, stmt.OnLines P) :
    Confined P setup (runProgram (Stmt.toTrees ss)) fun _ => True := by
  have whole : Confined P setup (runAll (Execution.execute setup.room) (Stmt.toTrees ss))
      (Flow.OnLines P) :=
    confined_runAll lines fun stmt member => confined_execute setup.room (lines stmt member)
  refine confined_read (whole.bind fun flow flowLines => ?_)
  cases flow with
  | done => exact confined_pure trivial
  | leave line =>
    obtain ⟨n, inside, rfl⟩ := flowLines
    exact confined_problem inside
  | next line =>
    obtain ⟨n, inside, rfl⟩ := flowLines
    exact confined_problem inside

end Statements

/-! ## Sources -/

theorem FrontEnd.located_parse (frontEnd : FrontEnd) (source : String) :
    Located source (frontEnd.parse source) := by
  cases frontEnd with
  | descent => exact Descent.located_parse source
  | contextual => exact Contextual.located_parse source

/-- A run of a program from an environment of values does not end, or ends with a problem on one of
the program's lines, if it fails at all. -/
theorem failure_run {P : Nat → Prop} {session : Session} {p : Program}
    (values : session.state.env.HoldsValues) (lines : ∀ stmt ∈ p.body, stmt.OnLines P)
    {failure : Failure} (failed : (session.run p.toTree).2.failure = some failure) :
    failure = .endless ∨ failure.IsProblem P := by
  have confined : Confined P session.setup (Execution.runProgram (Stmt.toTrees p.body))
      fun _ => True :=
    confined_runProgram lines
  have outcome := confined { session.state with trace := #[] } values
  unfold Ensures at outcome
  have top : p.toTree.topLevel = .ok (Stmt.toTrees p.body) := rfl
  obtain ⟨s', trace, _, ⟨_, unfailed⟩ | ⟨failure', run, failed'⟩⟩ :=
    runTraced_cases session.setup session.state (Stmt.toTrees p.body)
  · cases failed.symm.trans ((Session.run_of_topLevel session top).2.trans unfailed)
  · cases failed.symm.trans ((Session.run_of_topLevel session top).2.trans failed')
    rw [run] at outcome
    exact outcome

/-- The run of a source, if it ends, ends well or with one mistake, at a line of the source: none of
the faults that loose trees can lead to comes up in it. -/
theorem runSource_located (frontEnd : FrontEnd) (setup : Setup) (input : Input) (source : String)
    (ends : (runSource frontEnd setup input source).failure ≠ some .endless) :
    let result := runSource frontEnd setup input source
    (∀ failure, result.failure = some failure →
      ∃ line problem, failure = .problem line problem ∧
        result.mistake = some (.runtime line problem)) ∧
    ∀ mistake, result.mistake = some mistake →
      ∃ n, mistake.line = lineTree n ∧ 1 ≤ n ∧ n ≤ 1 + source.toList.count '\n' := by
  intro result
  have located := frontEnd.located_parse source
  cases parsed : frontEnd.parse source with
  | error mistake =>
    have rejected : result = ⟨[], some mistake, none, 0, none⟩ := by
      simp only [result, runSource, parsed]
    rw [parsed] at located
    rw [rejected]
    refine ⟨nofun, fun m same => ?_⟩
    cases same
    exact located
  | ok p =>
    rw [parsed] at located
    have fresh : (⟨setup, { input }, #[], true⟩ : Session).state.env.HoldsValues := nofun
    have failures {failure : Failure} (failed : result.failure = some failure) :
        failure.IsProblem (LineOf source) := by
      have failed' := failed
      simp only [result, runSource, parsed] at failed'
      rcases failure_run fresh located failed' with rfl | problem
      · exact absurd failed ends
      · exact problem
    have reported : result.mistake = result.failure.bind Failure.mistake? := by
      simp only [result, runSource, parsed]
    refine ⟨fun failure failed => ?_, fun mistake same => ?_⟩
    · obtain ⟨n, problem, inside, rfl⟩ := failures failed
      refine ⟨lineTree n, problem, rfl, ?_⟩
      rw [reported, failed]
      rfl
    · rw [reported] at same
      obtain ⟨failure, failed, found⟩ := Option.bind_eq_some_iff.1 same
      obtain ⟨n, problem, inside, rfl⟩ := failures failed
      cases found
      exact ⟨n, rfl, inside⟩

/-- A name that is not bound, on the last of two lines. -/
theorem runSource_undefined_on_last_line :
    (runSource .contextual {} .closed "say \"a\"\nsay x").mistake =
      some (.runtime (lineTree 2) (.undefinedName "x")) := by
  have failed : (runSource .contextual {} .closed "say \"a\"\nsay x").failure =
      some (.problem (lineTree 2) (.undefinedName "x")) := by cbv
  have ends : (runSource .contextual {} .closed "say \"a\"\nsay x").failure ≠ some .endless := by
    rw [failed]
    exact fun same => Failure.noConfusion (Option.some.inj same)
  obtain ⟨line, problem, same, reported⟩ :=
    (runSource_located .contextual {} .closed "say \"a\"\nsay x" ends).1 _ failed
  cases same
  exact reported

end Parlance
