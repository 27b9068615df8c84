import Mathlib
import Parlance.Proofs.DescentShift
import Parlance.Proofs.Lockstep

/-!
# Sources that run one after the other

A program does the same wherever it stands.  Moved down, it runs in lockstep with itself, and its
problems are reported so many lines further down.  Statements that are followed by others run as
they do alone, and the others go on from where they end.  So the program of two sources under one
another runs as the first one and then the second one do.
-/

namespace Parlance

/-- The failure so many lines further down. -/
def Failure.moved (k : Nat) : Failure → Failure
  | .problem (.int line) cause => .problem (.int (line + k)) cause
  | other => other

namespace Pairing

/-- The lines of a source stand for those so many lines further down. -/
def Moves (P : Pairing) (k : Nat) : Prop :=
  ∀ n, P.lines (lineTree n) (lineTree (n + k))

/-! ## Operators and functions -/

section Operators

variable {P : Pairing} {line line' : Tree}

theorem results_problem {α : Type} (lines : P.lines line line') (problem : Problem) :
    P.Results (.error (.problem line problem) : Except Failure α)
      (.error (.problem line' problem)) :=
  .error (.problem lines problem)

theorem results_atLine (lines : P.lines line line') (result : Except Problem Tree) :
    P.Results (atLine line result) (atLine line' result) := by
  cases result with
  | ok value => exact .ok value
  | error problem => exact results_problem lines problem

theorem results_compareSame (lines : P.lines line line') (wanted : Bool) (a b : Tree) :
    P.Results (compareSame wanted line a b) (compareSame wanted line' a b) := by
  unfold compareSame
  split
  · exact .ok _
  · exact results_problem lines _

/-- Comparisons give the same at another line, or fail with the same problem there. -/
theorem results_compareBy (lines : P.lines line line') (holds : Ordering → Bool) (a b : Tree) :
    P.Results (compareBy holds line a b) (compareBy holds line' a b) := by
  unfold compareBy
  split
  · split
    · exact .ok _
    · exact .ok _
    · exact .error (.fault _)
  · exact results_problem lines _

/-- Operators with two operands give the same at another line, or fail alike. -/
theorem results_applyBinary (lines : P.lines line line') (op : BinaryOp) (a b : Tree) :
    P.Results (applyBinary (.text op.symbol) line a b)
      (applyBinary (.text op.symbol) line' a b) := by
  simp only [applyBinary, BinaryOp.ofSymbol?_symbol]
  cases op with
  | or | and => exact results_problem lines _
  | add | subtract | multiply | divide | remainder => exact results_atLine lines _
  | equal | unequal => exact results_compareSame lines _ a b
  | less | lessEqual | greater | greaterEqual => exact results_compareBy lines _ a b

theorem results_applyUnary (lines : P.lines line line') (op : UnaryOp) (operand : Tree) :
    P.Results (applyUnary (.text op.symbol) line operand)
      (applyUnary (.text op.symbol) line' operand) := by
  cases op with
  | negate | not =>
    simp only [applyUnary, UnaryOp.symbol]
    split
    · exact .ok _
    · exact results_problem lines _

/-- Builtins give the same at another line, or fail alike. -/
theorem results_callBuiltin (lines : P.lines line line') (name : String) (args : List Tree) :
    P.Results (callBuiltin (.text name) line args) (callBuiltin (.text name) line' args) := by
  simp only [callBuiltin]
  split
  · exact results_problem lines _
  · split
    · exact results_problem lines _
    · split
      · exact results_problem lines _
      · split
        · exact .ok _
        · exact results_problem lines _

/-! ## Names -/

variable {env : Environment} {name : Tree}

/-- What is done with a name is done with its key. -/
theorem results_keyOf {α : Type} {next next' : Key → Except Failure α}
    (onward : ∀ key, P.Results (next key) (next' key)) :
    P.Results (Environment.keyOf name >>= next) (Environment.keyOf name >>= next') := by
  unfold Environment.keyOf
  split
  · exact onward _
  · exact .error (.fault _)

theorem results_get (lines : P.lines line line') :
    P.Results (env.get name line) (env.get name line') := by
  refine results_keyOf fun key => ?_
  split
  · exact .ok _
  · exact results_problem lines _

theorem results_declare (lines : P.lines line line') (value fixed : Tree) :
    P.Results (env.declare name value fixed line) (env.declare name value fixed line') := by
  refine results_keyOf fun key => ?_
  split
  · exact results_problem lines _
  · exact .ok _

/-- An assignment at another line has the same effect, or fails alike. -/
theorem results_assign (lines : P.lines line line') (value : Tree) :
    P.Results (env.assign name value line) (env.assign name value line') := by
  refine results_keyOf fun key => ?_
  split
  · exact results_problem lines _
  · split
    · exact results_problem lines _
    · exact .ok _

theorem results_bind (lines : P.lines line line') (value : Tree) :
    P.Results (Environment.bind env name value line)
      (Environment.bind env name value line') := by
  refine results_keyOf fun key => ?_
  split
  · exact results_problem lines _
  · exact .ok _

end Operators

/-! ## Expressions -/

section Evaluate

variable {P : Pairing} {k : Nat} {α β : Type}

/-- Lists of computations have like results if their members have, pair by pair. -/
theorem results_mapM {f : α → Except Failure β} {as as' : List α}
    (each : List.Forall₂ (fun a a' => P.Results (f a) (f a')) as as') :
    P.Results (as.mapM f) (as'.mapM f) := by
  induction each with
  | nil => exact .ok _
  | cons first _ ih =>
    rw [List.mapM_cons, List.mapM_cons]
    exact first.bind fun b => ih.bind fun bs => .ok _

/-- Folds have like results if their steps have, pair by pair and from every start. -/
theorem results_foldlM {f : β → α → Except Failure β} {as as' : List α}
    (each : List.Forall₂ (fun a a' => ∀ b, P.Results (f b a) (f b a')) as as') (start : β) :
    P.Results (as.foldlM f start) (as'.foldlM f start) := by
  induction each generalizing start with
  | nil => exact .ok _
  | cons first _ ih =>
    rw [List.foldlM_cons, List.foldlM_cons]
    exact (first start).bind ih

/-- Links that come from one operator of a program, the second one further down. -/
def LinksMoved (k : Nat) (link link' : Link) : Prop :=
  ∃ (op : BinaryOp) (right : Expr) (line : Nat),
    link = ⟨.text op.symbol, right.toTree, lineTree line⟩ ∧
      link' = ⟨.text op.symbol, (right.moved k).toTree, lineTree (line + k)⟩

/-- The chain of an expression that has been moved down is its chain, moved down. -/
theorem exists_of_chainOnto_moved (e : Expr) {links links' : List Link}
    (each : List.Forall₂ (LinksMoved k) links links') :
    ∃ head : Expr, (e.toTree.chainOnto links).1 = head.toTree ∧
      ((e.moved k).toTree.chainOnto links').1 = (head.moved k).toTree ∧
      List.Forall₂ (LinksMoved k) (e.toTree.chainOnto links).2
        ((e.moved k).toTree.chainOnto links').2 := by
  cases e with
  | binary op left right line =>
    exact exists_of_chainOnto_moved left (.cons ⟨op, right, line, rfl, rfl⟩ each)
  | number | text | flag | name | unary | call => exact ⟨_, rfl, rfl, each⟩

/-- A link whose line has been moved is resumed alike. -/
theorem results_resume (moves : P.Moves k) {eval : Tree → Except Failure Tree}
    (evals : ∀ e : Expr, P.Results (eval e.toTree) (eval (e.moved k).toTree)) {link link' : Link}
    (moved : LinksMoved k link link') (left : Tree) :
    P.Results (link.resume eval left) (link'.resume eval left) := by
  obtain ⟨op, right, line, rfl, rfl⟩ := moved
  have lines := moves line
  have applied : P.Results
      (eval right.toTree >>= applyBinary (.text op.symbol) (lineTree line) left)
      (eval (right.moved k).toTree >>= applyBinary (.text op.symbol) (lineTree (line + k)) left) :=
    (evals right).bind fun v => results_applyBinary lines op left v
  -- `and` and `or` look at the value to their left before they evaluate anything.
  cases op with
  | and =>
    cases left with
    | flag b =>
      cases b with
      | true =>
        refine (evals right).bind fun v => ?_
        split
        · exact .ok _
        · exact results_problem lines _
      | false => exact .ok _
    | _ => exact results_problem lines _
  | or =>
    cases left with
    | flag b =>
      cases b with
      | true => exact .ok _
      | false =>
        refine (evals right).bind fun v => ?_
        split
        · exact .ok _
        · exact results_problem lines _
    | _ => exact results_problem lines _
  | _ => exact applied

theorem forall₂_toTrees_moved {R : Tree → Tree → Prop}
    (each : ∀ e : Expr, R e.toTree (e.moved k).toTree) (es : List Expr) :
    List.Forall₂ R (Expr.toTrees es) (Expr.toTrees (Expr.allMoved k es)) := by
  induction es with
  | nil => exact .nil
  | cons e es ih => exact .cons (each e) ih

/-- An expression has the same value wherever it stands, or a problem so many lines further
down. -/
theorem results_evaluate (moves : P.Moves k) (env : Environment) (room : Nat) (e : Expr) :
    P.Results (evaluate env room e.toTree) (evaluate env room (e.moved k).toTree) := by
  induction room generalizing e with
  | zero => exact .error .tooDeep
  | succ room ih =>
    cases e with
    | number | text | flag => exact .ok _
    | name name line => exact results_get (moves line)
    | unary op operand line =>
      exact (ih operand).bind fun v => results_applyUnary (moves line) op v
    | binary op left right line =>
      obtain ⟨head, same, same', links⟩ :=
        exists_of_chainOnto_moved (k := k) (.binary op left right line) .nil
      have heads := ih head
      rw [← same, ← same'] at heads
      exact heads.bind (results_foldlM (links.imp fun _ _ => results_resume moves ih))
    | call name args line =>
      have values := results_mapM (forall₂_toTrees_moved ih args)
      exact values.bind fun vs => results_callBuiltin (moves line) name vs

/-- A moved condition has the same value, or fails alike. -/
theorem results_evaluateCondition (moves : P.Moves k) (env : Environment) (room : Nat) (e : Expr) :
    P.Results (evaluateCondition env room e.toTree)
      (evaluateCondition env room (e.moved k).toTree) := by
  refine (results_evaluate moves env room e).bind fun v => ?_
  split
  · exact .ok _
  · have line (e : Expr) : e.toTree.line? = some (lineTree e.line) := by cases e <;> rfl
    simp only [line, Expr.line_moved]
    exact results_problem (moves e.line) _

end Evaluate

/-! ## Statements -/

section Statements

open Machine Execution

variable {P : Pairing} {k : Nat} {execute execute' : Tree → Machine Flow}

theorem exists_line_moved (k : Nat) (s : Stmt) :
    ∃ n, s.toTree.line? = some (lineTree n) ∧
      (s.moved k).toTree.line? = some (lineTree (n + k)) := by
  cases s with
  | choose branches last line => cases last <;> exact ⟨line, rfl, rfl⟩
  | _ => exact ⟨_, rfl, rfl⟩

/-- The trees of moved statements run alongside those of the statements themselves. -/
theorem alongside_moved (moves : P.Moves k)
    (each : ∀ s : Stmt, P.Lockstep P.Flows (execute s.toTree) (execute' (s.moved k).toTree))
    (ss : List Stmt) :
    List.Forall₂ (P.Alongside execute execute') (Stmt.toTrees ss)
      (Stmt.toTrees (Stmt.allMoved k ss)) := by
  induction ss with
  | nil => exact .nil
  | cons s ss ih =>
    refine .cons ⟨?_, each s⟩ ih
    obtain ⟨n, line, line'⟩ := exists_line_moved k s
    rw [line, line']
    exact .some (moves n)

/-- The statements of a block, as they stand in a tree. -/
theorem lockstep_block_moved (lawful : P.Lawful) (moves : P.Moves k)
    (each : ∀ s : Stmt, P.Lockstep P.Flows (execute s.toTree) (execute' (s.moved k).toTree))
    (ss : List Stmt) :
    P.Lockstep P.Flows (runBlock execute (.block (.list (Stmt.toTrees ss))))
      (runBlock execute' (.block (.list (Stmt.toTrees (Stmt.allMoved k ss))))) :=
  lockstep_runAll lawful.toSteady (alongside_moved moves each ss)

/-- Moved branches are tested and run in lockstep with the branches themselves. -/
theorem lockstep_branches_moved (lawful : P.Lawful) (moves : P.Moves k)
    (each : ∀ s : Stmt, P.Lockstep P.Flows (execute s.toTree) (execute' (s.moved k).toTree))
    {holds holds' : Tree → Machine Bool}
    (tests : ∀ e : Expr, P.Lockstep Eq (holds e.toTree) (holds' (e.moved k).toTree))
    {otherwise otherwise' : Machine Flow} (last : P.Lockstep P.Flows otherwise otherwise')
    (bs : List Branch) :
    P.Lockstep P.Flows (runBranches execute holds otherwise (Branch.toTrees bs))
      (runBranches execute' holds' otherwise' (Branch.toTrees (Branch.allMoved k bs))) := by
  induction bs with
  | nil => exact last
  | cons b bs ih =>
    obtain ⟨condition, body, line⟩ := b
    refine (tests condition).bind fun taken => ?_
    split
    · refine (lawful.step _ (moves line)).bind fun _ => ?_
      exact lockstep_block_moved lawful moves each body
    · exact ih

/-- A statement does the same wherever it stands, if the statements inside it do. -/
theorem lockstep_step_moved (lawful : P.Lawful) (reading : P.Reading) (moves : P.Moves k)
    {room : Nat}
    (each : ∀ s : Stmt, P.Lockstep P.Flows (execute s.toTree) (execute' (s.moved k).toTree))
    (s : Stmt) :
    P.Lockstep P.Flows (step room execute s.toTree) (step room execute' (s.moved k).toTree) := by
  have look (line : Nat) (e : Expr) :
      P.Lockstep Eq (inspect (lineTree line) (evaluate · room e.toTree))
        (inspect (lineTree (line + k)) (evaluate · room (e.moved k).toTree)) :=
    lockstep_inspect lawful (moves line) fun env => results_evaluate moves env room e
  have test (line : Nat) (e : Expr) :
      P.Lockstep Eq (inspect (lineTree line) (evaluateCondition · room e.toTree))
        (inspect (lineTree (line + k)) (evaluateCondition · room (e.moved k).toTree)) :=
    lockstep_inspect lawful (moves line) fun env => results_evaluateCondition moves env room e
  have block := lockstep_block_moved lawful moves each
  cases s with
  | declare name expr fixed line =>
    refine (look line expr).bind fun value => ?_
    refine (lockstep_update lawful fun env => results_declare (moves line) value _).bind fun _ => ?_
    exact (lawful.binding _ _ _).bind fun _ => lockstep_pure .done
  | assign name expr line =>
    refine (look line expr).bind fun value => ?_
    refine (lockstep_update lawful fun env => results_assign (moves line) value).bind fun _ => ?_
    exact (lawful.binding _ _ _).bind fun _ => lockstep_pure .done
  | say expr line | display expr line =>
    refine (look line expr).bind fun value => ?_
    exact (lockstep_writeLine lawful.toSteady _).bind fun _ => lockstep_pure .done
  | ask name line =>
    exact lockstep_ask lawful reading (moves line) fun env value => results_bind (moves line) value
  | choose branches otherwise line =>
    cases otherwise with
    | none =>
      exact lockstep_branches_moved lawful moves each (test line) (lockstep_pure .done) branches
    | some body =>
      refine lockstep_branches_moved lawful moves each (test line) ?_ branches
      exact (lawful.step _ (moves line)).bind fun _ => block body
  | range name first last body line =>
    refine (look line first).bind fun start => (look line last).bind fun stop => ?_
    split
    · refine lockstep_read ?_
      rw [lawful.patience]
      refine (lockstep_rangeLoop (fun counter => ?_) _ _).bind fun _ => lockstep_pure .done
      refine (lockstep_checkpoint lawful.toSteady (moves line)).bind fun _ => ?_
      refine (lockstep_update lawful fun env => results_bind (moves line) _).bind fun _ => ?_
      exact (lawful.step _ (moves line)).bind fun _ => block body
    · exact lockstep_throw (.problem (moves line) _)
  | whilst condition body line =>
    refine lockstep_read ?_
    rw [lawful.patience]
    refine (lockstep_whileLoop ?_ ?_ _).bind fun _ => lockstep_pure .done
    · exact (lockstep_checkpoint lawful.toSteady (moves line)).bind fun _ => test line condition
    · exact (lawful.step _ (moves line)).bind fun _ => block body
  | leave line => exact lockstep_pure (.leave (moves line))
  | next line => exact lockstep_pure (.next (moves line))

/-- A moved statement is executed in lockstep with the statement itself. -/
theorem lockstep_execute_moved (lawful : P.Lawful) (reading : P.Reading) (moves : P.Moves k)
    (room : Nat) (s : Stmt) :
    P.Lockstep P.Flows (Execution.execute room s.toTree)
      (Execution.execute room (s.moved k).toTree) := by
  induction room generalizing s with
  | zero =>
    obtain ⟨n, line, line'⟩ := exists_line_moved k s
    rw [Execution.execute, Execution.execute, line, line']
    exact lockstep_throw (.problem (moves n) _)
  | succ room ih => exact lockstep_step_moved lawful reading moves ih s

theorem lockstep_runProgram_moved (lawful : P.Lawful) (reading : P.Reading) (moves : P.Moves k)
    (room : P.left.room = P.right.room) (ss : List Stmt) :
    P.Lockstep Eq (runProgram (Stmt.toTrees ss))
      (runProgram (Stmt.toTrees (Stmt.allMoved k ss))) := by
  refine lockstep_runProgram lawful.toSteady ?_
  rw [room]
  exact alongside_moved moves (lockstep_execute_moved lawful reading moves _) ss

end Statements

end Pairing

/-! ## A program and its copy further down -/

/-- Two runs that differ in what they have told, the second one of a program that stands so many
lines further down. -/
def Setup.lower (setup : Setup) (k : Nat) : Pairing where
  left := setup
  right := setup
  lines := fun line line' => ∃ n : Nat, line = lineTree n ∧ line' = lineTree (n + k)
  states := fun s t => ∃ trace, t = { s with trace }
  short := fun _ _ _ _ => False
  onward := fun never _ _ => never

section Lower

open Machine Execution Pairing

variable {setup : Setup} {k : Nat}

theorem moves_lower : (setup.lower k).Moves k :=
  fun n => ⟨n, rfl, rfl⟩

theorem lockstep_trace_lower {level : Nat} {text text' : Unit → String} :
    (setup.lower k).Lockstep Eq (trace level text) (trace level text') := by
  refine lockstep_trace_of rfl ?_
  rintro s _ ⟨trace, rfl⟩
  exact ⟨_, rfl⟩

/-- Differing in the trace only, with every line of the problems further down, is a relation that two
runs can keep. -/
theorem lawful_lower : (setup.lower k).Lawful where
  signal := rfl
  patience := rfl
  env := by
    rintro s _ ⟨trace, rfl⟩
    rfl
  polls := by
    rintro s _ ⟨trace, rfl⟩
    rfl
  asked := by
    rintro s _ ⟨trace, rfl⟩
    exact ⟨trace, rfl⟩
  written := by
    rintro s _ line ⟨trace, rfl⟩
    exact ⟨trace, rfl⟩
  updated := by
    rintro s _ env ⟨trace, rfl⟩
    exact ⟨trace, rfl⟩
  step := fun _ _ => lockstep_trace_lower
  binding := fun _ _ _ => lockstep_trace_lower

/-- Both runs read the same input. -/
theorem reading_lower : (setup.lower k).Reading where
  timed := rfl
  renewals := rfl
  input := by
    rintro s _ ⟨trace, rfl⟩
    rfl
  consumed := by
    rintro s _ input ⟨trace, rfl⟩
    exact ⟨trace, rfl⟩

theorem failures_lower {failure failure' : Failure}
    (failures : (setup.lower k).Failures failure failure') : failure' = failure.moved k := by
  cases failures with
  | problem lines problem =>
    obtain ⟨n, rfl, rfl⟩ := lines
    rfl
  | fault | tooDeep | endless => rfl

/-- Statements end in the same way wherever they stand, but for the lines that a failure names. -/
theorem runProgram_moved (setup : Setup) (s : State) (trace : Array String) (k : Nat)
    (ss : List Stmt) :
    let upper := runProgram (Stmt.toTrees ss) setup s
    let lower := runProgram (Stmt.toTrees (Stmt.allMoved k ss)) setup { s with trace }
    (∃ trace', endState lower = { endState upper with trace := trace' }) ∧
      failureOf lower = (failureOf upper).map (Failure.moved k) := by
  intro upper lower
  have lockstep := lockstep_runProgram_moved (P := setup.lower k) lawful_lower reading_lower
    moves_lower rfl ss
  have paired : (setup.lower k).Paired Eq upper lower :=
    lockstep.paired s { s with trace } ⟨trace, rfl⟩
  generalize upper = x, lower = y at paired
  cases paired with
  | ok _ states => exact ⟨states, rfl⟩
  | error failures states => exact ⟨states, congrArg some (failures_lower failures)⟩
  | short never => exact never.elim

end Lower

/-! ## Statements after others -/

namespace Execution

/-- What comes after statements, unless they have sent a signal. -/
def andThen (next : Machine Flow) : Flow → Machine Flow
  | .done => next
  | signal => return signal

/-- Statements that follow others are run if those do not leave the block. -/
theorem runAll_append (execute : Tree → Machine Flow) (ts us : List Tree) :
    runAll execute (ts ++ us) = runAll execute ts >>= andThen (runAll execute us) := by
  induction ts with
  | nil => exact (pure_bind _ _).symm
  | cons t ts ih =>
    simp only [List.cons_append, runAll, bind_assoc]
    refine bind_congr fun line => bind_congr fun _ => bind_congr fun flow => ?_
    cases flow with
    | done => exact ih
    | leave line | next line => exact (pure_bind _ _).symm

theorem bind_of_eq {α β : Type} {m m' : Machine α} {setup : Setup} {s s' : State}
    (same : m setup s = m' setup s') (next : α → Machine β) :
    (m >>= next) setup s = (m' >>= next) setup s' := by
  simp only [Bind.bind, ReaderT.bind, EStateM.bind, same]

/-- Statements that come after others go on from where those have ended, and are not executed if
those have failed. -/
theorem runProgram_append_cases (setup : Setup) (s : State) (ts us : List Tree) :
    (∃ s', runProgram ts setup s = .ok () s' ∧
        runProgram (ts ++ us) setup s = runProgram us setup s') ∨
      ∃ failure s', runProgram ts setup s = .error failure s' ∧
        runProgram (ts ++ us) setup s = .error failure s' := by
  have whole := congrFun (congrFun (runAll_append (execute setup.room) ts us) setup) s
  cases run : runAll (execute setup.room) ts setup s with
  | ok flow s' =>
    rw [bind_of_ok run] at whole
    cases flow with
    | done => exact .inl ⟨s', bind_of_ok run, bind_of_eq whole _⟩
    -- A signal at the top is a failure, so it stops the whole as well.
    | leave line | next line => exact .inr ⟨_, s', bind_of_ok run, bind_of_ok whole⟩
  | error failure s' =>
    rw [bind_of_error run] at whole
    have looked : (read : Machine Setup) setup s = .ok setup s := rfl
    refine .inr ⟨failure, s', ?_, ?_⟩
    · exact (bind_of_ok looked).trans (bind_of_error run)
    · exact (bind_of_ok looked).trans (bind_of_error whole)

end Execution

/-! ## Sources -/

theorem Stmt.toTrees_append (ss ss' : List Stmt) :
    Stmt.toTrees (ss ++ ss') = Stmt.toTrees ss ++ Stmt.toTrees ss' := by
  simp only [Stmt.toTrees_eq_map, List.map_append]

theorem Session.setup_run (session : Session) (program : Tree) :
    (session.run program).1.setup = session.setup := by
  unfold Session.run
  split
  · rfl
  · dsimp only
    split <;> rfl

/-- How the run of a program ends. -/
theorem Session.run_program (session : Session) (p : Program) :
    let result := Execution.runProgram (Stmt.toTrees p.body) session.setup
      { session.state with trace := #[] }
    (∃ trace, (session.run p.toTree).1.state = { endState result with trace }) ∧
      (session.run p.toTree).2.failure = failureOf result := by
  intro result
  obtain ⟨state, failure⟩ := session.run_of_topLevel (show p.toTree.topLevel = .ok _ from rfl)
  obtain ⟨trace, same⟩ := exists_trace_runTraced session.setup session.state
    (Stmt.toTrees p.body)
  refine ⟨⟨trace, state.trans same⟩, failure.trans ?_⟩
  rw [runTraced_eq session.setup session.state _ rfl]

/-- A program whose statements are those of one program and then those of another, further down,
runs as the one and then the other do. -/
theorem Session.run_append (session : Session) (p q : Program) (k : Nat) :
    let one := session.run p.toTree
    let two := one.1.run q.toTree
    let both := session.run (Program.toTree ⟨p.body ++ (q.moved k).body⟩)
    (one.2.failure = none →
      both.1.state = { two.1.state with trace := both.1.state.trace } ∧
        both.2.failure = two.2.failure.map (Failure.moved k)) ∧
    ∀ failure, one.2.failure = some failure →
      both.1.state = { one.1.state with trace := both.1.state.trace } ∧
        both.2.failure = some failure := by
  intro one two both
  obtain ⟨⟨trace, oneState⟩, oneFailure⟩ := session.run_program p
  obtain ⟨⟨trace₂, twoState⟩, twoFailure⟩ := one.1.run_program q
  obtain ⟨⟨trace₃, bothState⟩, bothFailure⟩ := session.run_program ⟨p.body ++ (q.moved k).body⟩
  rw [show one.1.setup = session.setup from session.setup_run p.toTree] at twoState twoFailure
  dsimp only at bothState bothFailure
  rw [Stmt.toTrees_append] at bothState bothFailure
  rcases Execution.runProgram_append_cases session.setup { session.state with trace := #[] }
    (Stmt.toTrees p.body) (Stmt.toTrees (q.moved k).body) with
    ⟨s, ended, onward⟩ | ⟨failure, s, failed, stopped⟩
  · rw [ended] at oneState oneFailure
    rw [onward] at bothState bothFailure
    -- The second run starts with an empty trace, and in the whole with that of the first part.
    have start : s = { ({ one.1.state with trace := #[] } : State) with trace := s.trace } := by
      rw [show one.1.state = _ from oneState]
      rfl
    rw [start] at bothState bothFailure
    obtain ⟨⟨trace₄, lower⟩, failure⟩ := runProgram_moved session.setup
      { one.1.state with trace := #[] } s.trace k q.body
    refine ⟨fun _ => ⟨?_, ?_⟩, fun failure failed => ?_⟩
    · rw [show both.1.state = _ from bothState, show two.1.state = _ from twoState]
      exact congrArg (fun t : State => { t with trace := trace₃ }) lower
    · rw [show both.2.failure = _ from bothFailure, show two.2.failure = _ from twoFailure]
      exact failure
    · cases oneFailure.symm.trans failed
  · rw [failed] at oneState oneFailure
    rw [stopped] at bothState bothFailure
    refine ⟨fun unfailed => ?_, fun failure' failed' => ⟨?_, ?_⟩⟩
    · cases oneFailure.symm.trans unfailed
    · rw [show both.1.state = _ from bothState, show one.1.state = _ from oneState]
    · cases oneFailure.symm.trans failed'
      exact bothFailure

/-- Sources compose.  One source under another is read in the room in which both are: as the
statements of the first and those of the second, so many lines further down.  In any session the
whole then leaves behind what the first source and after it the second one do, apart from the trace:
the same names, output, input and questions to the cancel signal.  It fails as the first one does,
in the same state, and otherwise as the second one does, but for the lines. -/
theorem Session.sources_compose {room : Nat} {upper lower : String} {p q : Program}
    (first : Descent.parseWithin room upper = .ok p)
    (second : Descent.parseWithin room lower = .ok q) :
    let k := upper.toList.count '\n' + 1
    let whole : Program := ⟨p.body ++ (q.moved k).body⟩
    Descent.parseWithin room (upper ++ "\n" ++ lower) = .ok whole ∧
      ∀ session : Session,
        let one := session.run p.toTree
        let two := one.1.run q.toTree
        let both := session.run whole.toTree
        (one.2.failure = none →
          both.1.state = { two.1.state with trace := both.1.state.trace } ∧
            both.2.failure = two.2.failure.map (Failure.moved k)) ∧
        ∀ failure, one.2.failure = some failure →
          both.1.state = { one.1.state with trace := both.1.state.trace } ∧
            both.2.failure = some failure :=
  ⟨Descent.parseWithin_joined first second, fun session => session.run_append p q _⟩

/-- A source that ends in a comment, and one that reads a name which is not bound on its second
line: in the whole, that is the fourth. -/
theorem sources_compose_of_comment :
    let whole : Program := ⟨[.say (.text "a" 1) 1, .say (.name "x" 4) 4]⟩
    let session : Session := { setup := {}, state := {} }
    Descent.parse ("say \"a\"\n# say" ++ "\n" ++ "\nsay x") = .ok whole ∧
      (session.run whole.toTree).2.failure = some (.problem (lineTree 4) (.undefinedName "x")) ∧
      (session.run whole.toTree).1.state.output = #["a"] := by
  intro whole session
  have first : Descent.parse "say \"a\"\n# say" = .ok ⟨[.say (.text "a" 1) 1]⟩ := by cbv
  have second : Descent.parse "\nsay x" = .ok ⟨[.say (.name "x" 2) 2]⟩ := by cbv
  have composed := Session.sources_compose first second
  have lines : "say \"a\"\n# say".toList.count '\n' + 1 = 2 := by decide
  rw [lines] at composed
  obtain ⟨read, runs⟩ := composed
  obtain ⟨state, failure⟩ := (runs session).1 (by cbv)
  refine ⟨read, failure.trans ?_, ?_⟩
  · cbv
  · have output := congrArg State.output state
    refine output.trans ?_
    cbv

end Parlance
