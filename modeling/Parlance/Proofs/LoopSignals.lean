import Mathlib
import Parlance.Proofs.PlainFailures

/-!
# Signals stay in their loop

A `break` or `continue` that no loop body holds is a stray (`Program.strays`).  Executing a
statement sends no signals but its strays, and a loop has none: it takes the signals of its body.
What is left at the top of a program is reported, so a run reports strays only, each at its own
line.
-/

namespace Parlance

/-! ## Strays -/

mutual

/-- The signals of the `break` and `continue` statements that stand in no loop inside a
statement. -/
def Stmt.strays : Stmt → List Flow
  | .leave line => [.leave (lineTree line)]
  | .next line => [.next (lineTree line)]
  | .choose branches none _ => Branch.allStrays branches
  | .choose branches (some body) _ => Branch.allStrays branches ++ Stmt.allStrays body
  | .range .. | .whilst .. => []
  | .declare .. | .assign .. | .say .. | .display .. | .ask .. => []

/-- The strays of a branch. -/
def Branch.strays : Branch → List Flow
  | .mk _ body _ => Stmt.allStrays body

/-- The strays of some statements. -/
def Stmt.allStrays : List Stmt → List Flow
  | [] => []
  | s :: ss => s.strays ++ Stmt.allStrays ss

/-- The strays of some branches. -/
def Branch.allStrays : List Branch → List Flow
  | [] => []
  | b :: bs => b.strays ++ Branch.allStrays bs

end

/-- The signals of the `break` and `continue` statements of a program that stand in no loop. -/
def Program.strays (p : Program) : List Flow :=
  Stmt.allStrays p.body

/-- The statement is a loop. -/
def Stmt.IsLoop : Stmt → Prop
  | .range .. | .whilst .. => True
  | _ => False

/-- No signal at all, or one of the given ones. -/
def Flow.Among (signals : List Flow) (flow : Flow) : Prop :=
  flow = .done ∨ flow ∈ signals

theorem Flow.Among.mono {signals more : List Flow} (subset : signals ⊆ more) {flow : Flow}
    (among : flow.Among signals) : flow.Among more :=
  among.imp_right fun listed => subset listed

/-- The failure is a loop that was given up, or a plain one: it reports no signal. -/
def Failure.ReportsNoSignal (failure : Failure) : Prop :=
  failure = .endless ∨ failure.IsPlain

/-! ## Computations that report no signal -/

section Quiet

open Machine Execution

variable {α β : Type}

/-- The computation has results such that `ok` only, and reports no signal: from any state, under
any setup. -/
def Quiet (m : Machine α) (ok : α → Prop) : Prop :=
  ∀ (setup : Setup) (s : State),
    Ensures setup s m (fun value _ => ok value) fun failure _ => failure.ReportsNoSignal

variable {ok ok' : α → Prop} {m : Machine α}

theorem quiet_pure {value : α} (holds : ok value) : Quiet (pure value) ok :=
  fun _ _ => ensures_pure holds

theorem quiet_throw {failure : Failure} (plain : failure.IsPlain) : Quiet (throw failure) ok :=
  fun _ _ => ensures_throw (.inr plain)

theorem quiet_endless : Quiet (throw .endless) ok :=
  fun _ _ => ensures_throw (.inl rfl)

theorem Quiet.bind {after : β → Prop} {next : α → Machine β} (first : Quiet m ok)
    (onward : ∀ a, ok a → Quiet (next a) after) : Quiet (m >>= next) after :=
  fun setup s => (first setup s).bind fun a s' holds => onward a holds setup s'

theorem Quiet.mono (quiet : Quiet m ok) (weaker : ∀ a, ok a → ok' a) : Quiet m ok' :=
  fun setup s => (quiet setup s).mono (fun a _ => weaker a) fun _ _ => id

theorem quiet_get {next : State → Machine α} (onward : ∀ s, Quiet (next s) ok) :
    Quiet (get >>= next) ok :=
  fun setup s => ensures_get (onward s setup s)

theorem quiet_read {next : Setup → Machine α} (onward : ∀ setup, Quiet (next setup) ok) :
    Quiet (read >>= next) ok :=
  fun setup s => ensures_read (onward setup setup s)

theorem quiet_modify {change : State → State} : Quiet (modify change) fun _ => True :=
  fun _ _ => ensures_modify trivial

theorem quiet_poll : Quiet poll fun _ => True := by
  refine quiet_read fun setup => ?_
  split
  · exact quiet_pure trivial
  · exact quiet_get fun s => quiet_modify.bind fun _ _ => quiet_pure trivial

theorem quiet_checkpoint {line : Tree} : Quiet (checkpoint line) fun _ => True := by
  refine quiet_poll.bind fun isSet _ => ?_
  split
  · exact quiet_throw trivial
  · exact quiet_pure trivial

/-- Waiting for the signal reports no stray signal. -/
theorem quiet_awaitSignal {atLast : Machine Unit} (last : Quiet atLast fun _ => True)
    (bound : Nat) : Quiet (awaitSignal atLast bound) fun _ => True := by
  induction bound with
  | zero => exact last
  | succ bound ih =>
    refine quiet_poll.bind fun isSet _ => ?_
    split
    · exact quiet_pure trivial
    · exact ih

/-- Reading a line reports no stray signal. -/
theorem quiet_readLine : Quiet readLine fun _ => True := by
  refine quiet_get fun s => ?_
  split
  · exact quiet_pure trivial
  · exact quiet_pure trivial
  · exact quiet_modify.bind fun _ _ => quiet_pure trivial
  · exact quiet_modify.bind fun _ _ => quiet_pure trivial
  · refine quiet_read fun setup => ?_
    split
    · exact quiet_read fun _ =>
        (quiet_awaitSignal (quiet_pure trivial) _).bind fun _ _ => quiet_pure trivial
    · exact quiet_read fun _ =>
        (quiet_awaitSignal quiet_endless _).bind fun _ _ => quiet_pure trivial

theorem quiet_trace {level : Nat} {text : Unit → String} :
    Quiet (trace level text) fun _ => True := by
  refine quiet_read fun setup => ?_
  split
  · exact quiet_modify
  · exact quiet_pure trivial

theorem quiet_need {part : Option α} {fault : Fault} : Quiet (need part fault) fun _ => True := by
  cases part with
  | some found => exact quiet_pure trivial
  | none => exact quiet_throw trivial

theorem quiet_inspect {line : Tree} {look : Environment → Except Failure α}
    (plain : ∀ env, Plain (look env)) : Quiet (inspect line look) fun _ => True := by
  refine quiet_get fun s => ?_
  have given := plain s.env
  split
  · exact quiet_pure trivial
  · next failure found =>
    rw [found] at given
    exact quiet_throw (given.at line)

/-- Changing the environment reports no stray signal. -/
theorem quiet_update {change : Environment → Except Failure Environment}
    (plain : ∀ env, Plain (change env)) : Quiet (update change) fun _ => True := by
  refine quiet_get fun s => ?_
  have given := plain s.env
  split
  · exact quiet_modify
  · next failure found =>
    rw [found] at given
    exact quiet_throw given

theorem quiet_value {line t : Tree} {room : Nat} :
    Quiet (inspect line (evaluate · room t)) fun _ => True :=
  quiet_inspect fun env => plain_evaluate env room t

theorem quiet_condition {line t : Tree} {room : Nat} :
    Quiet (inspect line (evaluateCondition · room t)) fun _ => True :=
  quiet_inspect fun env => plain_evaluateCondition env room t

/-! ## Statements -/

variable {execute : Tree → Machine Flow} {room : Nat}

/-- Statements in a row let out no signals but their own strays. -/
theorem quiet_runAll {ss : List Stmt}
    (each : ∀ stmt ∈ ss, Quiet (execute stmt.toTree) (Flow.Among stmt.strays)) :
    Quiet (runAll execute (Stmt.toTrees ss)) (Flow.Among (Stmt.allStrays ss)) := by
  induction ss with
  | nil => exact quiet_pure (.inl rfl)
  | cons stmt ss ih =>
    rw [List.forall_mem_cons] at each
    rw [Stmt.toTrees, runAll, Stmt.allStrays]
    refine quiet_need.bind fun line _ => quiet_checkpoint.bind fun _ _ => ?_
    refine each.1.bind fun flow among => ?_
    split
    · exact (ih each.2).mono fun _ => .mono (List.subset_append_right _ _)
    · exact quiet_pure (among.mono (List.subset_append_left _ _))

theorem quiet_runBlock {ss : List Stmt}
    (each : ∀ stmt ∈ ss, Quiet (execute stmt.toTree) (Flow.Among stmt.strays)) :
    Quiet (runBlock execute (.block (.list (Stmt.toTrees ss)))) (Flow.Among (Stmt.allStrays ss)) :=
  quiet_runAll each

/-- A choice lets out no signals but the strays of its branches and of its last alternative. -/
theorem quiet_runBranches {signals : List Flow} {holds : Tree → Machine Bool}
    (tests : ∀ t, Quiet (holds t) fun _ => True) {otherwise : Machine Flow}
    (last : Quiet otherwise (Flow.Among signals)) {bs : List Branch}
    (each : ∀ stmt : Stmt, Quiet (execute stmt.toTree) (Flow.Among stmt.strays)) :
    Quiet (runBranches execute holds otherwise (Branch.toTrees bs))
      (Flow.Among (Branch.allStrays bs ++ signals)) := by
  induction bs with
  | nil => exact last
  | cons b bs ih =>
    obtain ⟨condition, body, line⟩ := b
    rw [Branch.allStrays, List.append_assoc]
    refine (tests condition.toTree).bind fun taken _ => ?_
    split
    · refine quiet_trace.bind fun _ _ => ?_
      exact (quiet_runBlock fun stmt _ => each stmt).mono
        fun _ => .mono (List.subset_append_left _ _)
    · exact ih.mono fun _ => .mono (List.subset_append_right _ _)

/-- A loop takes whatever signals its rounds send. -/
theorem quiet_whileLoop {test : Machine Bool} {round : Machine Flow} {ok : Flow → Prop}
    (tests : Quiet test fun _ => True) (rounds : Quiet round ok) (patience : Nat) :
    Quiet (whileLoop test round patience) fun _ => True := by
  induction patience with
  | zero => exact quiet_endless
  | succ patience ih =>
    refine tests.bind fun holds _ => ?_
    split
    · refine rounds.bind fun flow _ => ?_
      split
      · exact quiet_pure trivial
      · exact ih
    · exact quiet_pure trivial

/-- A range loop takes the signals of its rounds and lets none of them out. -/
theorem quiet_rangeLoop {round : Float → Machine Flow} {last : Float} {ok : Flow → Prop}
    (rounds : ∀ counter, Quiet (round counter) ok) (patience : Nat) (counter : Float) :
    Quiet (rangeLoop round last patience counter) fun _ => True := by
  induction patience generalizing counter with
  | zero => exact quiet_endless
  | succ patience ih =>
    rw [rangeLoop]
    split
    · refine (rounds counter).bind fun flow _ => ?_
      split
      · exact quiet_pure trivial
      · exact ih _
    · exact quiet_pure trivial

/-- A statement sends no signals but its strays, if the statements inside it do so. -/
theorem quiet_step (each : ∀ stmt : Stmt, Quiet (execute stmt.toTree) (Flow.Among stmt.strays))
    (stmt : Stmt) : Quiet (step room execute stmt.toTree) (Flow.Among stmt.strays) := by
  have done : Quiet (pure Flow.done) (Flow.Among stmt.strays) := quiet_pure (.inl rfl)
  cases stmt with
  | declare name value fixed line =>
    refine quiet_value.bind fun v _ => ?_
    refine (quiet_update fun env => plain_declare env _ v _ _).bind fun _ _ => ?_
    exact quiet_trace.bind fun _ _ => done
  | assign name value line =>
    refine quiet_value.bind fun v _ => ?_
    refine (quiet_update fun env => plain_assign env _ v _).bind fun _ _ => ?_
    exact quiet_trace.bind fun _ _ => done
  | say value line | display value line =>
    exact quiet_value.bind fun v _ => quiet_modify.bind fun _ _ => done
  | ask name line =>
    refine quiet_readLine.bind fun answer _ => ?_
    cases answer with
    | none => exact quiet_checkpoint.bind fun _ _ => quiet_throw trivial
    | some answer =>
      refine (quiet_update fun env => plain_bind env _ (answerOf answer) _).bind fun _ _ => ?_
      exact quiet_trace.bind fun _ _ => done
  | choose branches last line =>
    cases last with
    | none =>
      have ends : Quiet (pure Flow.done) (Flow.Among []) := quiet_pure (.inl rfl)
      rw [Stmt.strays, ← List.append_nil (Branch.allStrays branches)]
      exact quiet_runBranches (fun _ => quiet_condition) ends each
    | some body =>
      exact quiet_runBranches (fun _ => quiet_condition)
        (quiet_trace.bind fun _ _ => quiet_runBlock fun stmt _ => each stmt) each
  | range name first last body line =>
    refine quiet_value.bind fun start _ => quiet_value.bind fun stop _ => ?_
    split
    · refine quiet_read fun setup => ?_
      refine (quiet_rangeLoop (fun counter => (?_ : Quiet _ (Flow.Among (Stmt.allStrays body))))
        setup.patience _).bind fun _ _ => done
      refine quiet_checkpoint.bind fun _ _ => ?_
      refine (quiet_update fun env => plain_bind env _ (.number counter) _).bind fun _ _ => ?_
      exact quiet_trace.bind fun _ _ => quiet_runBlock fun stmt _ => each stmt
    · exact quiet_throw trivial
  | whilst condition body line =>
    refine quiet_read fun setup => ?_
    refine (quiet_whileLoop ?_ (?_ : Quiet _ (Flow.Among (Stmt.allStrays body)))
      setup.patience).bind fun _ _ => done
    · exact quiet_checkpoint.bind fun _ _ => quiet_condition
    · exact quiet_trace.bind fun _ _ => quiet_runBlock fun stmt _ => each stmt
  | leave line | next line => exact quiet_pure (.inr List.mem_cons_self)

theorem quiet_execute (room : Nat) (stmt : Stmt) :
    Quiet (Execution.execute room stmt.toTree) (Flow.Among stmt.strays) := by
  induction room generalizing stmt with
  | zero => exact quiet_throw trivial
  | succ room ih => exact quiet_step ih stmt

/-- The failure reports no signal, or one of the given ones. -/
def Failure.ReportsAmong (signals : List Flow) (failure : Failure) : Prop :=
  failure.ReportsNoSignal ∨
    ∃ line, failure = .problem line .leaveOutsideLoop ∧ .leave line ∈ signals ∨
      failure = .problem line .nextOutsideLoop ∧ .next line ∈ signals

/-- Only strays are reported. -/
theorem ensures_runProgram (setup : Setup) (s : State) (ss : List Stmt) :
    Ensures setup s (runProgram (Stmt.toTrees ss)) (fun _ _ => True)
      fun failure _ => failure.ReportsAmong (Stmt.allStrays ss) := by
  refine ensures_read ?_
  have whole := quiet_runAll (fun stmt (_ : stmt ∈ ss) => quiet_execute setup.room stmt) setup s
  refine (whole.mono (fun _ _ => id) fun _ _ => .inl).bind fun flow s' among => ?_
  cases flow with
  | done => exact ensures_pure trivial
  | leave line =>
    rcases among with same | listed
    · cases same
    · exact ensures_throw (.inr ⟨line, .inl ⟨rfl, listed⟩⟩)
  | next line =>
    rcases among with same | listed
    · cases same
    · exact ensures_throw (.inr ⟨line, .inr ⟨rfl, listed⟩⟩)

end Quiet

/-! ## Sessions -/

/-- A stray `break` that is reported is one of the signals. -/
theorem Failure.ReportsAmong.leave {signals : List Flow} {line : Tree}
    (reports : (Failure.problem line .leaveOutsideLoop).ReportsAmong signals) :
    .leave line ∈ signals := by
  rcases reports with (same | plain) | ⟨line', ⟨same, listed⟩ | ⟨same, _⟩⟩
  · cases same
  · exact plain.elim
  · cases same
    exact listed
  · cases same

/-- A stray `continue` that is reported is one of the signals. -/
theorem Failure.ReportsAmong.next {signals : List Flow} {line : Tree}
    (reports : (Failure.problem line .nextOutsideLoop).ReportsAmong signals) :
    .next line ∈ signals := by
  rcases reports with (same | plain) | ⟨line', ⟨same, _⟩ | ⟨same, listed⟩⟩
  · cases same
  · exact plain.elim
  · cases same
  · cases same
    exact listed

/-- A run of a session reports no stray signals but those of the program. -/
theorem Session.reports_run (session : Session) {p : Program} {failure : Failure}
    (failed : (session.run p.toTree).2.failure = some failure) :
    failure.ReportsAmong p.strays := by
  have outcome := ensures_runProgram session.setup { session.state with trace := #[] } p.body
  unfold Machine.Ensures at outcome
  have top : p.toTree.topLevel = .ok (Stmt.toTrees p.body) := rfl
  rw [(Session.run_of_topLevel session top).2] at failed
  obtain ⟨s', trace, _, ⟨_, unfailed⟩ | ⟨failure', run, failed'⟩⟩ :=
    runTraced_cases session.setup session.state (Stmt.toTrees p.body)
  · cases unfailed.symm.trans failed
  · cases failed'.symm.trans failed
    rw [run] at outcome
    exact outcome

/-- A loop sends no signal to the statements around it.  A run reports a `break` or a `continue`
only at the line of one that stands in no loop, and a program without such statements never ends
with a report of either. -/
theorem Session.signals_stay_in_loops (session : Session) (p : Program) :
    (∀ loop : Stmt, loop.IsLoop → ∀ room setup s flow s',
      Execution.execute room loop.toTree setup s = .ok flow s' → flow = .done) ∧
    (∀ line, (session.run p.toTree).2.failure = some (.problem line .leaveOutsideLoop) →
      .leave line ∈ p.strays) ∧
    (∀ line, (session.run p.toTree).2.failure = some (.problem line .nextOutsideLoop) →
      .next line ∈ p.strays) ∧
    (p.strays = [] → ∀ line,
      (session.run p.toTree).2.failure ≠ some (.problem line .leaveOutsideLoop) ∧
      (session.run p.toTree).2.failure ≠ some (.problem line .nextOutsideLoop)) := by
  refine ⟨?_, fun line failed => (session.reports_run failed).leave,
    fun line failed => (session.reports_run failed).next, fun none line => ⟨?_, ?_⟩⟩
  · intro loop isLoop room setup s flow s' ran
    have quiet := quiet_execute room loop setup s
    unfold Machine.Ensures at quiet
    rw [ran] at quiet
    rcases quiet with done | listed
    · exact done
    · cases loop with
      | range | whilst => cases listed
      | _ => exact isLoop.elim
  · intro failed
    have listed := (session.reports_run failed).leave
    rw [none] at listed
    cases listed
  · intro failed
    have listed := (session.reports_run failed).next
    rw [none] at listed
    cases listed

/-- The first `break` is in a loop and the second, on the third line, in none. -/
theorem stray_leave_after_loop :
    let session : Session := { setup := {}, state := {} }
    let p : Program :=
      ⟨[.whilst (.flag true 1) [.leave 1] 1, .choose [.mk (.flag true 2) [.leave 3] 2] none 2]⟩
    (session.run p.toTree).2.failure = some (.problem (lineTree 3) .leaveOutsideLoop) ∧
      Flow.leave (lineTree 3) ∈ p.strays := by
  intro session p
  have failed :
      (session.run p.toTree).2.failure = some (.problem (lineTree 3) .leaveOutsideLoop) := by
    cbv
  exact ⟨failed, (Session.signals_stay_in_loops session p).2.1 _ failed⟩

end Parlance
