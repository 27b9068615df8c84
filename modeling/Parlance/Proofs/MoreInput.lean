import Parlance.Proofs.Lockstep

/-!
# Runs with more input

A run that answers from lines is compared with the run that has more lines after them.  The two are
in lockstep until an `ask` finds that no line is left.  To say which one does, a program is also run
by a machine that stops at such an `ask`, closes the input and hands the statement out
(`runAnswered`); apart from that it does what the machine does.
-/

namespace Parlance

namespace Execution

open Machine

/-- What a run fails with that is stopped at an `ask` for which no line is left. -/
def unanswered (name line : Tree) : Failure :=
  .fault (.unexpectedStatement (.ask name line))

/-- Stops the run at an `ask` if no line is left for it. -/
def stopUnanswered (name line : Tree) : Machine Unit := do
  match (← get).input with
  | .lines [] =>
    modify fun s => { s with input := .closed }
    throw (unanswered name line)
  | _ => return

/-- Executes a statement up to an `ask` for which no line is left. -/
def executeAnswered : Nat → Tree → Machine Flow
  | 0, t => throw (Failure.tooDeep.at (t.line?.getD .null))
  | room + 1, .ask name line => do
    stopUnanswered name line
    step room (executeAnswered room) (.ask name line)
  | room + 1, t => step room (executeAnswered room) t

/-- Executes the statements of a program up to an `ask` for which no line is left. -/
def runAnswered (statements : List Tree) : Machine Unit := do
  match ← runAll (executeAnswered (← read).room) statements with
  | .done => return
  | .leave line => throw (.problem line .leaveOutsideLoop)
  | .next line => throw (.problem line .nextOutsideLoop)

end Execution

namespace Session

/-- The session with lines to answer from and no signal. -/
def fed (session : Session) (lines : List (Option String)) : Session :=
  { session with
    setup := { session.setup with signal := none }
    state := { session.state with input := .lines lines } }

/-- The run of the program comes to an `ask` for a name, at a line, for which no line of input is
left. -/
def ReadsPast (session : Session) (program name line : Tree) : Prop :=
  ∃ patience statements s, program.topLevel = .ok statements ∧
    Execution.runAnswered statements (session.patient patience).setup
      { session.state with trace := #[] } = .error (Execution.unanswered name line) s ∧
    s.input = .closed

end Session

/-! ## Lockstep -/

/-- Two runs that answer from lines, the second one with more of them.  The first one stops early at
an `ask` for which no line is left; if there are no more lines, this is where the second one fails
for want of input. -/
def Setup.furtherInput (setup : Setup) (more : List (Option String)) : Pairing where
  left := setup
  right := setup
  lines := Eq
  states := fun s t => ∃ rest, s.input = .lines rest ∧ t = { s with input := .lines (rest ++ more) }
  short := fun failure s failure' t => ∃ name line, failure = Execution.unanswered name line ∧
    s.input = .closed ∧ s.output.toList <+: t.output.toList ∧
    (more = [] → failure' = some (.problem line .noInput) ∧ t.output = s.output)
  onward := by
    rintro _ s t t' ⟨name, line, rfl, closed, before, unanswered⟩ after failure'
    exact ⟨name, line, rfl, closed, before.trans after, fun none => by cases (unanswered none).1⟩

section FurtherInput

open Machine Execution Pairing

variable {setup : Setup} {more : List (Option String)}

theorem lockstep_trace_furtherInput {level : Nat} {text : Unit → String} :
    (setup.furtherInput more).Lockstep Eq (trace level text) (trace level text) := by
  refine lockstep_trace_of rfl ?_
  rintro s t ⟨rest, lines, rfl⟩
  exact ⟨rest, lines, rfl⟩

/-- Having further input is a relation that two runs can keep until one of them asks in vain. -/
theorem lawful_furtherInput : (setup.furtherInput more).Lawful where
  signal := rfl
  patience := rfl
  env := by
    rintro s t ⟨rest, lines, rfl⟩
    rfl
  polls := by
    rintro s t ⟨rest, lines, rfl⟩
    rfl
  asked := by
    rintro s t ⟨rest, lines, rfl⟩
    exact ⟨rest, lines, rfl⟩
  written := by
    rintro s t line ⟨rest, lines, rfl⟩
    exact ⟨rest, lines, rfl⟩
  updated := by
    rintro s t env ⟨rest, lines, rfl⟩
    exact ⟨rest, lines, rfl⟩
  step := by
    rintro line _ what rfl
    exact lockstep_trace_furtherInput
  binding := fun _ _ _ => lockstep_trace_furtherInput

theorem readLine_of_cons {answer : Option String} {rest : List (Option String)} {s : State}
    (lines : s.input = .lines (answer :: rest)) :
    readLine setup s = .ok (answer.map Text.chopLineEnd) { s with input := .lines rest } := by
  have looked : (get : Machine State) setup s = .ok s s := rfl
  rw [readLine, bind_of_ok looked, lines]
  rfl

theorem readLine_of_nil {s : State} (lines : s.input = .lines []) :
    readLine setup s = .ok none s := by
  have looked : (get : Machine State) setup s = .ok s s := rfl
  rw [readLine, bind_of_ok looked, lines]
  rfl

theorem stopUnanswered_of_nil {name line : Tree} {s : State} (lines : s.input = .lines []) :
    stopUnanswered name line setup s =
      .error (unanswered name line) { s with input := .closed } := by
  have looked : (get : Machine State) setup s = .ok s s := rfl
  rw [stopUnanswered, bind_of_ok looked, lines]
  rfl

theorem stopUnanswered_of_cons {name line : Tree} {answer : Option String}
    {rest : List (Option String)} {s : State} (lines : s.input = .lines (answer :: rest)) :
    stopUnanswered name line setup s = .ok () s := by
  have looked : (get : Machine State) setup s = .ok s s := rfl
  rw [stopUnanswered, bind_of_ok looked, lines]
  rfl

/-- An `ask` for which a line is left reads the same line on both sides; one for which none is left
is where the first run stops. -/
theorem lockstep_ask_furtherInput (unwatched : setup.signal = none)
    {execute execute' : Tree → Machine Flow} {room : Nat} (name line : Tree) :
    (setup.furtherInput more).Lockstep (setup.furtherInput more).Flows
      (stopUnanswered name line >>= fun _ => step room execute (.ask name line))
      (step room execute' (.ask name line)) := by
  have lawful : (setup.furtherInput more).Lawful := lawful_furtherInput
  have same : ∀ line, (setup.furtherInput more).lines line line := fun _ => rfl
  have adds : ∀ t : State, t.output.toList <+:
      (endState (step room execute' (.ask name line) setup t)).output.toList :=
    fun t => (forks_execute (n := 0) (room + 1) (.ask name line) t).1.leads.output
  refine ⟨adds, ?_⟩
  rintro s _ ⟨rest, lines, rfl⟩
  change (setup.furtherInput more).Paired _
    ((stopUnanswered name line >>= fun _ => step room execute (.ask name line)) setup s)
    (step room execute' (.ask name line) setup { s with input := .lines (rest ++ more) })
  cases rest with
  | nil =>
    rw [bind_of_error (stopUnanswered_of_nil lines)]
    refine .short ⟨name, line, rfl, rfl, adds { s with input := .lines ([] ++ more) }, ?_⟩
    rintro rfl
    have failed : step room execute' (.ask name line) setup { s with input := .lines ([] ++ []) } =
        .error (.problem line .noInput) { s with input := .lines ([] ++ []) } := by
      refine (bind_of_ok (readLine_of_nil rfl)).trans ?_
      exact bind_of_ok (checkpoint_of_none unwatched line _)
    rw [failed]
    exact ⟨rfl, rfl⟩
  | cons answer rest =>
    have left : step room execute (.ask name line) setup s = _ :=
      bind_of_ok (readLine_of_cons lines)
    have right : step room execute' (.ask name line) setup
        { s with input := .lines (answer :: rest ++ more) } = _ :=
      bind_of_ok (readLine_of_cons rfl)
    rw [bind_of_ok (stopUnanswered_of_cons lines), left, right]
    refine Lockstep.paired (P := setup.furtherInput more) ?_ _ _ ⟨rest, rfl, rfl⟩
    cases answer with
    | none =>
      exact (lockstep_checkpoint lawful.toSteady rfl).bind fun _ => lockstep_throw (.refl same _)
    | some answer =>
      refine (lockstep_update lawful fun env => .refl same _).bind fun _ => ?_
      exact (lawful.binding _ _ _).bind fun _ => lockstep_pure .done

theorem executeAnswered_of_not_ask {room : Nat} {t : Tree}
    (other : ∀ name line, t ≠ .ask name line) :
    executeAnswered (room + 1) t = step room (executeAnswered room) t := by
  rw [executeAnswered]
  exact other

/-- A statement that stops at an unanswered question is in lockstep with the statement that has
further input. -/
theorem lockstep_executeAnswered (unwatched : setup.signal = none) (room : Nat) (t : Tree) :
    (setup.furtherInput more).Lockstep (setup.furtherInput more).Flows (executeAnswered room t)
      (execute room t) := by
  have same : ∀ line, (setup.furtherInput more).lines line line := fun _ => rfl
  induction room generalizing t with
  | zero => exact lockstep_throw (.refl same _)
  | succ room ih =>
    by_cases asks : ∃ name line, t = .ask name line
    · obtain ⟨name, line, rfl⟩ := asks
      exact lockstep_ask_furtherInput unwatched name line
    · rw [executeAnswered_of_not_ask fun name line ask => asks ⟨name, line, ask⟩]
      exact lockstep_step lawful_furtherInput same ih t fun name line ask =>
        absurd ⟨name, line, ask⟩ asks

theorem lockstep_runAnswered (unwatched : setup.signal = none) (more : List (Option String))
    (statements : List Tree) :
    (setup.furtherInput more).Lockstep Eq (runAnswered statements) (runProgram statements) := by
  refine lockstep_read (lockstep_closing (lockstep_runAll lawful_furtherInput.toSteady ?_))
  refine List.forall₂_same.2 fun t _ => .refl (fun _ => rfl) ?_
  exact lockstep_executeAnswered unwatched _ t

/-- How the two runs end: in the same way, with the same lines read, or with the first one stopped
at an `ask`. -/
theorem paired_furtherInput_cases {x y : EStateM.Result Failure State Unit}
    (paired : (setup.furtherInput more).Paired Eq x y) :
    (∃ rest, (endState x).input = .lines rest ∧
        endState y = { endState x with input := .lines (rest ++ more) } ∧
        failureOf y = failureOf x) ∨
      ∃ name line s, x = .error (unanswered name line) s ∧ s.input = .closed ∧
        s.output.toList <+: (endState y).output.toList ∧
        (more = [] → failureOf y = some (.problem line .noInput) ∧
          (endState y).output = s.output) := by
  cases paired with
  | ok _ states =>
    obtain ⟨rest, lines, same⟩ := states
    exact .inl ⟨rest, lines, same, rfl⟩
  | error failures states =>
    obtain ⟨rest, lines, same⟩ := states
    exact .inl ⟨rest, lines, same, congrArg some (failures.eq fun _ _ same => same).symm⟩
  | @short failure s _ short =>
    obtain ⟨name, line, rfl, closed, added, unanswered⟩ := short
    exact .inr ⟨name, line, s, rfl, closed, added, unanswered⟩

/-- The run that is stopped at an `ask` stands between the run on some lines and the run on more. -/
theorem paired_between {x y z : EStateM.Result Failure State Unit}
    (alone : (setup.furtherInput []).Paired Eq x y)
    (further : (setup.furtherInput more).Paired Eq x z) :
    (∃ rest, (endState x).input = .lines rest ∧ failureOf x = failureOf y ∧
        (endState y).input = .lines rest ∧
        endState z = { endState y with input := .lines (rest ++ more) } ∧
        failureOf z = failureOf y) ∨
      ∃ name line s, x = .error (unanswered name line) s ∧ s.input = .closed ∧
        failureOf y = some (.problem line .noInput) ∧
        (endState y).output.toList <+: (endState z).output.toList := by
  rcases paired_furtherInput_cases alone with
    ⟨rest, left, same, failure⟩ | ⟨name, line, s, rfl, closed, -, refused⟩
  · rcases paired_furtherInput_cases further with
      ⟨rest', left', same', failure'⟩ | ⟨name, line, s, rfl, closed, _⟩
    · obtain rfl : rest' = rest := Input.lines.inj (left'.symm.trans left)
      rw [List.append_nil, ← left] at same
      refine .inl ⟨rest', left, failure.symm, same ▸ left, ?_, failure'.trans failure.symm⟩
      rw [same', same]
    · cases closed.symm.trans left
  · rcases paired_furtherInput_cases further with
      ⟨rest', left', -, -⟩ | ⟨_, _, _, stops, _, added, -⟩
    · cases closed.symm.trans left'
    · cases stops
      obtain ⟨failure, output⟩ := refused rfl
      exact .inr ⟨name, line, s, rfl, closed, failure, output ▸ added⟩

end FurtherInput

/-! ## Patience -/

section Kept

open Machine Execution

variable {setup : Setup} {more : Nat}

/-- More patience makes no difference to a statement that stops at an unanswered question. -/
theorem kept_executeAnswered (le : setup.patience ≤ more) (room : Nat) (t : Tree) :
    Kept setup more (executeAnswered room t) (executeAnswered room t) := by
  induction room generalizing t with
  | zero => exact kept_throw
  | succ room ih =>
    by_cases asks : ∃ name line, t = .ask name line
    · obtain ⟨name, line, rfl⟩ := asks
      refine Kept.bind (kept_get fun s => ?_) fun _ => kept_step le ih _
      split
      · exact kept_modify.bind fun _ => kept_throw
      · exact kept_pure
    · rw [executeAnswered_of_not_ask fun name line ask => asks ⟨name, line, ask⟩]
      exact kept_step le ih t

theorem kept_runAnswered (setup : Setup) (le : setup.patience ≤ more) (statements : List Tree) :
    Kept setup more (runAnswered statements) (runAnswered statements) := by
  refine kept_read ((kept_runAll (kept_executeAnswered le setup.room) statements).bind
    fun flow => ?_)
  cases flow with
  | done => exact kept_pure
  | leave | next => exact kept_throw

end Kept

/-! ## Runs -/

/-- The run on some lines beside the one on more lines, and beside the one that is stopped at an
`ask` for which no line is left. -/
theorem runTraced_furtherInput_cases (setup : Setup) (state : State)
    (unwatched : setup.signal = none) {lines : List (Option String)}
    (fed : state.input = .lines lines) (more : List (Option String)) (statements : List Tree) :
    let stopped := Execution.runAnswered statements setup { state with trace := #[] }
    let short := runTraced setup state statements
    let long := runTraced setup { state with input := .lines (lines ++ more) } statements
    (∃ rest, (endState stopped).input = .lines rest ∧ failureOf stopped = short.2 ∧
        short.1.input = .lines rest ∧
        long = ({ short.1 with input := .lines (rest ++ more) }, short.2)) ∨
      ∃ name line s, stopped = .error (Execution.unanswered name line) s ∧ s.input = .closed ∧
        short.2 = some (.problem line .noInput) ∧
        short.1.output.toList <+: long.1.output.toList := by
  intro stopped short long
  have alone := (lockstep_runAnswered unwatched [] statements).paired
    { state with trace := #[] } { state with trace := #[] }
    ⟨lines, fed, by rw [List.append_nil, ← fed]⟩
  have further := (lockstep_runAnswered unwatched more statements).paired
    { state with trace := #[] } { state with input := .lines (lines ++ more), trace := #[] }
    ⟨lines, fed, rfl⟩
  have shortEnd : short = _ := runTraced_eq setup state statements rfl
  have longEnd : long = _ :=
    runTraced_eq setup { state with input := .lines (lines ++ more) } statements rfl
  obtain ⟨shortTrace, shortState⟩ := exists_trace_runTraced setup state statements
  obtain ⟨longTrace, longState⟩ :=
    exists_trace_runTraced setup { state with input := .lines (lines ++ more) } statements
  rcases paired_between alone further with
    ⟨rest, left, failure, unread, same, failure'⟩ | ⟨name, line, s, stops, closed, failure, added⟩
  · refine .inl ⟨rest, left, failure.trans (congrArg Prod.snd shortEnd).symm, ?_, ?_⟩
    · exact (congrArg State.input shortState).trans unread
    · change endState (Execution.runProgram statements setup _) = _ at same
      change failureOf (Execution.runProgram statements setup _) = _ at failure'
      rw [longEnd, shortEnd, failure', same]
      dsimp only
      split <;> rfl
  · refine .inr ⟨name, line, s, stops, closed, (congrArg Prod.snd shortEnd).trans failure, ?_⟩
    have shortOutput : short.1.output = _ := congrArg State.output shortState
    have longOutput : long.1.output = _ := congrArg State.output longState
    rw [shortOutput, longOutput]
    exact added

namespace Session

/-- The report of a run says how its statements have ended. -/
theorem report_of_topLevel (session : Session) {program : Tree} {statements : List Tree}
    (top : program.topLevel = .ok statements) :
    (session.run program).2 = ⟨(runTraced session.setup session.state statements).2,
      if session.recording then #[]
      else (runTraced session.setup session.state statements).1.trace⟩ := by
  rw [run_of_ok session top]
  dsimp only
  split <;> rfl

/-- The two runs, followed with the same patience. -/
theorem run_fed_cases (session : Session) {program : Tree} {statements : List Tree}
    (top : program.topLevel = .ok statements) (lines more : List (Option String)) :
    let stopped := Execution.runAnswered statements (session.fed lines).setup
      { (session.fed lines).state with trace := #[] }
    let short := (session.fed lines).run program
    let long := (session.fed (lines ++ more)).run program
    (∃ rest, (endState stopped).input = .lines rest ∧ failureOf stopped = short.2.failure ∧
        short.1.state.input = .lines rest ∧
        long.1.state = { short.1.state with input := .lines (rest ++ more) } ∧
        long.2 = short.2) ∨
      ∃ name line s, stopped = .error (Execution.unanswered name line) s ∧ s.input = .closed ∧
        short.2.failure = some (.problem line .noInput) ∧
        short.1.state.output.toList <+: long.1.state.output.toList := by
  intro stopped short long
  have cases := runTraced_furtherInput_cases (session.fed lines).setup (session.fed lines).state
    rfl rfl more statements
  have shortState : short.1.state = _ := (run_of_topLevel (session.fed lines) top).1
  have shortReport : short.2 = _ := report_of_topLevel (session.fed lines) top
  have longState : long.1.state = _ := (run_of_topLevel (session.fed (lines ++ more)) top).1
  have longReport : long.2 = _ := report_of_topLevel (session.fed (lines ++ more)) top
  rw [shortState, shortReport, longState, longReport]
  rcases cases with
    ⟨rest, left, failure, unread, same⟩ | ⟨name, line, s, stops, closed, failure, added⟩
  · refine .inl ⟨rest, left, failure, unread, congrArg Prod.fst same, ?_⟩
    have same' : runTraced (session.fed (lines ++ more)).setup
      (session.fed (lines ++ more)).state statements = _ := same
    rw [same']
    rfl
  · exact .inr ⟨name, line, s, stops, closed, failure, added⟩

/-- With further input the output goes on where it has stopped without it. -/
theorem run_fed_adds (session : Session) {program : Tree} {statements : List Tree}
    (top : program.topLevel = .ok statements) (lines more : List (Option String)) :
    ((session.fed lines).run program).1.state.output.toList <+:
      ((session.fed (lines ++ more)).run program).1.state.output.toList := by
  rcases session.run_fed_cases top lines more with
    ⟨_, _, _, _, state, _⟩ | ⟨_, _, _, _, _, _, added⟩
  · simp only [state, List.prefix_rfl]
  · exact added

/-- A run that has ended without reading past the end of its lines does not do so when it is
followed for longer. -/
theorem not_readsPast {session : Session} {program name line : Tree} {statements : List Tree}
    (top : program.topLevel = .ok statements) {patience : Nat} {rest : List (Option String)}
    {stopped : EStateM.Result Failure State Unit}
    (run : Execution.runAnswered statements (session.patient patience).setup
      { session.state with trace := #[] } = stopped)
    (unread : (endState stopped).input = .lines rest)
    (ends : failureOf stopped ≠ some .endless) : ¬ session.ReadsPast program name line := by
  rintro ⟨patience', statements', s, top', stops, closed⟩
  cases top.symm.trans top'
  have keeps {p : Nat} (le : p ≤ max patience patience') :=
    kept_runAnswered (session.patient p).setup le statements
      { session.state with trace := #[] }
  have longer : Execution.runAnswered statements
      (session.patient (max patience patience')).setup { session.state with trace := #[] } =
        stopped := by
    rcases keeps (Nat.le_max_left patience patience') with ⟨s', gaveUp⟩ | same
    · rw [← run, gaveUp] at ends
      exact absurd rfl ends
    · exact same.trans run
  rcases keeps (Nat.le_max_right patience patience') with ⟨s', gaveUp⟩ | same
  · cases gaveUp.symm.trans stops
  · obtain rfl := longer.symm.trans (same.trans stops)
    cases closed.symm.trans unread

/-- More input only extends a run.  If the run on some lines ends, then either it never reads past
their end, and the run on more lines ends in the same way and has the additional lines left; or it
comes to an `ask` for which no line is left, ends there for want of input, and has written a
beginning of what the run on more lines writes. -/
theorem more_input_extends (session : Session) (program : Tree) (lines more : List (Option String))
    {final : State} {report : RunReport}
    (ends : (session.fed lines).EndsWith program final report) :
    ((∀ name line, ¬ (session.fed lines).ReadsPast program name line) ∧
      ∃ rest, final.input = .lines rest ∧ (session.fed (lines ++ more)).EndsWith program
        { final with input := .lines (rest ++ more) } report) ∨
    ∃ name line, (session.fed lines).ReadsPast program name line ∧
      report.failure = some (.problem line .noInput) ∧
      ∃ enough, ∀ patience, enough ≤ patience → final.output.toList <+:
        (((session.fed (lines ++ more)).patient patience).run program).1.state.output.toList := by
  obtain ⟨patience, rfl, rfl, finite⟩ := ends
  cases top : program.topLevel with
  | error failure =>
    rw [run_of_error _ top] at finite
    rw [run_of_error _ top]
    refine .inl ⟨?_, lines, rfl, patience, ?_, ?_, finite⟩
    · rintro name line ⟨_, _, _, top', _⟩
      cases top.symm.trans top'
    · rw [run_of_error _ top]
      rfl
    · rw [run_of_error _ top]
  | ok statements =>
    rcases (session.patient patience).run_fed_cases top lines more with
      ⟨rest, left, failure, unread, state, report⟩ | ⟨name, line, s, stops, closed, failure, _⟩
    · refine .inl ⟨fun name line => ?_, rest, unread, patience, state, report, finite⟩
      exact not_readsPast top rfl left (failure ▸ finite)
    · refine .inr ⟨name, line, ⟨patience, statements, s, top, stops, closed⟩, failure, patience,
        fun patience' le => ?_⟩
      -- The run that has ended is the same when it is followed for longer.
      obtain ⟨state, _⟩ :=
        run_of_patience_le ((session.fed lines).patient patience) program le finite
      rw [← state]
      exact (session.patient patience').run_fed_adds top lines more

end Session

/-- An answer is asked for between two lines of output.  Without input the run stops there, and with
a line it goes on. -/
theorem more_input_of_ask :
    let session : Session := { setup := {}, state := {} }
    let program : Tree := .program (.list [.say (.textLit (.text "a") (lineTree 1)) (lineTree 1),
      .ask (.text "x") (lineTree 2), .say (.ident (.text "x") (lineTree 3)) (lineTree 3)])
    ∃ final report, (session.fed []).EndsWith program final report ∧
      (∃ name line, (session.fed []).ReadsPast program name line ∧
        report.failure = some (.problem line .noInput)) ∧
      final.output.toList <+: ["a", "b"] := by
  intro session program
  have short : (((session.fed []).patient 0).run program).2.failure =
      some (.problem (lineTree 2) .noInput) := rfl
  have long (patience : Nat) : (((session.fed [some "b"]).patient patience).run program).2.failure =
      none := rfl
  have written (patience : Nat) :
      (((session.fed [some "b"]).patient patience).run program).1.state.output.toList =
        ["a", "b"] := rfl
  have ends : (session.fed []).EndsWith program _ _ := ⟨0, rfl, rfl, by simp [short]⟩
  rcases session.more_input_extends program [] [some "b"] ends with
    ⟨_, _, _, patience, _, report, _⟩ | ⟨name, line, past, failure, enough, added⟩
  · have failed := congrArg RunReport.failure report
    rw [short] at failed
    cases (long patience).symm.trans failed
  · refine ⟨_, _, ends, ⟨name, line, past, failure⟩, ?_⟩
    rw [← written enough]
    exact added enough (Nat.le_refl enough)

end Parlance
