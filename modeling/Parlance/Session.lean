import Parlance.Contextual.Automaton
import Parlance.Descent.Statement
import Parlance.Execution

/-!
# Sessions

A session runs programs one after the other on one machine: names, output and input carry over.  Its
trace goes to a record that is closed at the end of the first run; the traces of later runs are
handed out with the runs themselves.
-/

namespace Parlance

/-- The two front ends. -/
inductive FrontEnd
  | descent
  | contextual
  deriving DecidableEq, Repr

/-- Reads a program from its source. -/
def FrontEnd.parse : FrontEnd → String → Except Mistake Program
  | .descent => Descent.parse
  | .contextual => Contextual.parse

/-- A machine between runs. -/
structure Session where
  setup : Setup
  state : State
  /-- The record of the trace, and whether it is still open. -/
  record : Array String := #[]
  recording : Bool := true

/-- What a run leaves behind besides the session: how it failed, and the trace that was not
recorded. -/
structure RunReport where
  failure : Option Failure
  unrecorded : Array String

/-- The statements that a tree has at its top.  Whatever has a body can be run. -/
def Tree.topLevel (t : Tree) : Except Failure (List Tree) :=
  match t.body? with
  | none => .error (.fault .noSuchPart)
  | some body =>
    match body.elements? with
    | none => .error (.fault .wrongType)
    | some statements => .ok statements

/-- The line that ends the trace of a run. -/
def closingTrace (outputLines : Nat) : Option Failure → Option String
  | none => some ("run: finished, " ++ toString outputLines ++ " output lines")
  | some (.problem line problem) =>
    some ("run: stopped by " ++ (Mistake.runtime line problem).text)
  | some _ => none

/-- Runs statements from a state with an empty trace, with the opening and closing lines of the
trace. -/
def runTraced (setup : Setup) (state : State) (statements : List Tree) : State × Option Failure :=
  let opening := "run: " ++ toString statements.length ++ " top-level statements"
  let (state, failure) :=
    match Execution.runProgram statements setup { state with trace := #[] } with
    | .ok _ state => (state, none)
    | .error failure state => (state, some failure)
  if 1 ≤ setup.level then
    let closing := (closingTrace state.output.size failure).toArray
    ({ state with trace := #[opening] ++ state.trace ++ closing }, failure)
  else (state, failure)

namespace Session

/-- Runs a program given as a tree. -/
def run (session : Session) (program : Tree) : Session × RunReport :=
  match program.topLevel with
  | .error failure => (session, ⟨some failure, #[]⟩)
  | .ok statements =>
    let (state, failure) := runTraced session.setup session.state statements
    if session.recording then
      ({ session with state, record := session.record ++ state.trace, recording := false },
        ⟨failure, #[]⟩)
    else ({ session with state }, ⟨failure, state.trace⟩)

end Session

/-- The outcome of reading and running a source. -/
structure RunResult where
  output : List String
  mistake : Option Mistake
  /-- Set if the run failed in a way that programs in the strict form never do. -/
  failure : Option Failure
  polls : Nat
  /-- The trace, if the source was read and a trace was asked for. -/
  record : Option (List String)

/-- The mistake that a failure is, if it is one. -/
def Failure.mistake? : Failure → Option Mistake
  | .problem line cause => some (.runtime line cause)
  | _ => none

/-- Reads and runs a source. -/
def runSource (frontEnd : FrontEnd) (setup : Setup) (input : Input) (source : String) : RunResult :=
  match frontEnd.parse source with
  | .error mistake => ⟨[], some mistake, none, 0, none⟩
  | .ok program =>
    let (session, report) := Session.run ⟨setup, { input }, #[], true⟩ program.toTree
    { output := session.state.output.toList
      mistake := report.failure.bind Failure.mistake?
      failure := report.failure
      polls := session.state.polls
      record := if 1 ≤ setup.level then some session.record.toList else none }

end Parlance
