import Parlance.Evaluation
import Parlance.Machine
import Parlance.Number.Reading

/-!
# Executing statements

A statement either is done or sends a signal to the loop around it.  `step` says what a statement
does, given how the statements inside it are executed; `execute` ties the knot, one unit of room per
level of nesting.
-/

namespace Parlance

/-- How a statement ends: normally, or by leaving a loop or starting its next round. -/
inductive Flow
  | done
  | leave (line : Tree)
  | next (line : Tree)

/-- The value of a line of input: a number if it spells one, and a text as it is otherwise. -/
def answerOf (line : String) : Tree :=
  match Number.input? (Text.strip line.toList) with
  | some x => .number x
  | none => .text line

namespace Execution

open Machine

/-- Executes statements in order until one sends a signal.  Each has to have a line, where the
cancel signal is asked first. -/
def runAll (execute : Tree → Machine Flow) : List Tree → Machine Flow
  | [] => return .done
  | t :: ts => do
    checkpoint (← need t.line? .noSuchPart)
    match ← execute t with
    | .done => runAll execute ts
    | signal => return signal

/-- Executes what stands where statements are due. -/
def runStatements (execute : Tree → Machine Flow) (statements : Tree) : Machine Flow := do
  runAll execute (← need statements.elements? .wrongType)

/-- Executes a block. -/
def runBlock (execute : Tree → Machine Flow) (block : Tree) : Machine Flow := do
  runStatements execute (← need block.statements? .noSuchPart)

/-- The trace of a binding. -/
def traceBinding (verb : String) (name value : Tree) : Machine Unit :=
  trace 2 fun _ => verb ++ " " ++ name.plain ++ ": " ++ value.kindName ++ " = " ++ value.shown

/-- The trace of a step at a line. -/
def traceStep (line : Tree) (what : Unit → String) : Machine Unit :=
  trace 3 fun _ => "line " ++ line.plain ++ ": " ++ what ()

/-- Goes through branches until a condition holds, and executes that branch. -/
def runBranches (execute : Tree → Machine Flow) (holds : Tree → Machine Bool)
    (otherwise : Machine Flow) : List Tree → Machine Flow
  | [] => otherwise
  | .branch condition block line :: rest => do
    if ← holds condition then
      traceStep line fun _ => "branch taken"
      runBlock execute block
    else runBranches execute holds otherwise rest
  | .whilst condition _ line :: rest => do
    if ← holds condition then
      traceStep line fun _ => "branch taken"
      throw (.fault .noSuchPart)
    else runBranches execute holds otherwise rest
  | _ :: _ => throw (.fault .noSuchPart)

/-- Rounds of a loop for as long as its test holds. -/
def whileLoop (test : Machine Bool) (round : Machine Flow) : Nat → Machine Unit
  | 0 => throw .endless
  | patience + 1 => do
    if ← test then
      match ← round with
      | .leave _ => return
      | _ => whileLoop test round patience

/-- Rounds of a loop for a counter that goes up by one and stays within a bound. -/
def rangeLoop (round : Float → Machine Flow) (last : Float) : Nat → Float → Machine Unit
  | 0, _ => throw .endless
  | patience + 1, counter => do
    if counter ≤ last then
      match ← round counter with
      | .leave _ => return
      | _ => rangeLoop round last patience (counter + 1.0)

/-- What a statement does. -/
def step (room : Nat) (execute : Tree → Machine Flow) (t : Tree) : Machine Flow := do
  match t with
  | .declare name expr fixed line =>
    let value ← inspect line (evaluate · room expr)
    update (·.declare name value fixed line)
    traceBinding (if fixed.isTrue then "keep" else "set") name value
    return .done
  | .assign name expr line =>
    let value ← inspect line (evaluate · room expr)
    update (·.assign name value line)
    traceBinding "change" name value
    return .done
  | .say expr line | .display expr line =>
    let value ← inspect line (evaluate · room expr)
    writeLine value.shown
    return .done
  | .ask name line =>
    match ← readLine with
    | none =>
      checkpoint line
      throw (.problem line .noInput)
    | some answer =>
      let value := answerOf answer
      update (·.bind name value line)
      traceBinding "ask" name value
      return .done
  | .choose branches otherwise line =>
    let last : Machine Flow :=
      match otherwise with
      | .null => return .done
      | block => do
        traceStep line fun _ => "else branch taken"
        runBlock execute block
    runBranches execute (fun c => inspect line (evaluateCondition · room c)) last
      (← need branches.elements? .wrongType)
  | .range name first last body line =>
    let start ← inspect line (evaluate · room first)
    let stop ← inspect line (evaluate · room last)
    match start, stop with
    | .number start, .number stop =>
      let round (counter : Float) : Machine Flow := do
        checkpoint line
        update (·.bind name (.number counter) line)
        traceStep line fun _ => "loop " ++ name.plain ++ " = " ++ Number.display counter
        runBlock execute body
      rangeLoop round stop (← read).patience start
      return .done
    | _, _ => throw (.problem line .boundsNotNumbers)
  | .whilst condition body line =>
    let test : Machine Bool := do
      checkpoint line
      inspect line (evaluateCondition · room condition)
    let round : Machine Flow := do
      traceStep line fun _ => "repeat iteration"
      runBlock execute body
    whileLoop test round (← read).patience
    return .done
  | .leave line => return .leave line
  | .next line => return .next line
  | other => throw (.fault (.unexpectedStatement other))

/-- Executes a statement, with room for so many levels of nesting. -/
def execute : Nat → Tree → Machine Flow
  | 0, t => throw (Failure.tooDeep.at (t.line?.getD .null))
  | room + 1, t => step room (execute room) t

/-- Executes the statements of a program.  A signal that no loop has taken is a problem. -/
def runProgram (statements : List Tree) : Machine Unit := do
  match ← runAll (execute (← read).room) statements with
  | .done => return
  | .leave line => throw (.problem line .leaveOutsideLoop)
  | .next line => throw (.problem line .nextOutsideLoop)

end Execution

end Parlance
