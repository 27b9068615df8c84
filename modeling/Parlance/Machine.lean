import Parlance.Environment
import Parlance.Mistake
import Parlance.Text.Lines

/-!
# The machine that runs a program

A run has a fixed `Setup` and a `State` that it changes: the environment, the output so far, the
input that is left, how often a name has been bound and the cancel signal been asked, and the trace.
A run that fails keeps the state it had reached.

The cancel signal is a function of how often it has been asked before.  The machine asks it before
every statement and every round of a loop, and while it waits for input.

The trace takes every line it is given.  Left out is that the file behind it may refuse one, for a
character that its encoding does not have, and that the text of a hand-made value has bounds of its
own (`Tree.shown`).  So here no level of tracing ends a run.
-/

namespace Parlance

/-- Where answers come from.  A missing line (`none`) stands for the end of the input at one read;
later reads go on.  A queue differs from lines in what happens when it is empty: reading waits. -/
inductive Input
  | closed
  | lines (rest : List (Option String))
  | queue (rest : List (Option String))

/-- The lines of a text as input. -/
def Input.ofText (text : String) : Input :=
  .lines ((Text.splitLines text).map some)

/-- A cancel signal: whether it is set when asked after having been asked `n` times. -/
abbrev CancelSignal := Nat → Bool

/-- The signal that is set from the `n + 1`-st question on. -/
def CancelSignal.after (n : Nat) : CancelSignal :=
  fun asked => decide (n ≤ asked)

/-- The signal that is never set. -/
def CancelSignal.never : CancelSignal :=
  fun _ => false

/-- The signal that has been set from the start. -/
def CancelSignal.always : CancelSignal :=
  fun _ => true

/-- The signal of a deadline that is so many seconds ahead, if `later` is that of one which lies
well in the future.  The clock does not tell less than a microsecond from no time at all. -/
def CancelSignal.within (later : CancelSignal) (seconds : Float) : CancelSignal :=
  if seconds < 0.000001 then .always else later

/-- What stays the same during a run. -/
structure Setup where
  /-- The cancel signal, if there is one.  There is one only: what is asked before a statement or a
  round of a loop, and what is asked while input is awaited, are the same object.  A run that is
  given a signal and the command line with its time limit hand it to both. -/
  signal : Option CancelSignal := none
  /-- Reading from an empty queue gives up in the end, rather than waiting for the signal. -/
  timed : Bool := false
  /-- How often such reading goes on waiting before it gives up. -/
  renewals : Nat := 0
  /-- How much the trace tells. -/
  level : Nat := 0
  /-- The room for nesting. -/
  room : Nat := 900
  /-- How many rounds of one loop are followed. -/
  patience : Nat := 1 <<< 62

/-- What changes during a run. -/
structure State where
  env : Environment := {}
  output : Array String := #[]
  input : Input := .closed
  writes : Nat := 0
  polls : Nat := 0
  trace : Array String := #[]

/-- A computation of the machine. -/
abbrev Machine := ReaderT Setup (EStateM Failure State)

namespace Machine

/-- Asks the cancel signal. -/
def poll : Machine Bool := do
  match (← read).signal with
  | none => return false
  | some isSet =>
    let asked := (← get).polls
    modify fun s => { s with polls := asked + 1 }
    return isSet asked

/-- Stops the run at a line if the signal is set. -/
def checkpoint (line : Tree) : Machine Unit := do
  if ← poll then throw (.problem line .cancelled)

/-- Asks the signal until it is set, or until it has been asked so many times. -/
def awaitSignal (atLast : Machine Unit) : Nat → Machine Unit
  | 0 => atLast
  | bound + 1 => do
    if ← poll then return
    awaitSignal atLast bound

/-- The next line of input without its line end, if there is one. -/
def readLine : Machine (Option String) := do
  match (← get).input with
  | .closed => return none
  | .lines [] => return none
  | .lines (line :: rest) =>
    modify fun s => { s with input := .lines rest }
    return line.map Text.chopLineEnd
  | .queue (line :: rest) =>
    modify fun s => { s with input := .queue rest }
    return line.map Text.chopLineEnd
  | .queue [] =>
    if (← read).timed then
      awaitSignal (pure ()) ((← read).renewals + 1)
    else
      awaitSignal (throw .endless) (← read).patience
    return none

/-- Appends a line to the output. -/
def writeLine (line : String) : Machine Unit :=
  modify fun s => { s with output := s.output.push line }

/-- Appends a line to the trace if the trace tells that much. -/
def trace (level : Nat) (line : Unit → String) : Machine Unit := do
  if level ≤ (← read).level then
    modify fun s => { s with trace := s.trace.push (line ()) }

/-- Replaces the environment by the outcome of an operation on it. -/
def update (change : Environment → Except Failure Environment) : Machine Unit := do
  match change (← get).env with
  | .ok env => modify fun s => { s with env, writes := s.writes + 1 }
  | .error failure => throw failure

/-- The outcome of a function of the environment, inside the statement at a line. -/
def inspect {α : Type} (line : Tree) (look : Environment → Except Failure α) : Machine α := do
  match look (← get).env with
  | .ok value => return value
  | .error failure => throw (failure.at line)

/-- A part of a tree that has to be there. -/
def need {α : Type} (part : Option α) (fault : Fault) : Machine α :=
  match part with
  | some found => return found
  | none => throw (.fault fault)

end Machine

end Parlance
