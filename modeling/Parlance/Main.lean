import Parlance.CommandLine.Invocation

/-!
# The command

The outer layer of the command line: it looks up the files that the arguments name, hands what it
found to `invoke`, and carries out the outcome.  Since `invoke` is a function, a program that wants
more input, or more time than it was given, is run again from the start with more of it, and only
what is new of its output is printed.
-/

namespace Parlance.CommandLine

/-- What a path leads to. -/
def findEntry (path : String) : IO Entry := do
  match ← (IO.FS.readFile path).toBaseIO with
  | .ok text => return .file text
  | .error (.noFileOrDirectory ..) => return .missing
  | .error (.inappropriateType _ code _) => return if code = 21 then .directory else .throughFile
  | .error (.invalidArgument _ code _) => return if code = 22 then .nameBroken else .nameTooLong
  | .error error => throw error

/-- What each of several paths leads to. -/
def findEntries (paths : List String) : IO (String → Entry) := do
  let found ← paths.mapM fun path => return (path, ← findEntry path)
  return fun path => (Json.lookup path found).getD .missing

/-- Runs a command.  `typed` is the input so far and `shown` the length of the output so far;
`listens` says whether more input may come, `ends` when the time is over, and `budget` how often the
cancel signal may be asked before the clock is. -/
partial def converse (args : List String) (look : String → Entry) (listens : Bool) (ends : Nat)
    (typed : String) (shown budget : Nat) : IO Outcome := do
  let outcome := invoke args { look, stdin := typed, deadline := .after budget }
  let stdout ← IO.getStdout
  stdout.putStr (String.ofList (outcome.stdout.toList.drop shown))
  stdout.flush
  let shown := outcome.stdout.length
  match outcome.problem with
  | some .cancelled =>
    if (← IO.monoMsNow) < ends then converse args look listens ends typed shown (2 * budget)
    else return outcome
  | some .noInput =>
    let line ← if listens then (← IO.getStdin).getLine else pure ""
    if line.isEmpty then return outcome
    else converse args look listens ends (typed ++ line) shown budget
  | _ => return outcome

/-- The moment when the time of a command is over. -/
def deadlineOf (options : Options) : IO Nat := do
  let now ← IO.monoMsNow
  match options.timeout with
  | some seconds =>
    return now + if seconds.isNaN then 1 <<< 63 else (seconds * 1000).toUInt64.toNat
  | none => return now

/-- Writes the files of an outcome, reports it and gives its exit code. -/
def finish (outcome : Outcome) : IO UInt32 := do
  for (path, text) in outcome.writes do
    IO.FS.writeFile path text
  IO.eprint outcome.stderr
  match outcome.ending with
  | .status code => return code.toUInt32
  | .crash crash =>
    IO.eprintln ("Error: " ++ crash.message)
    return 1

/-- Does what the arguments ask for. -/
def command (args : List String) : IO UInt32 := do
  match Options.parse args with
  | .error _ | .ok none => finish (invoke args { look := fun _ => .missing })
  | .ok (some options) =>
    let look ← findEntries options.paths
    let ends ← deadlineOf options
    finish (← converse args look (given? options.input).isNone ends "" 0 1024)

end Parlance.CommandLine

/-- The command. -/
def main (args : List String) : IO UInt32 :=
  Parlance.CommandLine.command args
