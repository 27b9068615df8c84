import Parlance.CommandLine.Disk
import Parlance.CommandLine.Options
import Parlance.Json.Reader
import Parlance.Json.Writer
import Parlance.Session

/-!
# What a command does

A command reads a program, from its source or from the file of its tree, and runs it or writes its
tree to a file.  Everything a command does is a value, `Outcome`: what it prints, the files it
writes and how it ends.
-/

namespace Parlance.CommandLine

/-- Why a command breaks off without a report of its own. -/
inductive Crash
  | fileMissing
  | fileIsDirectory
  | pathThroughFile
  | nameTooLong
  | nameBroken
  | json (error : Json.ReadError)
  | codec (error : CodecError)
  | run (failure : Failure)

/-- What is reported of a crash. -/
def Crash.message : Crash → String
  | .fileMissing => "no such file"
  | .fileIsDirectory => "is a directory"
  | .pathThroughFile => "not a directory"
  | .nameTooLong => "file name too long"
  | .nameBroken => "file name with a zero byte"
  | .json .malformed => "malformed JSON"
  | .json .integerTooLong => "integer with too many digits"
  | .json .halfCharacter => "half of a character in JSON"
  | .json .tooDeep | .codec .tooDeep => "nested too deeply"
  | .codec _ => "not a program tree"
  | .run (.fault fault) => fault.message?.getD "misplaced part in a program tree"
  | .run _ => "the run does not end"

/-- How a command ends. -/
inductive Ending
  | status (code : Nat)
  | crash (crash : Crash)

/-- Everything a command does. -/
structure Outcome where
  ending : Ending
  stdout : String := ""
  stderr : String := ""
  /-- The files written, in order. -/
  writes : List (String × String) := []
  /-- The problem that stopped the program, if one did. -/
  problem : Option Problem := none

/-- What a command finds: the files, its standard input, and the signal of a deadline that is still
to come. -/
structure World where
  look : String → Entry
  stdin : String := ""
  deadline : CancelSignal := .never

/-- The name of the file that the trace is written to. -/
def traceFile : String := "debug.txt"

/-- A text with every line ended. -/
def unlines (lines : List String) : String :=
  String.join (lines.map (· ++ "\n"))

/-- The end with a report on the error channel. -/
def reported (status : Nat) (report : String) : Outcome :=
  { ending := .status status, stderr := report ++ "\n" }

/-- The end of a call with wrong arguments. -/
def misused (error : UsageError) : Outcome :=
  reported 2 ("parseon: error: " ++ error.message)

/-- The text of a file, with its line ends made plain. -/
def readText (world : World) (name : String) : Except Crash String :=
  match world.look name with
  | .file text => .ok (String.ofList (Text.unifyNewlines text.toList))
  | .directory => .error .fileIsDirectory
  | .missing => .error .fileMissing
  | .throughFile => .error .pathThroughFile
  | .nameTooLong => .error .nameTooLong
  | .nameBroken => .error .nameBroken

/-- The text of a file that is named as what to work on: one that is not there is reported. -/
def readSubject (world : World) (name : String) : Except Outcome String :=
  let path := (Path.ofText name).normalize.text
  match readText world path with
  | .ok text => .ok text
  | .error .fileMissing | .error .pathThroughFile | .error .nameBroken =>
    .error (reported 1 ("Error: file " ++ path ++ " not found"))
  | .error crash => .error { ending := .crash crash }

/-- The front end that the options choose. -/
def Options.frontEnd (options : Options) : FrontEnd :=
  if options.contextual then .contextual else .descent

/-- The cancel signal of a time limit.  No time at all is no limit. -/
def Options.signal (options : Options) (deadline : CancelSignal) : Option CancelSignal :=
  match options.timeout with
  | none => none
  | some seconds =>
    if seconds == 0 then none
    else some (deadline.within seconds)

/-- The answers for the program: the lines of the input file, or else of standard input. -/
def Options.answers (options : Options) (world : World) : Except Crash Input :=
  match options.input with
  | some name =>
    if name.isEmpty then .ok standard else (readText world name).map Input.ofText
  | none => .ok standard
where
  /-- Standard input, cut at line feeds. -/
  standard : Input :=
    .lines ((Text.newlineLines (String.ofList (Text.unifyNewlines world.stdin.toList))).map some)

/-- Why no file can be written under a name, if none can. -/
def obstacle? (world : World) (name : String) : Option Crash :=
  match world.look name with
  | .directory => some .fileIsDirectory
  | .nameTooLong => some .nameTooLong
  | _ => none

/-- Runs a program that has its answers. -/
def runWith (options : Options) (world : World) (answers : Input) (program : Tree) : Outcome :=
  let setup : Setup := { signal := options.signal world.deadline, level := options.verbosity }
  let (session, report) := Session.run ⟨setup, { input := answers }, #[], true⟩ program
  let outcome : Outcome :=
    { ending := .status 0
      stdout := unlines session.state.output.toList
      writes :=
        if 0 < options.verbosity then [(traceFile, unlines session.record.toList)] else [] }
  match report.failure with
  | none => outcome
  | some (.problem line problem) =>
    { outcome with
      ending := .status 1
      stderr := (Mistake.runtime line problem).text ++ "\n"
      problem := some problem }
  | some failure => { outcome with ending := .crash (.run failure) }

/-- Runs a program.  The answers have to be there first, and then the file of the trace. -/
def execute (options : Options) (world : World) (program : Tree) : Outcome :=
  match options.answers world with
  | .error crash => { ending := .crash crash }
  | .ok answers =>
    match if 0 < options.verbosity then obstacle? world traceFile else none with
    | some crash => { ending := .crash crash }
    | none => runWith options world answers program

/-- Reads a program from a source file. -/
def readProgram (options : Options) (world : World) (name : String) : Except Outcome Program := do
  let source ← readSubject world name
  match options.frontEnd.parse source with
  | .ok program => return program
  | .error mistake => throw (reported 1 mistake.text)

/-- The file that the tree of a program is written to. -/
def treeFile (name : String) : String :=
  ((Path.ofText name).normalize.extend ".ast.json").text

/-- Writes the tree of a program to a file beside its source.  The tree is turned into JSON before
the file is opened. -/
def emit (options : Options) (world : World) (name : String) : Outcome :=
  match readProgram options world name with
  | .error outcome => outcome
  | .ok program =>
    match program.toTree.toJson Tree.room with
    | .error error => { ending := .crash (.codec error) }
    | .ok json =>
      let target := treeFile name
      match obstacle? world target with
      | some crash => { ending := .crash crash }
      | none =>
        if json.isWritable then
          { ending := .status 0
            stdout := target ++ "\n"
            writes := [(target, json.indented)] }
        else { ending := .crash (.json .integerTooLong) }

/-- Runs the program whose tree a file holds. -/
def executeTree (options : Options) (world : World) (name : String) : Outcome :=
  match readSubject world name with
  | .error outcome => outcome
  | .ok text =>
    match Json.read Tree.room text with
    | .error error => { ending := .crash (.json error) }
    | .ok json =>
      match Tree.ofJson Tree.room json with
      | .error error => { ending := .crash (.codec error) }
      | .ok tree => execute options world tree

/-- An option that was given and is not empty. -/
def given? (value : Option String) : Option String :=
  value.filter fun s => !s.isEmpty

/-- Does what the options ask for. -/
def perform (options : Options) (world : World) : Outcome :=
  match given? options.emit, given? options.tree, given? options.program with
  | some name, _, _ => emit options world name
  | none, some name, _ => executeTree options world name
  | none, none, some name =>
    match readProgram options world name with
    | .error outcome => outcome
    | .ok program => execute options world program.toTree
  | none, none, none => misused .programMissing

/-- The paths that a command may look at. -/
def Options.paths (options : Options) : List String :=
  let subjects := [options.emit, options.tree, options.program].filterMap given?
  traceFile :: (given? options.input).toList ++ subjects.map (Path.ofText · |>.normalize.text) ++
    (given? options.emit).toList.map treeFile

/-- Does what the arguments ask for. -/
def invoke (args : List String) (world : World) : Outcome :=
  match Options.parse args with
  | .error error => misused error
  | .ok none => { ending := .status 0 }
  | .ok (some options) => perform options world

/-- The disk after a command. -/
def Disk.apply (disk : Disk) (outcome : Outcome) : Disk :=
  outcome.writes.foldl (fun disk (name, text) => disk.write name text) disk

end Parlance.CommandLine
