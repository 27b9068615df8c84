import Parlance.Number.Reading
import Parlance.Text.Quoted

/-!
# The options of the command line

Arguments are first told apart one by one: options, plain arguments, and the separator `--` after
which everything is plain.  A long option may be cut short as long as it stays unambiguous, and may
have its value after `=`.  Short options may be run together.  A minus sign before digits, or a
blank inside, makes an argument plain.  Then the arguments are taken in order, and the first mistake
is reported; only arguments that nothing wants are collected and reported at the very end.
-/

namespace Parlance.CommandLine

/-- The options there are. -/
inductive Flag
  | help | verbose | contextual | timeout | input | emit | tree
  deriving DecidableEq, Repr

/-- The spellings of the options. -/
def spellings : List (String × Flag) :=
  [("-h", .help), ("--help", .help), ("-v", .verbose), ("--lark", .contextual),
   ("--timeout", .timeout), ("--input", .input), ("--emit-ast", .emit), ("--ast", .tree)]

/-- The option takes a value. -/
def Flag.takesValue : Flag → Bool
  | .help | .verbose | .contextual => false
  | .timeout | .input | .emit | .tree => true

/-- All spellings of an option. -/
def Flag.name (flag : Flag) : String :=
  "/".intercalate ((spellings.filter fun s => s.2 = flag).map (·.1))

/-- What is asked for. -/
structure Options where
  verbosity : Nat := 0
  contextual : Bool := false
  timeout : Option Float := none
  input : Option String := none
  emit : Option String := none
  tree : Option String := none
  program : Option String := none

/-- What is wrong with the arguments. -/
inductive UsageError
  | ambiguous (arg : String) (options : List String)
  | valueMissing (flag : Flag)
  | valueIgnored (flag : Flag) (value : String)
  | notANumber (flag : Flag) (value : String)
  | conflict (flag other : Flag)
  | unrecognized (args : List String)
  | programMissing

/-- The wording of a mistake in the arguments. -/
def UsageError.message : UsageError → String
  | .ambiguous arg options =>
    "ambiguous option: " ++ arg ++ " could match " ++ ", ".intercalate options
  | .valueMissing flag => "argument " ++ flag.name ++ ": expected one argument"
  | .valueIgnored flag value =>
    "argument " ++ flag.name ++ ": ignored explicit argument " ++ Text.quoted value
  | .notANumber flag value =>
    "argument " ++ flag.name ++ ": invalid float value: " ++ Text.quoted value
  | .conflict flag other =>
    "argument " ++ flag.name ++ ": not allowed with argument " ++ other.name
  | .unrecognized args => "unrecognized arguments: " ++ " ".intercalate args
  | .programMissing => "missing program file; or use --emit-ast/--ast"

/-- An argument by its looks.  An option can have a value attached to it. -/
inductive Piece
  | plain (arg : String)
  | separator
  | option (flag : Flag) (spelling : String) (attached : Option String)
  | unknown (arg : String)

/-- Splits an argument at its first `=`. -/
def splitEquals (arg : String) : String × Option String :=
  let cs := arg.toList
  match cs.dropWhile (· ≠ '=') with
  | _ :: value => (String.ofList (cs.takeWhile (· ≠ '=')), some (String.ofList value))
  | [] => (arg, none)

/-- The option of exactly this spelling. -/
def flagOf? (spelling : String) : Option Flag :=
  (spellings.find? fun s => s.1 == spelling).map (·.2)

/-- The options that an argument may be short for. -/
def candidates (arg : String) : List (Flag × String × Option String) :=
  match arg.toList with
  | '-' :: '-' :: _ =>
    let (start, attached) := splitEquals arg
    spellings.filterMap fun (spelling, flag) =>
      if start.toList.isPrefixOf spelling.toList then some (flag, spelling, attached) else none
  | '-' :: c :: rest =>
    spellings.filterMap fun (spelling, flag) =>
      if spelling.toList = ['-', c] then some (flag, spelling, some (String.ofList rest))
      else if arg.toList.isPrefixOf spelling.toList then some (flag, spelling, none)
      else none
  | _ => []

/-- A minus sign and a number without an exponent. -/
def looksNegative (arg : String) : Bool :=
  match arg.toList with
  | '-' :: rest =>
    let rest := if rest.getLast? = some '\n' then rest.dropLast else rest
    let (whole, tail) := Number.spanDigits Text.digitValue? rest
    match tail with
    | [] => !whole.isEmpty
    | '.' :: fraction =>
      let (digits, tail) := Number.spanDigits Text.digitValue? fraction
      !digits.isEmpty && tail.isEmpty
    | _ => false
  | _ => false

/-- Tells what an argument before the separator looks like. -/
def classify (arg : String) : Except UsageError Piece :=
  match arg.toList with
  | '-' :: _ :: _ =>
    match flagOf? arg with
    | some flag => .ok (.option flag arg none)
    | none =>
      let (start, attached) := splitEquals arg
      match flagOf? start, attached with
      | some flag, some value => .ok (.option flag start (some value))
      | _, _ =>
        match candidates arg with
        | [(flag, spelling, attached)] => .ok (.option flag spelling attached)
        | [] =>
          if looksNegative arg || arg.toList.contains ' ' then .ok (.plain arg)
          else .ok (.unknown arg)
        | several => .error (.ambiguous arg (several.map (·.2.1)))
  | _ => .ok (.plain arg)

/-- Tells what all arguments look like. -/
def classifyAll : List String → Except UsageError (List Piece)
  | [] => .ok []
  | "--" :: args => .ok (.separator :: args.map .plain)
  | arg :: args => do
    let piece ← classify arg
    let pieces ← classifyAll args
    return piece :: pieces

/-- What has been taken so far: the options, the arguments that nothing wants, whether the program
has been given its chance, and whether help was asked for. -/
structure Progress where
  options : Options := {}
  extras : List String := []
  programTaken : Bool := false
  help : Bool := false

/-- Takes an option without a value. -/
def Progress.mark (p : Progress) (flag : Flag) : Progress :=
  match flag with
  | .help => { p with help := true }
  | .verbose => { p with options := { p.options with verbosity := p.options.verbosity + 1 } }
  | .contextual => { p with options := { p.options with contextual := true } }
  | _ => p

/-- Takes an option with its value.  The separator in the place of a value leaves the option given,
but empty. -/
def Progress.set (p : Progress) (flag : Flag) (value : String) : Except UsageError Progress :=
  let isEmpty := value == "--"
  let value := if isEmpty then "" else value
  match flag with
  | .timeout =>
    if isEmpty then .ok { p with options := { p.options with timeout := none } }
    else
      match Number.read? value with
      | some x => .ok { p with options := { p.options with timeout := some x } }
      | none => .error (.notANumber flag value)
  | .input => .ok { p with options := { p.options with input := some value } }
  | .emit =>
    if p.options.tree.isSome then .error (.conflict .emit .tree)
    else .ok { p with options := { p.options with emit := some value } }
  | .tree =>
    if p.options.emit.isSome then .error (.conflict .tree .emit)
    else .ok { p with options := { p.options with tree := some value } }
  | _ => .ok p

/-- Takes a short option and those that are run together with it. -/
def Progress.markShort (p : Progress) (flag : Flag) : List Char → Except UsageError Progress
  | [] => .ok (p.mark flag)
  | c :: rest =>
    match flagOf? (String.ofList ['-', c]) with
    | some next => (p.mark flag).markShort next rest
    | none => .error (.valueIgnored flag (String.ofList (c :: rest)))

/-- Takes an option that has no value of its own, with what is attached to it: to a short option,
more short options, with or without `=` in between. -/
def Progress.markWith (p : Progress) (flag : Flag) (spelling : String) :
    Option String → Except UsageError Progress
  | none => .ok (p.mark flag)
  | some value =>
    if spelling.toList.length = 2 && !value.isEmpty then p.markShort flag value.toList
    else .error (.valueIgnored flag value)

/-- Gives the program its argument. -/
def Progress.withProgram (p : Progress) (program : Option String) : Progress :=
  { p with programTaken := true, options := { p.options with program } }

/-- Takes the pieces in order.  Asking for help ends it. -/
def takeAll (p : Progress) : List Piece → Except UsageError Progress
  | [] => .ok p
  | .option flag spelling attached :: rest =>
    if flag.takesValue then
      match attached with
      | some value => do takeAll (← p.set flag value) rest
      | none =>
        match rest with
        | .plain value :: rest => do takeAll (← p.set flag value) rest
        | _ => .error (.valueMissing flag)
    else do
      let p ← p.markWith flag spelling attached
      if p.help then return p else takeAll p rest
  | .unknown arg :: rest => takeAll { p with extras := p.extras ++ [arg] } rest
  | .plain arg :: rest =>
    if p.programTaken then takeAll { p with extras := p.extras ++ [arg] } rest
    else
      match rest with
      | .separator :: rest => takeAll (p.withProgram (some arg)) rest
      | rest => takeAll (p.withProgram (some arg)) rest
  | .separator :: rest =>
    if p.programTaken then takeAll { p with extras := p.extras ++ ["--"] } rest
    else
      match rest with
      | .plain arg :: rest => takeAll (p.withProgram (some arg)) rest
      | rest => takeAll (p.withProgram none) rest
termination_by pieces => pieces.length

/-- What the arguments ask for; `none` is a call for help. -/
def Options.parse (args : List String) : Except UsageError (Option Options) := do
  let p ← takeAll {} (← classifyAll args)
  if p.help then return none
  if p.extras.isEmpty then return some p.options
  else throw (.unrecognized p.extras)

end Parlance.CommandLine
