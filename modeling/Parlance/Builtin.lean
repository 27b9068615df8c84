import Parlance.Number.Operation
import Parlance.Problem

/-!
# The functions of the language

Four functions on numbers.  A call is checked in order for the name, the count of the arguments and
their kind; then the function itself may refuse its arguments.
-/

namespace Parlance

/-- The functions that a program can call. -/
inductive Builtin
  | sqrt | pow | abs | floor
  deriving DecidableEq, Repr

namespace Builtin

/-- All functions, by name. -/
def all : List Builtin :=
  [.abs, .floor, .pow, .sqrt]

/-- The name of a function. -/
def name : Builtin → String
  | .sqrt => "sqrt"
  | .pow => "pow"
  | .abs => "abs"
  | .floor => "floor"

/-- How many arguments a function takes. -/
def arity : Builtin → Nat
  | .pow => 2
  | .sqrt | .abs | .floor => 1

/-- How a function is shown. -/
def shown (f : Builtin) : String :=
  "<builtin " ++ f.name ++ ">"

/-- The function of a name. -/
def ofName? (s : String) : Option Builtin :=
  all.find? fun f => f.name == s

/-- The result for arguments of the right number. -/
def apply : Builtin → List Float → Except Problem Float
  | .sqrt, [x] => if x < 0 then .error .outsideDomain else .ok x.sqrt
  | .abs, [x] => .ok x.abs
  | .floor, [x] =>
    if x.isNaN then .error .floorOfNan
    else if x.isInf then .error .floorOfInfinity
    else .ok (Number.floor x)
  | .pow, [x, y] =>
    match Number.power x y with
    | .ok result => .ok result
    | .error .undefined => .error .outsideDomain
    | .error .tooLarge => .error .overflow
  | _, _ => .error .outsideDomain

end Builtin

/-- The numbers of a list of values that holds nothing else. -/
def numbers? : List Tree → Option (List Float)
  | [] => some []
  | .number x :: rest => (numbers? rest).map (x :: ·)
  | _ :: _ => none

/-- Calls the function that a tree names. -/
def callBuiltin (name line : Tree) (args : List Tree) : Except Failure Tree :=
  match name with
  | .list _ => .error (.fault .wrongType)
  | .text s =>
    match Builtin.ofName? s with
    | none => .error (.problem line (.unknownFunction s))
    | some f =>
      if args.length ≠ f.arity then
        .error (.problem line (.wrongArity s f.arity args.length))
      else
        match numbers? args with
        | none => .error (.problem line (.argumentsNotNumbers s))
        | some xs =>
          match f.apply xs with
          | .ok result => .ok (.number result)
          | .error problem => .error (.problem line problem)
  | other =>
    if other.kind?.isSome then .error (.fault .wrongType)
    else .error (.problem line (.unknownFunction other.plain))

end Parlance
