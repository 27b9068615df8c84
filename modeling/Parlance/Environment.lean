import Parlance.Problem

/-!
# Environments

The names that a program has bound, in the order in which they were first bound.  There is one
environment for the whole program; blocks do not open a scope.  A binding made with a true flag is
fixed: it is never replaced.

A name is usually a text, but a hand-made tree can have any value for a name.  Values that are equal
as numbers are one name, the spelling that came first; lists and nodes are no names.
-/

namespace Parlance

/-- What tells one name from another. -/
inductive Key
  | text (s : String)
  | nothing
  | whole (n : Int)
  | fraction (bits : UInt64)
  deriving DecidableEq, Repr

/-- The key of a name. -/
def Key.of? : Tree → Option Key
  | .text s => some (.text s)
  | .null => some .nothing
  | .flag b => some (.whole (if b then 1 else 0))
  | .int n => some (.whole n)
  | .number x =>
    match Number.whole? x with
    | some n => some (.whole n)
    | none => some (.fraction x.toBits)
  | _ => none

/-- A name with its value. -/
structure Binding where
  key : Key
  name : Tree
  value : Tree
  fixed : Tree

/-- The bindings of a program, in the order in which the names came up. -/
structure Environment where
  bindings : List Binding := []

namespace Environment

/-- The key of a name; what cannot be a name is a fault. -/
def keyOf (name : Tree) : Except Failure Key :=
  match Key.of? name with
  | some key => .ok key
  | none => .error (.fault .wrongType)

/-- The binding of a key. -/
def find? (env : Environment) (key : Key) : Option Binding :=
  env.bindings.find? fun b => b.key == key

/-- The key is bound to a fixed value. -/
def isFixed (env : Environment) (key : Key) : Bool :=
  match env.find? key with
  | some b => b.fixed.isTrue
  | none => false

/-- Gives a key a value and a flag, at its old place or else at the end. -/
def put (env : Environment) (key : Key) (name value fixed : Tree) : Environment :=
  if (env.find? key).isSome then
    ⟨env.bindings.map fun b => if b.key = key then { b with value, fixed } else b⟩
  else ⟨env.bindings ++ [⟨key, name, value, fixed⟩]⟩

/-- The value of a name. -/
def get (env : Environment) (name line : Tree) : Except Failure Tree := do
  let key ← keyOf name
  match env.find? key with
  | some b => .ok b.value
  | none => .error (.problem line (.undefinedName name.plain))

/-- The name is bound. -/
def contains (env : Environment) (name : Tree) : Except Failure Bool := do
  let key ← keyOf name
  return (env.find? key).isSome

/-- The flag of a name; a name that is not bound has none. -/
def flagOf (env : Environment) (name : Tree) : Except Failure Tree := do
  let key ← keyOf name
  return ((env.find? key).map Binding.fixed).getD (.flag false)

/-- The names in the order in which they came up. -/
def names (env : Environment) : List Tree :=
  env.bindings.map Binding.name

/-- Binds a name anew, unless it is fixed. -/
def declare (env : Environment) (name value fixed line : Tree) : Except Failure Environment := do
  let key ← keyOf name
  if env.isFixed key then .error (.problem line (.redeclaredFixed name.plain))
  else .ok (env.put key name value fixed)

/-- Changes the value of a name that is bound and not fixed; its flag stays. -/
def assign (env : Environment) (name value line : Tree) : Except Failure Environment := do
  let key ← keyOf name
  match env.find? key with
  | none => .error (.problem line (.undefinedName name.plain))
  | some b =>
    if b.fixed.isTrue then .error (.problem line (.assignedFixed name.plain))
    else .ok (env.put key name value b.fixed)

/-- Binds a name that may change, unless it is fixed: loop variables and answers. -/
def bind (env : Environment) (name value line : Tree) : Except Failure Environment := do
  let key ← keyOf name
  if env.isFixed key then .error (.problem line (.assignedFixed name.plain))
  else .ok (env.put key name value (.flag false))

end Environment

end Parlance
