import Parlance.Proofs.Operators
import Parlance.Proofs.Outcome

/-!
# What one operation can fail with

Evaluating an expression and binding a name come to an end, with a value or with a failure of their
own.  Such a failure is plain: it is no loop that was given up, and it does not report a signal that
no loop has taken.  This holds of loose trees as well.
-/

namespace Parlance

/-- The problem does not report a signal that no loop has taken. -/
def Problem.IsPlain : Problem → Prop
  | .leaveOutsideLoop | .nextOutsideLoop => False
  | _ => True

/-- The failure is neither a loop that was given up nor a signal that no loop has taken. -/
def Failure.IsPlain : Failure → Prop
  | .endless => False
  | .problem _ cause => cause.IsPlain
  | .fault _ | .tooDeep => True

/-- If the result is a failure, it is a plain one. -/
abbrev Plain {α : Type} : Except Failure α → Prop :=
  Gives (fun _ => True) Failure.IsPlain

/-- A plain failure stays plain when it is given its line. -/
theorem Failure.IsPlain.at {failure : Failure} (plain : failure.IsPlain) (line : Tree) :
    (failure.at line).IsPlain := by
  cases failure with
  | tooDeep => trivial
  | problem | fault | endless => exact plain

theorem Plain.bind {α β : Type} {first : Except Failure α} {next : α → Except Failure β}
    (given : Plain first) (onward : ∀ a, Plain (next a)) : Plain (first >>= next) :=
  Gives.bind given fun a _ => onward a

/-! ## Operators and functions -/

/-- What a builtin complains about is plain. -/
theorem isPlain_of_apply {f : Builtin} {xs : List Float} {problem : Problem}
    (failed : f.apply xs = .error problem) : problem.IsPlain := by
  unfold Builtin.apply at failed
  repeat' split at failed
  all_goals cases failed <;> trivial

theorem Problem.OfBinary.isPlain {problem : Problem} (known : problem.OfBinary) :
    problem.IsPlain := by
  cases known <;> trivial

/-- Operators fail plainly: their problems are those of their operands. -/
theorem plain_apply {op : BinaryOp} {line a b : Tree} : Plain (op.apply line a b) := by
  have applied := op.applied line a b
  generalize op.apply line a b = result at applied
  cases applied with
  | number | text | flag | incomparable => trivial
  | problem known => exact known.isPlain

/-- An operator with two operands fails plainly, an unknown one included. -/
theorem plain_applyBinary {op line a b : Tree} : Plain (applyBinary op line a b) := by
  unfold applyBinary
  split
  · split
    · exact plain_apply
    · trivial
  all_goals trivial

theorem plain_applyUnary {op line operand : Tree} : Plain (applyUnary op line operand) := by
  unfold applyUnary
  split
  · split
    · trivial
    · trivial
  · split
    · trivial
    · trivial
  · trivial

/-- A call fails plainly, whatever its name and its arguments are. -/
theorem plain_callBuiltin {name line : Tree} {args : List Tree} :
    Plain (callBuiltin name line args) := by
  unfold callBuiltin
  split
  · trivial
  · split
    · trivial
    · split
      · trivial
      · split
        · trivial
        · split
          · trivial
          · next failed => exact isPlain_of_apply failed
  · split
    · trivial
    · trivial

/-! ## Expressions -/

/-- A link fails plainly if its right operand does. -/
theorem plain_resume {eval : Tree → Except Failure Tree} {left : Tree} {link : Link}
    (evals : ∀ t, Plain (eval t)) : Plain (link.resume eval left) := by
  unfold Link.resume
  dsimp only
  split
  · refine Plain.bind (evals link.right) fun v => ?_
    split
    · trivial
    · trivial
  · trivial
  · trivial
  · refine Plain.bind (evals link.right) fun v => ?_
    split
    · trivial
    · trivial
  · trivial
  · trivial
  · exact Plain.bind (evals link.right) fun _ => plain_applyBinary

theorem plain_keyOf (name : Tree) : Plain (Environment.keyOf name) := by
  unfold Environment.keyOf
  split
  · trivial
  · trivial

/-- A name that is not bound is a plain failure. -/
theorem plain_get {env : Environment} {name line : Tree} : Plain (env.get name line) := by
  refine Plain.bind (plain_keyOf name) fun key => ?_
  split
  · trivial
  · trivial

/-- An expression fails plainly, hand-made trees included; the induction is on the room. -/
theorem plain_evaluate (env : Environment) (room : Nat) (t : Tree) :
    Plain (evaluate env room t) := by
  induction room generalizing t with
  | zero => trivial
  | succ room ih =>
    cases t with
    | numberLit | nanLit | textLit | flagLit => trivial
    | ident name line => exact plain_get
    | unary op operand line => exact Plain.bind (ih operand) fun _ => plain_applyUnary
    | binary op left right line =>
      refine Plain.bind (ih _) fun v => ?_
      exact gives_foldlM trivial fun link _ w _ => plain_resume ih
    | call name args line =>
      cases items : args.elements? with
      | some ts =>
        simp only [evaluate, items]
        exact Gives.bind (gives_mapM fun t _ => ih t) fun _ _ => plain_callBuiltin
      | none =>
        simp only [evaluate, items]
        trivial
    | _ => trivial

/-- A condition fails plainly, also where its value is no truth value. -/
theorem plain_evaluateCondition (env : Environment) (room : Nat) (t : Tree) :
    Plain (evaluateCondition env room t) := by
  refine Plain.bind (plain_evaluate env room t) fun v => ?_
  split
  · trivial
  · split
    · trivial
    · trivial

/-! ## Bindings -/

theorem plain_declare (env : Environment) (name value fixed line : Tree) :
    Plain (env.declare name value fixed line) := by
  refine Plain.bind (plain_keyOf name) fun key => ?_
  split
  · trivial
  · trivial

theorem plain_assign (env : Environment) (name value line : Tree) :
    Plain (env.assign name value line) := by
  refine Plain.bind (plain_keyOf name) fun key => ?_
  split
  · trivial
  · split
    · trivial
    · trivial

/-- Binding a name that is fixed is a plain failure. -/
theorem plain_bind (env : Environment) (name value line : Tree) :
    Plain (env.bind name value line) := by
  refine Plain.bind (plain_keyOf name) fun key => ?_
  split
  · trivial
  · trivial

end Parlance
