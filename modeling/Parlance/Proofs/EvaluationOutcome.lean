import Parlance.Proofs.Operators
import Parlance.Proofs.Outcome
import Parlance.Proofs.SourceLines

/-!
# What evaluating an expression of a program can give

The names of a program are bound to numbers, texts and truth values only.  In such an environment
the expressions of a program evaluate to such values, or to a problem at one of their own lines; the
faults that loose trees can lead to do not come up.
-/

namespace Parlance

/-- The values of the language: numbers, texts and truth values. -/
def Tree.IsValue : Tree → Prop
  | .number _ | .text _ | .flag _ => True
  | _ => False

/-- Every name is bound to a value of the language. -/
def Environment.HoldsValues (env : Environment) : Prop :=
  ∀ b ∈ env.bindings, b.value.IsValue

/-- The failure is a problem at a line with a property. -/
def Failure.IsProblem (P : Nat → Prop) (failure : Failure) : Prop :=
  ∃ line problem, P line ∧ failure = .problem (lineTree line) problem

/-- The failure is a problem at a line with a property, which nesting that goes too deep still
lacks. -/
def Failure.InExpression (P : Nat → Prop) (failure : Failure) : Prop :=
  failure = .tooDeep ∨ failure.IsProblem P

/-- A value of the language, or a failure inside an expression. -/
abbrev Evaluates (P : Nat → Prop) : Except Failure Tree → Prop :=
  Gives Tree.IsValue (Failure.InExpression P)

theorem gives_problem {α : Type} {P : Nat → Prop} {ok : α → Prop} {line : Nat} (inside : P line)
    (problem : Problem) :
    Gives ok (Failure.InExpression P) (.error (.problem (lineTree line) problem)) :=
  .inr ⟨line, problem, inside, rfl⟩

/-! ## Operators and functions -/

section Operators

variable {P : Nat → Prop} {line : Nat}

theorem order_numbers (x y : Float) : Tree.order (.number x) (.number y) = Number.order x y := by
  simp [Tree.order, Tree.orderSizes, Tree.integer?]

/-- Values of one kind have an order. -/
theorem order_ne_incomparable {a b : Tree} (left : a.IsValue) (right : b.IsValue)
    (same : a.sameKind b = true) : Tree.order a b ≠ .incomparable := by
  cases a with
  | number x =>
    cases b with
    | number y =>
      rw [order_numbers]
      unfold Number.order
      repeat' split
      all_goals nofun
    | text | flag => simp [Tree.sameKind, Tree.kindName] at same
    | _ => cases right
  | text s =>
    cases b with
    | text t => simp [Tree.order]
    | number | flag => simp [Tree.sameKind, Tree.kindName] at same
    | _ => cases right
  | flag x =>
    cases b with
    | flag y => simp [Tree.order, Tree.orderSizes, Tree.orderInteger, Tree.integer?]
    | number | text => simp [Tree.sameKind, Tree.kindName] at same
    | _ => cases right
  | _ => cases left

/-- An operator with two operands makes a value of values or fails at its line. -/
theorem evaluates_applyBinary {op : BinaryOp} {a b : Tree} (inside : P line) (left : a.IsValue)
    (right : b.IsValue) :
    Evaluates P (applyBinary (.text op.symbol) (lineTree line) a b) := by
  have applied := applied_applyBinary op (lineTree line) a b
  generalize applyBinary (.text op.symbol) (lineTree line) a b = result at applied
  cases applied with
  | number | text | flag => exact trivial
  | problem known => exact gives_problem inside _
  | incomparable same none => exact absurd none (order_ne_incomparable left right same)

theorem evaluates_applyUnary {op : UnaryOp} {operand : Tree} (inside : P line) :
    Evaluates P (applyUnary (.text op.symbol) (lineTree line) operand) := by
  cases op with
  | not =>
    simp only [applyUnary, UnaryOp.symbol]
    split
    · exact trivial
    · exact gives_problem inside _
  | negate =>
    simp only [applyUnary, UnaryOp.symbol]
    split
    · exact trivial
    · exact gives_problem inside _

/-- A builtin gives a value or fails at the line of its call. -/
theorem evaluates_callBuiltin {name : String} {args : List Tree} (inside : P line) :
    Evaluates P (callBuiltin (.text name) (lineTree line) args) := by
  simp only [callBuiltin]
  split
  · exact gives_problem inside _
  · split
    · exact gives_problem inside _
    · split
      · exact gives_problem inside _
      · split
        · exact trivial
        · exact gives_problem inside _

end Operators

/-! ## Expressions -/

section Evaluate

variable {P : Nat → Prop} {env : Environment}

/-- The link comes from an operator of a program. -/
def Link.OnLines (P : Nat → Prop) (link : Link) : Prop :=
  ∃ (op : BinaryOp) (right : Expr) (line : Nat),
    link = ⟨.text op.symbol, right.toTree, lineTree line⟩ ∧ right.OnLines P ∧ P line

/-- The chain of an expression consists of expressions. -/
theorem exists_of_chainOnto (e : Expr) {links : List Link} (lines : e.OnLines P)
    (linkLines : ∀ link ∈ links, link.OnLines P) :
    ∃ head : Expr, (e.toTree.chainOnto links).1 = head.toTree ∧ head.OnLines P ∧
      ∀ link ∈ (e.toTree.chainOnto links).2, link.OnLines P := by
  cases e with
  | binary op left right line =>
    obtain ⟨ok, leftLines, rightLines⟩ := lines
    refine exists_of_chainOnto left leftLines (List.forall_mem_cons.2 ⟨?_, linkLines⟩)
    exact ⟨op, right, line, rfl, rightLines, ok⟩
  | number | text | flag | name | unary | call => exact ⟨_, rfl, lines, linkLines⟩

/-- A link gives a value or fails on one of its lines, if its right operand does. -/
theorem evaluates_resume {eval : Tree → Except Failure Tree} {left : Tree} {link : Link}
    (evals : ∀ e : Expr, e.OnLines P → Evaluates P (eval e.toTree))
    (value : left.IsValue) (lines : link.OnLines P) :
    Evaluates P (link.resume eval left) := by
  obtain ⟨op, right, line, rfl, rightLines, ok⟩ := lines
  have applied : Evaluates P (do
      applyBinary (.text op.symbol) (lineTree line) left (← eval right.toTree)) :=
    (evals right rightLines).bind fun v valueRight => evaluates_applyBinary ok value valueRight
  cases op with
  | and =>
    cases left with
    | flag b =>
      cases b with
      | true =>
        refine (evals right rightLines).bind fun v _ => ?_
        split
        · exact trivial
        · exact gives_problem ok _
      | false => exact trivial
    | number | text => exact gives_problem ok _
    | _ => cases value
  | or =>
    cases left with
    | flag b =>
      cases b with
      | true => exact trivial
      | false =>
        refine (evals right rightLines).bind fun v _ => ?_
        split
        · exact trivial
        · exact gives_problem ok _
    | number | text => exact gives_problem ok _
    | _ => cases value
  | _ => exact applied

/-- A name gives the value it is bound to or fails at its line. -/
theorem evaluates_get (values : env.HoldsValues) {name : String} {line : Nat} (ok : P line) :
    Evaluates P (env.get (.text name) (lineTree line)) := by
  have key : Gives (fun _ => True) (Failure.InExpression P) (Environment.keyOf (.text name)) :=
    trivial
  refine key.bind fun key _ => ?_
  split
  · next b found => exact values b (List.mem_of_find?_eq_some found)
  · exact gives_problem ok _

/-- An expression of a program has a value of the language, or a problem at one of its lines. -/
theorem evaluates_evaluate (values : env.HoldsValues) (room : Nat) (e : Expr)
    (lines : e.OnLines P) : Evaluates P (evaluate env room e.toTree) := by
  induction room generalizing e with
  | zero => exact .inl rfl
  | succ room ih =>
    cases e with
    | number | text | flag => exact trivial
    | name name line => exact evaluates_get values lines
    | unary op operand line =>
      exact (ih operand lines.2).bind fun v _ => evaluates_applyUnary lines.1
    | binary op left right line =>
      have none : ∀ link ∈ ([] : List Link), link.OnLines P := nofun
      obtain ⟨head, same, headLines, linkLines⟩ :=
        exists_of_chainOnto (.binary op left right line) lines none
      have headValue := ih head headLines
      rw [← same] at headValue
      exact headValue.bind fun v value =>
        gives_foldlM value fun link member w value' =>
          evaluates_resume ih value' (linkLines link member)
    | call name args line =>
      obtain ⟨ok, argLines⟩ := lines
      rw [Expr.allOnLines_iff] at argLines
      have each : ∀ t ∈ Expr.toTrees args, Evaluates P (evaluate env room t) := by
        rw [Expr.toTrees_eq_map]
        intro t listed
        obtain ⟨arg, member, rfl⟩ := List.mem_map.1 listed
        exact ih arg (argLines arg member)
      exact (gives_mapM each).bind fun _ _ => evaluates_callBuiltin ok

/-- A condition is decided or fails on one of its lines. -/
theorem gives_evaluateCondition (values : env.HoldsValues) (room : Nat) {e : Expr}
    (lines : e.OnLines P) :
    Gives (fun _ => True) (Failure.InExpression P) (evaluateCondition env room e.toTree) := by
  refine (evaluates_evaluate values room e lines).bind fun v _ => ?_
  split
  · exact trivial
  · have line : e.toTree.line? = some (lineTree e.line) := by cases e <;> rfl
    simp only [line]
    exact gives_problem lines.line _

end Evaluate

end Parlance
