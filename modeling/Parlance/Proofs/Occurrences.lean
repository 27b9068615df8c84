import Parlance.Evaluation

/-!
# What occurs in a program

The expressions and the targets of a program (`Program.occurrences`): every expression that a
statement evaluates, and every name that one binds.  The parts of an expression are itself and the
expressions inside it.  From these come the names, the targets and the number literals of a program.
-/

namespace Parlance

/-! ## Expressions -/

/-- To prove something of an expression, prove it from the same for its operands or arguments. -/
@[elab_as_elim]
theorem Expr.induction {motive : Expr → Prop} (number : ∀ value line, motive (.number value line))
    (text : ∀ content line, motive (.text content line))
    (flag : ∀ value line, motive (.flag value line)) (name : ∀ name line, motive (.name name line))
    (unary : ∀ op operand line, motive operand → motive (.unary op operand line))
    (binary : ∀ op left right line, motive left → motive right →
      motive (.binary op left right line))
    (call : ∀ name args line, (∀ arg ∈ args, motive arg) → motive (.call name args line))
    (e : Expr) : motive e := by
  refine @Expr.rec motive (fun es => ∀ e ∈ es, motive e) number text flag name unary binary call
    ?_ ?_ e
  · intro e none
    cases none
  · intro e es first rest
    exact List.forall_mem_cons.2 ⟨first, rest⟩

mutual

/-- An expression and all expressions inside it. -/
def Expr.parts (e : Expr) : List Expr :=
  e :: match e with
    | .number .. | .text .. | .flag .. | .name .. => []
    | .unary _ operand _ => operand.parts
    | .binary _ left right _ => left.parts ++ right.parts
    | .call _ args _ => Expr.allParts args

/-- Some expressions and all expressions inside them. -/
def Expr.allParts : List Expr → List Expr
  | [] => []
  | e :: es => e.parts ++ Expr.allParts es

end

/-- The name that an expression is. -/
def Expr.name? : Expr → Option String
  | .name id _ => some id
  | _ => none

/-- The number that an expression is. -/
def Expr.number? : Expr → Option Float
  | .number value _ => some value
  | _ => none

/-- The names in an expression. -/
def Expr.names (e : Expr) : List String :=
  e.parts.filterMap Expr.name?

/-- The numbers in an expression. -/
def Expr.numbers (e : Expr) : List Float :=
  e.parts.filterMap Expr.number?

namespace Expr

variable {e part : Expr}

theorem mem_allParts {es : List Expr} : part ∈ allParts es ↔ ∃ e ∈ es, part ∈ e.parts := by
  induction es with
  | nil => simp [allParts]
  | cons e es ih => simp [allParts, ih]

theorem self_mem_parts (e : Expr) : e ∈ e.parts := by
  rw [parts.eq_def]
  exact List.mem_cons_self

/-- The parts of a part are parts of the whole. -/
theorem parts_subset (inside : part ∈ e.parts) : part.parts ⊆ e.parts := by
  induction e using Expr.induction with
  | number | text | flag | name =>
    rw [parts, List.mem_singleton] at inside
    rw [inside]
    exact List.Subset.refl _
  | unary op operand line ih =>
    rw [parts, List.mem_cons] at inside
    rcases inside with rfl | inside
    · exact List.Subset.refl _
    · rw [parts]
      exact List.subset_cons_of_subset _ (ih inside)
  | binary op left right line ihLeft ihRight =>
    rw [parts, List.mem_cons, List.mem_append] at inside
    rcases inside with rfl | inside | inside
    · exact List.Subset.refl _
    · rw [parts]
      exact List.subset_cons_of_subset _ (List.subset_append_of_subset_left _ (ihLeft inside))
    · rw [parts]
      exact List.subset_cons_of_subset _ (List.subset_append_of_subset_right _ (ihRight inside))
  | call name args line ih =>
    rw [parts, List.mem_cons, mem_allParts] at inside
    rcases inside with rfl | ⟨arg, listed, inside⟩
    · exact List.Subset.refl _
    · rw [parts]
      exact List.subset_cons_of_subset _ fun part deeper =>
        mem_allParts.2 ⟨arg, listed, ih arg listed inside deeper⟩

theorem names_subset (inside : part ∈ e.parts) : part.names ⊆ e.names :=
  List.filterMap_subset _ (parts_subset inside)

theorem numbers_subset (inside : part ∈ e.parts) : part.numbers ⊆ e.numbers :=
  List.filterMap_subset _ (parts_subset inside)

theorem numbers_unary (op : UnaryOp) (e : Expr) (line : Nat) :
    (Expr.unary op e line).numbers = e.numbers := by
  rw [numbers, parts]
  rfl

theorem numbers_binary (op : BinaryOp) (left right : Expr) (line : Nat) :
    (Expr.binary op left right line).numbers = left.numbers ++ right.numbers := by
  rw [numbers, parts]
  exact List.filterMap_append

/-- The numbers of a call are those of its arguments. -/
theorem mem_numbers_call {id : String} {args : List Expr} {line : Nat} {x : Float} :
    x ∈ (Expr.call id args line).numbers ↔ ∃ arg ∈ args, x ∈ arg.numbers := by
  have whole : (Expr.call id args line).numbers = (allParts args).filterMap number? := by
    rw [numbers, parts]
    rfl
  rw [whole]
  constructor
  · intro listed
    obtain ⟨part, inside, same⟩ := List.mem_filterMap.1 listed
    obtain ⟨arg, member, inside⟩ := mem_allParts.1 inside
    exact ⟨arg, member, List.mem_filterMap.2 ⟨part, inside, same⟩⟩
  · intro found
    obtain ⟨arg, member, listed⟩ := found
    obtain ⟨part, inside, same⟩ := List.mem_filterMap.1 listed
    exact List.mem_filterMap.2 ⟨part, mem_allParts.2 ⟨arg, member, inside⟩, same⟩

/-- The chain of an expression consists of parts of it. -/
theorem exists_parts_of_chainOnto (e : Expr) (links : List Link) :
    (∃ head ∈ e.parts, (e.toTree.chainOnto links).1 = head.toTree) ∧
      ∀ link ∈ (e.toTree.chainOnto links).2,
        link ∈ links ∨ ∃ right ∈ e.parts, link.right = right.toTree := by
  cases e with
  | binary op left right line =>
    obtain ⟨⟨head, inside, same⟩, others⟩ :=
      exists_parts_of_chainOnto left (⟨.text op.symbol, right.toTree, lineTree line⟩ :: links)
    have lefts : left.parts ⊆ (Expr.binary op left right line).parts :=
      parts_subset (by simp [parts, self_mem_parts])
    refine ⟨⟨head, lefts inside, same⟩, fun link listed => ?_⟩
    rcases others link listed with earlier | ⟨operand, inside, same⟩
    · rcases List.mem_cons.1 earlier with rfl | earlier
      · exact .inr ⟨right, by simp [parts, self_mem_parts], rfl⟩
      · exact .inl earlier
    · exact .inr ⟨operand, lefts inside, same⟩
  | number | text | flag | name | unary | call =>
    exact ⟨⟨_, self_mem_parts _, rfl⟩, fun link listed => .inl listed⟩

end Expr

/-! ## Statements -/

/-- An expression that a statement evaluates, or a name that it binds. -/
inductive Occurrence
  | value (e : Expr)
  | target (name : String)

mutual

/-- What occurs in a statement. -/
def Stmt.occurrences : Stmt → List Occurrence
  | .declare name value _ _ | .assign name value _ => [.value value, .target name]
  | .say value _ | .display value _ => [.value value]
  | .ask name _ => [.target name]
  | .choose branches none _ => Branch.allOccurrences branches
  | .choose branches (some body) _ => Branch.allOccurrences branches ++ Stmt.allOccurrences body
  | .range name first last body _ =>
    .value first :: .value last :: .target name :: Stmt.allOccurrences body
  | .whilst condition body _ => .value condition :: Stmt.allOccurrences body
  | .leave _ | .next _ => []

/-- What occurs in a branch. -/
def Branch.occurrences : Branch → List Occurrence
  | .mk condition body _ => .value condition :: Stmt.allOccurrences body

/-- What occurs in some statements. -/
def Stmt.allOccurrences : List Stmt → List Occurrence
  | [] => []
  | s :: ss => s.occurrences ++ Stmt.allOccurrences ss

/-- What occurs in some branches. -/
def Branch.allOccurrences : List Branch → List Occurrence
  | [] => []
  | b :: bs => b.occurrences ++ Branch.allOccurrences bs

end

theorem Stmt.forall_allOccurrences {P : Occurrence → Prop} {ss : List Stmt} :
    (∀ o ∈ Stmt.allOccurrences ss, P o) ↔ ∀ s ∈ ss, ∀ o ∈ s.occurrences, P o := by
  induction ss with
  | nil => simp [Stmt.allOccurrences]
  | cons s ss ih => rw [Stmt.allOccurrences, List.forall_mem_append, List.forall_mem_cons, ih]

theorem Branch.forall_allOccurrences {P : Occurrence → Prop} {bs : List Branch} :
    (∀ o ∈ Branch.allOccurrences bs, P o) ↔ ∀ b ∈ bs, ∀ o ∈ b.occurrences, P o := by
  induction bs with
  | nil => simp [Branch.allOccurrences]
  | cons b bs ih => rw [Branch.allOccurrences, List.forall_mem_append, List.forall_mem_cons, ih]

namespace Occurrence

/-- The expression that an occurrence is. -/
def value? : Occurrence → Option Expr
  | .value e => some e
  | .target _ => none

/-- The target that an occurrence is. -/
def target? : Occurrence → Option String
  | .value _ => none
  | .target name => some name

/-- The expression that an occurrence is, if it is one, has a property. -/
def Over (P : Expr → Prop) : Occurrence → Prop
  | .value e => P e
  | .target _ => True

end Occurrence

namespace Program

/-- What occurs in a program. -/
def occurrences (p : Program) : List Occurrence :=
  Stmt.allOccurrences p.body

/-- All expressions in a program, those inside others included. -/
def parts (p : Program) : List Expr :=
  (p.occurrences.filterMap Occurrence.value?).flatMap Expr.parts

/-- The number literals of a program. -/
def numbers (p : Program) : List Float :=
  p.parts.filterMap Expr.number?

/-- The names that a program binds: by `set` and `keep`, by a change, by `ask` and in loops. -/
def targets (p : Program) : List String :=
  p.occurrences.filterMap Occurrence.target?

/-- The names in a program: those in its expressions and those that it binds. -/
def names (p : Program) : List String :=
  p.parts.filterMap Expr.name? ++ p.targets

variable {p : Program}

theorem mem_targets {name : String} (occurs : .target name ∈ p.occurrences) :
    name ∈ p.targets :=
  List.mem_filterMap.2 ⟨_, occurs, rfl⟩

theorem parts_subset {e : Expr} (occurs : .value e ∈ p.occurrences) : e.parts ⊆ p.parts :=
  fun _ inside => List.mem_flatMap.2 ⟨e, List.mem_filterMap.2 ⟨_, occurs, rfl⟩, inside⟩

theorem numbers_subset {e : Expr} (occurs : .value e ∈ p.occurrences) : e.numbers ⊆ p.numbers :=
  List.filterMap_subset _ (parts_subset occurs)

/-- A part of the program is a part of one of the expressions that it evaluates. -/
theorem exists_of_mem_parts {part : Expr} (inside : part ∈ p.parts) :
    ∃ e, .value e ∈ p.occurrences ∧ part ∈ e.parts := by
  obtain ⟨e, listed, inside⟩ := List.mem_flatMap.1 inside
  obtain ⟨o, occurs, same⟩ := List.mem_filterMap.1 listed
  cases o with
  | value e' =>
    cases same
    exact ⟨e, occurs, inside⟩
  | target => cases same

end Program

end Parlance
