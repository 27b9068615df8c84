import Parlance.Evaluation

/-!
# Chains of operators and plain recursion

`evaluate` lays out a chain of operators and works through it from the left, so that only what
stands to the right of an operator is one level deeper.  Plain recursion is simpler: the value of an
operation is that of its left operand, then that of its right one, put together (`Tree.value`).  The
two agree on every tree, hand-made ones included.  The only difference is the room: plain recursion
has no bound, and `evaluate` goes too deep only where the tree is nested deeper than its room, which
a chain on the left never is (`Tree.nesting`).

`Agrees` carries this through the parts of an evaluation: the same outcome, or too deep a nesting
for a reason.
-/

namespace Parlance

/-! ## Plain recursion -/

namespace Tree

/-- The truth value of the left operand with which an operator has its value already. -/
def decisive? : Tree → Option Bool
  | .text "and" => some false
  | .text "or" => some true
  | _ => none

mutual

/-- The value of an expression: the left operand of an operator comes first.  `and` and `or` want
two truth values, and look at the second one only if the first one does not decide; the other
operators are applied to the values of both operands. -/
def value (env : Environment) : Tree → Except Failure Tree
  | .numberLit value _ => .ok (.number value)
  | .nanLit .. => .ok (.number Number.nan)
  | .textLit value _ | .flagLit value _ => .ok value
  | .ident name line => env.get name line
  | .unary op operand line => do applyUnary op line (← operand.value env)
  | .binary op left right line => do
    let first ← left.value env
    match op.decisive? with
    | none => applyBinary op line first (← right.value env)
    | some decisive =>
      match first with
      | .flag b =>
        if b = decisive then .ok (.flag b)
        else
          match ← right.value env with
          | .flag c => .ok (.flag c)
          | _ => .error (.problem line .operandsNotFlags)
      | _ => .error (.problem line .operandsNotFlags)
  | .call name (.list items) line => do callBuiltin name line (← values env items)
  | .call name (.text s) line =>
    -- The arguments are the characters, and none of them is an expression.
    match s.toList with
    | [] => callBuiltin name line []
    | c :: _ => .error (.fault (.unexpectedExpression (.text (String.singleton c))))
  | .call .. => .error (.fault .wrongType)
  | other => .error (.fault (.unexpectedExpression other))

/-- The values of expressions, in order. -/
def values (env : Environment) : List Tree → Except Failure (List Tree)
  | [] => .ok []
  | t :: ts => do
    let first ← t.value env
    return first :: (← values env ts)

end

/-- The tree is an operation with two operands. -/
def isBinary : Tree → Bool
  | .binary .. => true
  | _ => false

mutual

/-- How deep an expression is nested.  In a chain of operators the left sides are as deep as the
chain itself, and its head is one level deeper. -/
def nesting : Tree → Nat
  | .unary _ operand _ => operand.nesting + 1
  | .binary _ left right _ =>
    max (if left.isBinary then left.nesting else left.nesting + 1) (right.nesting + 1)
  | .call _ (.list items) _ => nestings items + 1
  | .call _ (.text _) _ => 2
  | _ => 1

/-- How deep the deepest of some expressions is nested. -/
def nestings : List Tree → Nat
  | [] => 0
  | t :: ts => max t.nesting (nestings ts)

end

/-- A list is nested at least as deeply as each of its items. -/
theorem nesting_le_nestings {t : Tree} {ts : List Tree} (member : t ∈ ts) :
    t.nesting ≤ nestings ts := by
  induction ts with
  | nil => cases member
  | cons u ts ih =>
    rw [nestings]
    rcases List.mem_cons.1 member with rfl | member
    · exact Nat.le_max_left _ _
    · exact Nat.le_trans (ih member) (Nat.le_max_right _ _)

theorem values_eq_mapM (env : Environment) (ts : List Tree) :
    values env ts = ts.mapM (value env) := by
  induction ts with
  | nil => rfl
  | cons t ts ih => rw [values, List.mapM_cons, ih]

/-! ## A chain, link by link -/

/-- An operator that is not decided by its left operand is applied to both. -/
theorem resume_of_decisive?_eq_none {op : Tree} (undecided : op.decisive? = none)
    (eval : Tree → Except Failure Tree) (first right line : Tree) :
    Link.resume eval first ⟨op, right, line⟩ = eval right >>= applyBinary op line first := by
  have noAnd : op ≠ .text "and" := by
    rintro rfl
    cases undecided
  have noOr : op ≠ .text "or" := by
    rintro rfl
    cases undecided
  simp [Link.resume, noAnd, noOr]

theorem decisive?_cases (op : Tree) :
    op.decisive? = none ∨ op = .text "and" ∨ op = .text "or" := by
  unfold decisive?
  split
  · exact .inr (.inl rfl)
  · exact .inr (.inr rfl)
  · exact .inl rfl

/-- The value of an operation is that of its left operand with one more link resumed. -/
theorem value_binary (env : Environment) (op left right line : Tree) :
    (Tree.binary op left right line).value env =
      left.value env >>= fun first => Link.resume (value env) first ⟨op, right, line⟩ := by
  rw [value]
  refine bind_congr fun first => ?_
  rcases decisive?_cases op with undecided | rfl | rfl
  · rw [resume_of_decisive?_eq_none undecided, undecided]
  · cases first with
    | flag b => cases b <;> rfl
    | _ => rfl
  · cases first with
    | flag b => cases b <;> rfl
    | _ => rfl

/-- Induction along the left operands. -/
@[elab_as_elim]
theorem leftInduction {motive : Tree → Prop}
    (binary : ∀ op left right line, motive left → motive (.binary op left right line))
    (other : ∀ t, t.isBinary = false → motive t) (t : Tree) : motive t := by
  cases t with
  | binary op left right line =>
    exact binary op left right line (leftInduction binary other left)
  | _ => exact other _ rfl

theorem chainOnto_of_isBinary_eq_false {t : Tree} (single : t.isBinary = false)
    (links : List Link) : t.chainOnto links = (t, links) := by
  cases t with
  | binary => cases single
  | _ => rfl

/-- What is waiting for the value of a tree is as well waiting for the head of its chain, after the
links of the chain. -/
theorem value_chainOnto (env : Environment) (t : Tree) (links : List Link) :
    t.value env >>= links.foldlM (Link.resume (value env)) =
      (t.chainOnto links).1.value env >>=
        (t.chainOnto links).2.foldlM (Link.resume (value env)) := by
  induction t using leftInduction generalizing links with
  | binary op left right line ih =>
    rw [chainOnto, ← ih, value_binary, bind_assoc]
    rfl
  | other t single => rw [chainOnto_of_isBinary_eq_false single]

/-- The value of a chain is worked out from its head, link by link. -/
theorem value_chain (env : Environment) (t : Tree) :
    t.value env = t.chain.1.value env >>= t.chain.2.foldlM (Link.resume (value env)) := by
  have onto := value_chainOnto env t []
  have last : [].foldlM (Link.resume (value env)) = (pure : Tree → Except Failure Tree) :=
    funext fun v => List.foldlM_nil
  rw [last, bind_pure] at onto
  exact onto

theorem nesting_pos (t : Tree) : 0 < t.nesting := by
  fun_cases nesting t
  all_goals omega

/-- The head of the chain and the right sides of its links are nested less deep than the chain. -/
theorem nesting_chainOnto (t : Tree) (links : List Link) :
    (t.chainOnto links).1.nesting + (if t.isBinary then 1 else 0) ≤ t.nesting ∧
      ∀ link ∈ (t.chainOnto links).2, link ∈ links ∨ link.right.nesting + 1 ≤ t.nesting := by
  induction t using leftInduction generalizing links with
  | binary op left right line ih =>
    obtain ⟨head, others⟩ := ih (⟨op, right, line⟩ :: links)
    rw [chainOnto, nesting]
    refine ⟨?_, fun link member => ?_⟩
    · rw [isBinary, if_pos rfl]
      by_cases chained : left.isBinary = true
      · rw [if_pos chained] at head ⊢
        omega
      · rw [if_neg chained] at head ⊢
        omega
    · rcases others link member with listed | deep
      · rcases List.mem_cons.1 listed with rfl | listed
        · exact .inr (Nat.le_max_right _ _)
        · exact .inl listed
      · refine .inr (Nat.le_trans deep ?_)
        split <;> omega
  | other t single =>
    rw [chainOnto_of_isBinary_eq_false single, single]
    exact ⟨Nat.le_refl _, fun link member => .inl member⟩

end Tree

/-! ## The two agree -/

/-- The outcome is the other one, unless the nesting went too deep, for which there is a reason. -/
def Agrees {α : Type} (reason : Prop) (found plain : Except Failure α) : Prop :=
  found = plain ∨ found = .error .tooDeep ∧ reason

section Agrees

variable {α β : Type} {reason : Prop}

theorem Agrees.mono {reason' : Prop} {found plain : Except Failure α}
    (agrees : Agrees reason found plain) (weaker : reason → reason') :
    Agrees reason' found plain :=
  agrees.imp_right fun both => ⟨both.1, weaker both.2⟩

/-- Two computations agree if they agree link by link. -/
theorem Agrees.bind {found plain : Except Failure α} {next next' : α → Except Failure β}
    (agrees : Agrees reason found plain) (onward : ∀ a, Agrees reason (next a) (next' a)) :
    Agrees reason (found >>= next) (plain >>= next') := by
  rcases agrees with rfl | ⟨rfl, deep⟩
  · cases found with
    | ok a => exact onward a
    | error failure => exact .inl rfl
  · exact .inr ⟨rfl, deep⟩

/-- Lists of computations agree if each of their members does. -/
theorem agrees_mapM {f f' : α → Except Failure β} {items : List α}
    (each : ∀ a ∈ items, Agrees reason (f a) (f' a)) :
    Agrees reason (items.mapM f) (items.mapM f') := by
  induction items with
  | nil => exact .inl rfl
  | cons a items ih =>
    rw [List.forall_mem_cons] at each
    rw [List.mapM_cons, List.mapM_cons]
    exact each.1.bind fun b => (ih each.2).bind fun bs => .inl rfl

/-- Folds agree if each of their steps does, from every start. -/
theorem agrees_foldlM {f f' : β → α → Except Failure β} {items : List α}
    (each : ∀ a ∈ items, ∀ b, Agrees reason (f b a) (f' b a)) (start : β) :
    Agrees reason (items.foldlM f start) (items.foldlM f' start) := by
  induction items generalizing start with
  | nil => exact .inl rfl
  | cons a items ih =>
    rw [List.forall_mem_cons] at each
    rw [List.foldlM_cons, List.foldlM_cons]
    exact (each.1 start).bind fun b => ih each.2 b

/-- Resuming a link needs nothing but the value of its right operand. -/
theorem agrees_resume {eval eval' : Tree → Except Failure Tree} {link : Link}
    (right : Agrees reason (eval link.right) (eval' link.right)) (left : Tree) :
    Agrees reason (link.resume eval left) (link.resume eval' left) := by
  unfold Link.resume
  split
  · exact right.bind fun v => .inl rfl
  · exact .inl rfl
  · exact .inl rfl
  · exact right.bind fun v => .inl rfl
  · exact .inl rfl
  · exact .inl rfl
  · exact right.bind fun v => .inl rfl

end Agrees

/-- The evaluator agrees with the plain recursion, except that it gives up on a tree whose nesting
exceeds the room.  The induction is on the room; a chain of operators is followed link by link
within one unit of it. -/
theorem agrees_evaluate (env : Environment) (room : Nat) (t : Tree) :
    Agrees (room < t.nesting) (evaluate env room t) (t.value env) := by
  induction room generalizing t with
  | zero => exact .inr ⟨rfl, t.nesting_pos⟩
  | succ room ih =>
    have deeper {t : Tree} {n : Nat} (lower : t.nesting + 1 ≤ n) :
        Agrees (room + 1 < n) (evaluate env room t) (t.value env) :=
      (ih t).mono fun deep => Nat.lt_of_lt_of_le (Nat.succ_lt_succ deep) lower
    cases t with
    | unary op operand line =>
      rw [Tree.value, Tree.nesting]
      exact (deeper (Nat.le_refl _)).bind fun v => .inl rfl
    | binary op left right line =>
      obtain ⟨head, rights⟩ := (Tree.binary op left right line).nesting_chainOnto []
      rw [Tree.value_chain]
      refine (deeper head).bind fun v => agrees_foldlM (fun link member => agrees_resume ?_) v
      rcases rights link member with none | lower
      · cases none
      · exact deeper lower
    | call name args line =>
      cases args with
      | list items =>
        rw [Tree.value, Tree.nesting, Tree.values_eq_mapM]
        have each : ∀ t ∈ items, Agrees (room + 1 < Tree.nestings items + 1)
            (evaluate env room t) (t.value env) := fun t member =>
          deeper (Nat.succ_le_succ (Tree.nesting_le_nestings member))
        exact (agrees_mapM each).bind fun vs => .inl rfl
      | text s =>
        rw [Tree.value, Tree.nesting]
        simp only [evaluate, Tree.elements?]
        cases s.toList with
        | nil => exact .inl rfl
        | cons c cs =>
          rw [List.map_cons, List.mapM_cons]
          cases room with
          | zero => exact .inr ⟨rfl, by decide⟩
          | succ room => exact .inl rfl
      | _ => exact .inl rfl
    | _ => exact .inl rfl

/-- Evaluation agrees with plain recursion on every tree and in every environment: it gives the same
value or fails in the same way.  It goes too deep only if the tree is nested deeper than there is
room, and the length of a chain of operators does not count for that.  So the first failure from the
left is that of the whole: where a left operand fails, the right one does not matter. -/
theorem evaluate_agrees_with_recursion (env : Environment) (room : Nat) :
    (∀ t : Tree, evaluate env room t = t.value env ∨
      evaluate env room t = .error .tooDeep ∧ room < t.nesting) ∧
    ∀ (op left right line : Tree) (failure : Failure), left.value env = .error failure →
      evaluate env room (.binary op left right line) = .error failure ∨
        evaluate env room (.binary op left right line) = .error .tooDeep := by
  refine ⟨agrees_evaluate env room, fun op left right line failure failed => ?_⟩
  have whole : (Tree.binary op left right line).value env = .error failure := by
    rw [Tree.value_binary, failed]
    rfl
  rcases agrees_evaluate env room (.binary op left right line) with same | ⟨deep, _⟩
  · exact .inl (same.trans whole)
  · exact .inr deep

/-- An unknown operator to the left of a list, which is no expression: the operator is reported. -/
theorem evaluate_unknown_before_list :
    let line := lineTree 1
    let left : Tree := .binary (.text "?") (.flagLit (.flag true) line) (.textLit .null line) line
    let failure : Failure := .problem line (.unknownOperator "?")
    left.value {} = .error failure ∧
      evaluate {} 2 (.binary (.text "and") left (.list []) line) = .error failure := by
  intro line left failure
  have failed : left.value {} = .error failure := rfl
  refine ⟨failed, ?_⟩
  rcases (evaluate_agrees_with_recursion {} 2).2 (.text "and") left (.list []) line failure failed
    with same | deep
  · exact same
  · cases deep

end Parlance
