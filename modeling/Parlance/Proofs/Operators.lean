import Parlance.Operator

/-!
# What a binary operator gives

A binary operator gives a number that has been checked, a text or a truth value, or it has a problem
at its line; only on values of one kind without an order it fails for good (`Applied`).  What is
said of operators elsewhere is read off this list.
-/

namespace Parlance

/-- A problem that a binary operator can have. -/
inductive Problem.OfBinary : Problem → Prop
  | overflow : OfBinary .overflow
  | divisionByZero : OfBinary .divisionByZero
  | arithmeticMismatch : OfBinary .arithmeticMismatch
  | comparisonMismatch : OfBinary .comparisonMismatch
  | unknownOperator (op : String) : OfBinary (.unknownOperator op)

/-- What a binary operator at the line can give for the two operands. -/
inductive Applied (line a b : Tree) : Except Failure Tree → Prop
  | number {x} (finite : Float.isFinite x = true) : Applied line a b (.ok (.number x))
  | text (s) : Applied line a b (.ok (.text s))
  | flag (holds) : Applied line a b (.ok (.flag holds))
  | problem {cause} (known : Problem.OfBinary cause) :
    Applied line a b (.error (.problem line cause))
  | incomparable (same : a.sameKind b = true) (none : Tree.order a b = .incomparable) :
    Applied line a b (.error (.fault .wrongType))

section

variable {line a b : Tree}

theorem applied_finiteResult (x : Float) : Applied line a b (atLine line (finiteResult x)) := by
  unfold finiteResult
  split
  · next finite => exact .number finite
  · exact .problem .overflow

theorem applied_arithmetic {f : Float → Float → Except Problem Tree}
    (each : ∀ x y, Applied line a b (atLine line (f x y))) :
    Applied line a b (atLine line (arithmetic f a b)) := by
  unfold arithmetic
  split
  · exact each _ _
  · exact .problem .arithmeticMismatch

theorem applied_unlessZero (f : Float → Float → Float) (x y : Float) :
    Applied line a b (atLine line (unlessZero f x y)) := by
  unfold unlessZero
  split
  · exact .problem .divisionByZero
  · exact applied_finiteResult _

theorem applied_addValues : Applied line a b (atLine line (addValues a b)) := by
  unfold addValues
  split
  · exact .text _
  · exact applied_arithmetic fun _ _ => applied_finiteResult _

theorem applied_compareSame (wanted : Bool) : Applied line a b (compareSame wanted line a b) := by
  unfold compareSame
  split
  · exact .flag _
  · exact .problem .comparisonMismatch

/-- A comparison gives a truth value or complains about its operands. -/
theorem applied_compareBy (holds : Ordering → Bool) :
    Applied line a b (compareBy holds line a b) := by
  unfold compareBy
  split
  · next same =>
    split
    · exact .flag _
    · exact .flag _
    · next none => exact .incomparable same none
  · exact .problem .comparisonMismatch

/-- Every operator with two operands gives what `Applied` lists, and nothing else. -/
theorem BinaryOp.applied (op : BinaryOp) (line a b : Tree) :
    Applied line a b (op.apply line a b) := by
  cases op with
  | or | and => exact .problem (.unknownOperator _)
  | add => exact applied_addValues
  | subtract | multiply => exact applied_arithmetic fun _ _ => applied_finiteResult _
  | divide | remainder => exact applied_arithmetic fun _ _ => applied_unlessZero _ _ _
  | equal | unequal => exact applied_compareSame _
  | less | lessEqual | greater | greaterEqual => exact applied_compareBy _

/-- The operators of a program are the known ones. -/
theorem applied_applyBinary (op : BinaryOp) (line a b : Tree) :
    Applied line a b (applyBinary (.text op.symbol) line a b) := by
  simp only [applyBinary, BinaryOp.ofSymbol?_symbol]
  exact op.applied line a b

end

end Parlance
