import Parlance.Number.Shape
import Parlance.Tree

/-!
# Comparing values

Values of one kind are equal or not, and most kinds have an order: numbers by size, texts by code
point, lists by their first difference.  Nothing and nodes have no order.

Inside lists and nodes a number equals a number of another kind with the same size, and what is no
number equals itself, unlike at the top (`samePart` and `same`).

Values are compared to any depth.  That lists or nodes nested hundreds of levels deep cannot be
compared is left out, as it is for their texts (`Tree.shown`).
-/

namespace Parlance

/-- The outcome of asking how two values are ordered. -/
inductive Verdict
  | ordered (o : Ordering)
  | unordered
  | incomparable
  deriving DecidableEq, Repr

/-- The verdict with its sides exchanged. -/
def Verdict.swap : Verdict → Verdict
  | .ordered o => .ordered o.swap
  | other => other

namespace Number

/-- The order of two doubles; `nan` has none. -/
def order (x y : Float) : Verdict :=
  if x < y then .ordered .lt
  else if y < x then .ordered .gt
  else if x == y then .ordered .eq
  else .unordered

/-- The order of an integer and a double, without rounding either. -/
def orderMixed (n : Int) (x : Float) : Verdict :=
  match shape x with
  | .nan => .unordered
  | .infinite negative => .ordered (if negative then .gt else .lt)
  | .finite negative mantissa exponent =>
    let size : Int := (mantissa <<< exponent.toNat : Nat)
    .ordered (compare (n * (1 <<< (-exponent).toNat : Nat)) (if negative then -size else size))

/-- The two doubles are equal, or neither is a number. -/
def same (x y : Float) : Bool :=
  x == y || (x.isNaN && y.isNaN)

end Number

namespace Tree

/-- The integer behind a truth value or an integer. -/
def integer? : Tree → Option Int
  | .flag b => some (if b then 1 else 0)
  | .int n => some n
  | _ => none

/-- The order of an integer and any value, by their size. -/
def orderInteger (m : Int) : Tree → Verdict
  | .number y => Number.orderMixed m y
  | b =>
    match b.integer? with
    | some n => .ordered (compare m n)
    | none => .incomparable

/-- The order of two values by their size, if both have one. -/
def orderSizes (a b : Tree) : Verdict :=
  match a.integer?, a with
  | some m, _ => orderInteger m b
  | none, .number x =>
    match b.integer?, b with
    | some n, _ => (Number.orderMixed n x).swap
    | none, .number y => Number.order x y
    | none, _ => .incomparable
  | none, _ => .incomparable

mutual

/-- The two trees are equal as parts of lists or nodes. -/
def samePart : Tree → Tree → Bool
  | .null, t =>
    match t with
    | .null => true
    | _ => false
  | .flag b, t => orderInteger (if b then 1 else 0) t == .ordered .eq
  | .int n, t => orderInteger n t == .ordered .eq
  | .number x, t =>
    match t with
    | .number y => Number.same x y
    | _ => orderSizes (.number x) t == .ordered .eq
  | .text a, t =>
    match t with
    | .text b => a == b
    | _ => false
  | .list as, t =>
    match t with
    | .list bs => sameParts as bs
    | _ => false
  | .program a, t =>
    match t with
    | .program b => samePart a b
    | _ => false
  | .block a, t =>
    match t with
    | .block b => samePart a b
    | _ => false
  | .declare name value fixed line, t =>
    match t with
    | .declare name' value' fixed' line' =>
      samePart name name' && samePart value value' && samePart fixed fixed' && samePart line line'
    | _ => false
  | .assign name value line, t =>
    match t with
    | .assign name' value' line' =>
      samePart name name' && samePart value value' && samePart line line'
    | _ => false
  | .say value line, t =>
    match t with
    | .say value' line' => samePart value value' && samePart line line'
    | _ => false
  | .display value line, t =>
    match t with
    | .display value' line' => samePart value value' && samePart line line'
    | _ => false
  | .ask name line, t =>
    match t with
    | .ask name' line' => samePart name name' && samePart line line'
    | _ => false
  | .branch condition body line, t =>
    match t with
    | .branch condition' body' line' =>
      samePart condition condition' && samePart body body' && samePart line line'
    | _ => false
  | .choose branches otherwise line, t =>
    match t with
    | .choose branches' otherwise' line' =>
      samePart branches branches' && samePart otherwise otherwise' && samePart line line'
    | _ => false
  | .range name first last body line, t =>
    match t with
    | .range name' first' last' body' line' =>
      samePart name name' && samePart first first' && samePart last last' && samePart body body' &&
        samePart line line'
    | _ => false
  | .whilst condition body line, t =>
    match t with
    | .whilst condition' body' line' =>
      samePart condition condition' && samePart body body' && samePart line line'
    | _ => false
  | .leave line, t =>
    match t with
    | .leave line' => samePart line line'
    | _ => false
  | .next line, t =>
    match t with
    | .next line' => samePart line line'
    | _ => false
  | .numberLit value line, t =>
    match t with
    | .numberLit value' line' => Number.same value value' && samePart line line'
    | _ => false
  | .nanLit origin line, t =>
    match t with
    | .nanLit origin' line' => origin == origin' && samePart line line'
    | _ => false
  | .textLit value line, t =>
    match t with
    | .textLit value' line' => samePart value value' && samePart line line'
    | _ => false
  | .flagLit value line, t =>
    match t with
    | .flagLit value' line' => samePart value value' && samePart line line'
    | _ => false
  | .ident name line, t =>
    match t with
    | .ident name' line' => samePart name name' && samePart line line'
    | _ => false
  | .unary op operand line, t =>
    match t with
    | .unary op' operand' line' =>
      samePart op op' && samePart operand operand' && samePart line line'
    | _ => false
  | .binary op left right line, t =>
    match t with
    | .binary op' left' right' line' =>
      samePart op op' && samePart left left' && samePart right right' && samePart line line'
    | _ => false
  | .call name args line, t =>
    match t with
    | .call name' args' line' => samePart name name' && samePart args args' && samePart line line'
    | _ => false

/-- The two lists are equal part by part. -/
def sameParts : List Tree → List Tree → Bool
  | [], ts => ts.isEmpty
  | a :: as, ts =>
    match ts with
    | b :: bs => samePart a b && sameParts as bs
    | [] => false

end

/-- The two values are equal. -/
def same (a b : Tree) : Bool :=
  match a, b with
  | .number x, .number y => x == y
  | a, b => samePart a b

mutual

/-- How two values are ordered. -/
def order : Tree → Tree → Verdict
  | .text a, t =>
    match t with
    | .text b => .ordered (if a < b then .lt else if b < a then .gt else .eq)
    | _ => .incomparable
  | .list as, t =>
    match t with
    | .list bs => orderParts as bs
    | _ => .incomparable
  | a, b => orderSizes a b

/-- Lists are ordered by their first difference. -/
def orderParts : List Tree → List Tree → Verdict
  | [], [] => .ordered .eq
  | [], _ :: _ => .ordered .lt
  | _ :: _, [] => .ordered .gt
  | a :: as, b :: bs => if samePart a b then orderParts as bs else order a b

end

end Tree

end Parlance
