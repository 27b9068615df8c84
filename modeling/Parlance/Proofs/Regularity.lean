import Mathlib
import Parlance.Proofs.Chains
import Parlance.Proofs.FloatClasses
import Parlance.Proofs.Literals
import Parlance.Proofs.Operators
import Parlance.Proofs.Persistence
import Parlance.Proofs.StrictLockstep

/-!
# No number out of nothing

The values of a program are numbers in the narrow sense: none of them is NaN, in no state of no run;
and where the literals of the program and the numbers in its input are finite, all of them are.

The results of binary operators are checked.  Negation, functions, literals, answers and the
counters of loops are not, so the argument is about what they do with a number (`Hereditary`): each
way to come by a number keeps being a number, and each keeps being finite.  The rest holds for every
such property, along the evaluation of an expression and along a run.
-/

namespace Parlance

/-- A property of doubles that all finite ones have, and that goes from the operands to the result
wherever the result is not checked. -/
structure Hereditary (good : Float → Prop) : Prop where
  finite : ∀ {x}, x.isFinite = true → good x
  neg : ∀ {x}, good x → good (-x)
  abs : ∀ {x}, good x → good x.abs
  sqrt : ∀ {x}, good x → ¬ x < 0 → good x.sqrt
  power : ∀ {x y z}, good x → good y → Number.power x y = .ok z → good z
  count : ∀ {x y}, good x → good y → x + 1.0 ≤ y → good (x + 1.0)

theorem hereditary_number : Hereditary fun x => x.isNaN = false where
  finite := Number.isNaN_of_isFinite
  neg := Number.isNaN_neg
  abs := Number.isNaN_abs
  sqrt := Number.isNaN_sqrt
  power := Number.isNaN_of_power
  count := fun number _ _ => Number.isNaN_add_one number

theorem hereditary_finite : Hereditary fun x => x.isFinite = true where
  finite := id
  neg := Number.isFinite_neg
  abs := Number.isFinite_abs
  sqrt := Number.isFinite_sqrt
  power := Number.isFinite_of_power
  count := Number.isFinite_add_one

/-- The value is no number or one with a property. -/
def Tree.NumberIs (good : Float → Prop) (v : Tree) : Prop :=
  ∀ x, v = .number x → good x

/-! ## Expressions -/

/-- The value of an expression, if there is one, has the property if it is a number. -/
abbrev Yields (good : Float → Prop) : Except Failure Tree → Prop :=
  Gives (Tree.NumberIs good) fun _ => True

section Expressions

variable {good : Float → Prop}

theorem numberIs_flag (b : Bool) : (Tree.flag b).NumberIs good := by
  intro x same
  cases same

theorem numberIs_number {x : Float} (ok : good x) : (Tree.number x).NumberIs good := by
  intro y same
  cases same
  exact ok

/-- The number that a binary operator gives has been checked. -/
theorem yields_applyBinary (hereditary : Hereditary good) (op : BinaryOp) (line a b : Tree) :
    Yields good (applyBinary (.text op.symbol) line a b) := by
  have applied := applied_applyBinary op line a b
  generalize applyBinary (.text op.symbol) line a b = result at applied
  cases applied with
  | number finite => exact numberIs_number (hereditary.finite finite)
  | text s =>
    intro x same
    cases same
  | flag holds => exact numberIs_flag holds
  | problem | incomparable => trivial

/-- An operator with one operand makes good numbers of good ones. -/
theorem yields_applyUnary (hereditary : Hereditary good) (op : UnaryOp) {line operand : Tree}
    (ok : operand.NumberIs good) : Yields good (applyUnary (.text op.symbol) line operand) := by
  cases op with
  | not =>
    simp only [applyUnary, UnaryOp.symbol]
    split
    · exact numberIs_flag _
    · trivial
  | negate =>
    simp only [applyUnary, UnaryOp.symbol]
    split
    · exact numberIs_number (hereditary.neg (ok _ rfl))
    · trivial

/-- Numbers among good values are good. -/
theorem good_of_numbers? {args : List Tree} {xs : List Float} (found : numbers? args = some xs)
    (all : ∀ v ∈ args, v.NumberIs good) : ∀ x ∈ xs, good x := by
  fun_induction numbers? args generalizing xs with
  | case1 =>
    cases found
    simp
  | case2 x rest ih =>
    obtain ⟨first, others⟩ := List.forall_mem_cons.1 all
    obtain ⟨ys, after, rfl⟩ := Option.map_eq_some_iff.1 found
    exact List.forall_mem_cons.2 ⟨first x rfl, ih after others⟩
  | case3 => cases found

/-- A builtin makes good numbers of good ones. -/
theorem good_of_apply (hereditary : Hereditary good) {f : Builtin} {xs : List Float} {z : Float}
    (all : ∀ x ∈ xs, good x) (found : f.apply xs = .ok z) : good z := by
  unfold Builtin.apply at found
  split at found
  · split at found
    · cases found
    · next defined =>
      cases found
      exact hereditary.sqrt (all _ List.mem_cons_self) defined
  · cases found
    exact hereditary.abs (all _ List.mem_cons_self)
  · split at found
    · cases found
    · next number =>
      split at found
      · cases found
      · next bounded =>
        cases found
        exact hereditary.finite (Number.isFinite_floor
          (Number.isFinite_of_not (Bool.eq_false_iff.2 number) (Bool.eq_false_iff.2 bounded)))
  · split at found
    · next result power =>
      cases found
      exact hereditary.power (all _ List.mem_cons_self)
        (all _ (List.mem_cons_of_mem _ List.mem_cons_self)) power
    · cases found
    · cases found
  · cases found

/-- A call makes good values of good ones. -/
theorem yields_callBuiltin (hereditary : Hereditary good) {name : String} {line : Tree}
    {args : List Tree} (all : ∀ v ∈ args, v.NumberIs good) :
    Yields good (callBuiltin (.text name) line args) := by
  simp only [callBuiltin]
  split
  · trivial
  · split
    · trivial
    · split
      · trivial
      · next xs found =>
        split
        · next result applied =>
          exact numberIs_number (good_of_apply hereditary (good_of_numbers? found all) applied)
        · trivial

/-- A name gives a good value if all bound values are good. -/
theorem yields_get {env : Environment} (bound : ∀ b ∈ env.bindings, b.value.NumberIs good)
    (name line : Tree) : Yields good (env.get name line) := by
  have key : Gives (fun _ => True) (fun _ => True) (Environment.keyOf name) := by
    cases Environment.keyOf name <;> trivial
  refine key.bind fun key _ => ?_
  split
  · next b found => exact bound b (List.mem_of_find?_eq_some found)
  · trivial

/-- The value of an expression has the property if it is a number: in an environment whose numbers
have it, and with literals that have it. -/
theorem yields_value (hereditary : Hereditary good) {env : Environment}
    (bound : ∀ b ∈ env.bindings, b.value.NumberIs good) {e : Expr}
    (literals : ∀ x ∈ e.numbers, good x) : Yields good (e.toTree.value env) := by
  induction e using Expr.induction with
  | number value line => exact numberIs_number (literals value List.mem_cons_self)
  | text content line =>
    intro x same
    cases same
  | flag value line => exact numberIs_flag value
  | name id line => exact yields_get bound _ _
  | unary op operand line ih =>
    rw [Expr.numbers_unary] at literals
    rw [Expr.toTree, Tree.value]
    exact (ih literals).bind fun v ok => yields_applyUnary hereditary op ok
  | binary op left right line ihLeft ihRight =>
    rw [Expr.numbers_binary] at literals
    obtain ⟨inLeft, inRight⟩ := List.forall_mem_append.1 literals
    rw [Expr.toTree, Tree.value]
    refine (ihLeft inLeft).bind fun first _ => ?_
    -- What the operands are does not matter here: the result is a flag or has been checked.
    split
    · exact (ihRight inRight).bind fun second _ => yields_applyBinary hereditary op _ _ _
    · split
      · split
        · exact numberIs_flag _
        · refine (ihRight inRight).bind fun second _ => ?_
          split
          · exact numberIs_flag _
          · trivial
      · trivial
  | call id args line ih =>
    have each : ∀ t ∈ Expr.toTrees args, Yields good (t.value env) := by
      rw [Expr.toTrees_eq_map]
      intro t listed
      obtain ⟨arg, member, rfl⟩ := List.mem_map.1 listed
      exact ih arg member fun x inside => literals x (Expr.mem_numbers_call.2 ⟨arg, member, inside⟩)
    rw [Expr.toTree, Tree.value, Tree.values_eq_mapM]
    exact (gives_mapM each).bind fun args all => yields_callBuiltin hereditary all

/-- An expression over good literals and a good environment has a good value. -/
theorem yields_evaluate (hereditary : Hereditary good) {env : Environment}
    (bound : ∀ b ∈ env.bindings, b.value.NumberIs good) {e : Expr}
    (literals : ∀ x ∈ e.numbers, good x) (room : Nat) :
    Yields good (evaluate env room e.toTree) := by
  rcases agrees_evaluate env room e.toTree with same | ⟨deep, _⟩
  · rw [same]
    exact yields_value hereditary bound literals
  · rw [deep]
    trivial

end Expressions

/-! ## Runs -/

/-- The lines that are left to answer from. -/
def Input.rest : Input → List (Option String)
  | .closed => []
  | .lines rest | .queue rest => rest

/-- The numbers in a state have a property: those that are bound, and those that the lines of the
input spell. -/
structure State.Bears (good : Float → Prop) (s : State) : Prop where
  bound : ∀ b ∈ s.env.bindings, b.value.NumberIs good
  answers : ∀ line, some line ∈ s.input.rest → (answerOf (Text.chopLineEnd line)).NumberIs good

/-- A run and itself, in states whose numbers have a property. -/
def Setup.bearing (setup : Setup) (good : Float → Prop) : Pairing where
  left := setup
  right := setup
  lines := Eq
  states := fun s t => s = t ∧ t.Bears good
  short := fun _ _ _ _ => False
  onward := fun never _ _ => never

section Runs

open Machine Execution Pairing

variable {setup : Setup} {good : Float → Prop}

theorem lockstep_trace_bearing {level : Nat} {text : Unit → String} :
    (setup.bearing good).Lockstep Eq (trace level text) (trace level text) := by
  refine lockstep_trace_of rfl ?_
  rintro s _ ⟨rfl, bears⟩
  exact ⟨rfl, bears.bound, bears.answers⟩

/-- Bearing good numbers only is a relation that the machine keeps to. -/
theorem steady_bearing : (setup.bearing good).Steady where
  signal := rfl
  patience := rfl
  polls := by
    rintro s _ ⟨rfl, _⟩
    rfl
  asked := by
    rintro s _ ⟨rfl, bears⟩
    exact ⟨rfl, bears.bound, bears.answers⟩
  written := by
    rintro s _ line ⟨rfl, bears⟩
    exact ⟨rfl, bears.bound, bears.answers⟩
  step := by
    rintro line _ what rfl
    exact lockstep_trace_bearing
  binding := fun _ _ _ => lockstep_trace_bearing

/-- A line that is answered is one of those in the input, and the others stay there. -/
theorem pairs_readLine_bearing :
    (setup.bearing good).Pairs
      (fun a b => a = b ∧ ∀ answer ∈ a, (answerOf answer).NumberIs good) readLine readLine := by
  rintro s _ ⟨rfl, bears⟩
  change (setup.bearing good).Paired _ (readLine setup s) (readLine setup s)
  have looked : (get : Machine State) setup s = .ok s s := rfl
  rw [readLine, bind_of_ok looked]
  have taken {line : Option String} {rest : List (Option String)} (input : Input)
      (before : s.input.rest = line :: rest) (after : input.rest = rest) :
      (setup.bearing good).Paired (fun a b => a = b ∧ ∀ answer ∈ a, (answerOf answer).NumberIs good)
        (.ok (line.map Text.chopLineEnd) { s with input })
        (.ok (line.map Text.chopLineEnd) { s with input }) := by
    have answers := bears.answers
    rw [before] at answers
    refine .ok ⟨rfl, ?_⟩ ⟨rfl, bears.bound, ?_⟩
    · intro answer found
      obtain ⟨line, rfl, rfl⟩ := Option.map_eq_some_iff.1 found
      exact answers line List.mem_cons_self
    · intro line listed
      refine answers line (List.mem_cons_of_mem _ ?_)
      rw [← after]
      exact listed
  cases input : s.input with
  | closed => exact .ok ⟨rfl, by simp⟩ ⟨rfl, bears⟩
  | lines lines =>
    cases lines with
    | nil => exact .ok ⟨rfl, by simp⟩ ⟨rfl, bears⟩
    | cons line rest => exact taken (.lines rest) (congrArg Input.rest input) rfl
  | queue lines =>
    cases lines with
    | nil =>
      exact (lockstep_wait steady_bearing rfl rfl ⟨rfl, by simp⟩).paired s s ⟨rfl, bears⟩
    | cons line rest => exact taken (.queue rest) (congrArg Input.rest input) rfl

/-- What occurs in a program with good literals evaluates to good values. -/
theorem attends_bearing (hereditary : Hereditary good) {p : Program}
    (literals : ∀ x ∈ p.numbers, good x) :
    (setup.bearing good).Attends (· ∈ p.occurrences) (Tree.NumberIs good) where
  toSteady := steady_bearing
  room := rfl
  same := fun _ => rfl
  never := id
  looked := by
    rintro e s _ occurs ⟨rfl, bears⟩ room
    refine ⟨rfl, fun v found => ?_⟩
    have yields := yields_evaluate hereditary bears.bound
      (fun x listed => literals x (Program.numbers_subset occurs listed)) room
    rw [found] at yields
    exact yields
  found := by
    rintro name s _ _ ⟨rfl, _⟩
    rfl
  bound := by
    rintro name s _ value fixed _ ⟨rfl, bears⟩ ok
    exact ⟨rfl, Environment.forall_value_put bears.bound ok, bears.answers⟩
  answers := pairs_readLine_bearing
  counts := fun counter last within =>
    numberIs_number (hereditary.count (counter _ rfl) (last _ rfl) within)

/-- A run of a program keeps a property that the numbers in its state and its literals have. -/
theorem Session.bears_run (session : Session) (hereditary : Hereditary good) {p : Program}
    (literals : ∀ x ∈ p.numbers, good x) (bears : session.state.Bears good) :
    (session.run p.toTree).1.state.Bears good := by
  have attends : (session.setup.bearing good).Attends _ _ := attends_bearing hereditary literals
  have lockstep := attends.lockstep_runProgram fun o => id
  obtain ⟨_, _, ends⟩ := attends.ends (fun _ _ => id) (lockstep.paired
    { session.state with trace := #[] } _ ⟨rfl, bears.bound, bears.answers⟩)
  have top : p.toTree.topLevel = .ok (Stmt.toTrees p.body) := rfl
  obtain ⟨trace, same⟩ := exists_trace_runTraced session.setup session.state (Stmt.toTrees p.body)
  rw [(session.run_of_topLevel top).1, same]
  exact ⟨ends.bound, ends.answers⟩

end Runs

/-! ## What is never NaN, and what is finite -/

/-- Reading a line of input gives no NaN. -/
theorem numberIs_answerOf (line : String) : (answerOf line).NumberIs fun x => x.isNaN = false := by
  unfold answerOf
  split
  · next x read =>
    exact numberIs_number (Number.isNaN_of_plain? read)
  · intro x same
    cases same

/-- The state is one of those that a run of the program comes through, or the last one. -/
def Session.Visits (session : Session) (program : Tree) (s : State) : Prop :=
  (∃ n, s = session.stateAt program n) ∨ s = (session.run program).1.state

/-- The numbers that a program has to do with in a state have a property: those that are bound, and
the values of its expressions. -/
structure State.NumbersAre (good : Float → Prop) (p : Program) (s : State) : Prop where
  bound : ∀ b ∈ s.env.bindings, b.value.NumberIs good
  values : ∀ e ∈ p.parts, ∀ room v, evaluate s.env room e.toTree = .ok v → v.NumberIs good

/-- Whatever state a run visits, the numbers of its environment and of all expressions there are
good. -/
theorem Session.numbersAre_of_visits (session : Session) {good : Float → Prop}
    (hereditary : Hereditary good) {p : Program} (literals : ∀ x ∈ p.numbers, good x)
    (bears : session.state.Bears good) {s : State} (visits : session.Visits p.toTree s) :
    s.NumbersAre good p := by
  have ends : s.Bears good := by
    rcases visits with ⟨n, rfl⟩ | rfl
    · exact Session.bears_run { session with setup := session.setup.cutAfter _ } hereditary literals
        bears
    · exact session.bears_run hereditary literals bears
  refine ⟨ends.bound, fun e inside room v found => ?_⟩
  obtain ⟨whole, occurs, part⟩ := Program.exists_of_mem_parts inside
  have listed {x : Float} (member : x ∈ e.numbers) : x ∈ p.numbers :=
    Program.numbers_subset occurs (Expr.numbers_subset part member)
  have yields := yields_evaluate hereditary ends.bound (fun x member => literals x (listed member))
    room
  rw [found] at yields
  exact yields

/-- A program that has been read and starts without names never has to do with NaN, in no state that
it comes through; and if its literals and the numbers in its input are finite, all the numbers that
it has to do with are. -/
theorem Session.run_numbers {frontEnd : FrontEnd} {source : String} {p : Program}
    (parsed : frontEnd.parse source = .ok p) (session : Session) (fresh : session.state.env = {}) :
    (∀ s, session.Visits p.toTree s → s.NumbersAre (fun x => x.isNaN = false) p) ∧
      ((∀ x ∈ p.numbers, x.isFinite = true) →
        (∀ line, some line ∈ session.state.input.rest →
          ∀ x, answerOf (Text.chopLineEnd line) = .number x → x.isFinite = true) →
        ∀ s, session.Visits p.toTree s → s.NumbersAre (fun x => x.isFinite = true) p) := by
  have unbound (good : Float → Prop) : ∀ b ∈ session.state.env.bindings, b.value.NumberIs good := by
    rw [fresh]
    simp
  refine ⟨fun s => ?_, fun literals answers s => ?_⟩
  · refine session.numbersAre_of_visits hereditary_number (fun x listed => ?_)
      ⟨unbound _, fun line _ => numberIs_answerOf _⟩
    obtain ⟨digits, rfl⟩ := FrontEnd.exists_literal_of_parse parsed listed
    exact Number.isNaN_literal digits
  · exact session.numbersAre_of_visits hereditary_finite literals ⟨unbound _, answers⟩

/-- A loop whose bounds come from an answer, by ways on which no result is checked. -/
theorem run_numbers_of_ask :
    let source := "ask n\nloop i = -n to n do end"
    let first : Expr := .unary .negate (.name "n" 2) 2
    let p : Program := ⟨[.ask "n" 1, .range "i" first (.name "n" 2) [] 2]⟩
    let session : Session := { setup := {}, state := { input := .lines [some "1\n"] } }
    FrontEnd.descent.parse source = .ok p ∧
      ∀ n, (session.stateAt p.toTree n).NumbersAre (fun x => x.isFinite = true) p := by
  intro source first p session
  have parsed : FrontEnd.descent.parse source = .ok p := by cbv
  refine ⟨parsed, fun n => (Session.run_numbers parsed session rfl).2 ?_ ?_ _ (.inl ⟨n, rfl⟩)⟩
  · intro x listed
    cases listed
  · intro line listed x answered
    obtain rfl : line = "1\n" := by simpa [session, Input.rest] using listed
    have finite : (Number.input? (Text.strip (Text.chopLineEnd "1\n").toList)).all Float.isFinite =
        true := by decide +kernel
    unfold answerOf at answered
    split at answered
    · next y read =>
      cases answered
      rw [read] at finite
      exact finite
    · cases answered

end Parlance
