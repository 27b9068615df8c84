import Parlance.Proofs.Outcome

/-!
# More patience keeps what has been found

A loop is followed for as many rounds as the patience of the setup allows, and so is the wait for
the signal.  What a run brings about without running out of patience, it also brings about with
more of it.
-/

namespace Parlance

section Kept

open Machine Execution

variable {α β : Type} {setup : Setup} {more : Nat}

/-- The second computation gives with the greater patience what the first one gives, unless that has
given up on a loop. -/
def Kept (setup : Setup) (more : Nat) (m m' : Machine α) : Prop :=
  ∀ s, (∃ s', m setup s = .error .endless s') ∨ m' { setup with patience := more } s = m setup s

theorem kept_endless {m' : Machine α} : Kept setup more (throw .endless) m' :=
  fun s => .inl ⟨s, rfl⟩

/-- Computations in a row are kept if each of them is. -/
theorem Kept.bind {m m' : Machine α} {next next' : α → Machine β} (first : Kept setup more m m')
    (onward : ∀ a, Kept setup more (next a) (next' a)) :
    Kept setup more (m >>= next) (m' >>= next') := by
  intro s
  rcases first s with ⟨s', gaveUp⟩ | same
  · exact .inl ⟨s', bind_of_error gaveUp⟩
  · cases run : m setup s with
    | ok a s' =>
      rw [bind_of_ok run, bind_of_ok (same.trans run)]
      exact onward a s'
    | error failure s' =>
      exact .inr ((bind_of_error (same.trans run)).trans (bind_of_error run).symm)

theorem kept_get {next : State → Machine β} (onward : ∀ s, Kept setup more (next s) (next s)) :
    Kept setup more (get >>= next) (get >>= next) :=
  fun s => onward s s

theorem kept_read {next next' : Setup → Machine β}
    (onward : Kept setup more (next setup) (next' { setup with patience := more })) :
    Kept setup more (read >>= next) (read >>= next') :=
  fun s => onward s

theorem kept_pure {a : α} : Kept setup more (pure a) (pure a) :=
  fun _ => .inr rfl

theorem kept_throw {failure : Failure} :
    Kept setup more (throw failure : Machine α) (throw failure) :=
  fun _ => .inr rfl

theorem kept_modify {change : State → State} : Kept setup more (modify change) (modify change) :=
  fun _ => .inr rfl

/-- Asking the signal has nothing to do with patience. -/
theorem kept_poll : Kept setup more poll poll := by
  refine kept_read ?_
  dsimp only
  split
  · exact kept_pure
  · exact kept_get fun _ => kept_modify.bind fun _ => kept_pure

theorem kept_checkpoint {line : Tree} : Kept setup more (checkpoint line) (checkpoint line) := by
  refine kept_poll.bind fun isSet => ?_
  split
  · exact kept_throw
  · exact kept_pure

/-- Waiting goes on where it would have given up, and what ends before that is the same. -/
theorem kept_awaitSignal {atLast : Machine Unit} (bound extra : Nat)
    (last : Kept setup more atLast (awaitSignal atLast extra)) :
    Kept setup more (awaitSignal atLast bound) (awaitSignal atLast (bound + extra)) := by
  induction bound with
  | zero =>
    rw [Nat.zero_add]
    exact last
  | succ bound ih =>
    rw [Nat.succ_add]
    refine kept_poll.bind fun isSet => ?_
    split
    · exact kept_pure
    · exact ih

/-- Reading a line waits no longer than the run is patient, so more patience keeps what it gives. -/
theorem kept_readLine (le : setup.patience ≤ more) : Kept setup more readLine readLine := by
  refine kept_get fun s => ?_
  split
  · exact kept_pure
  · exact kept_pure
  · exact kept_modify.bind fun _ => kept_pure
  · exact kept_modify.bind fun _ => kept_pure
  · refine kept_read ?_
    dsimp only
    split
    · exact kept_read ((kept_awaitSignal (setup.renewals + 1) 0 kept_pure).bind fun _ => kept_pure)
    · obtain ⟨extra, rfl⟩ := Nat.exists_eq_add_of_le le
      exact kept_read ((kept_awaitSignal setup.patience extra kept_endless).bind fun _ => kept_pure)

theorem kept_trace {level : Nat} {text : Unit → String} :
    Kept setup more (trace level text) (trace level text) := by
  refine kept_read ?_
  dsimp only
  split
  · exact kept_modify
  · exact kept_pure

theorem kept_need {part : Option α} {fault : Fault} :
    Kept setup more (need part fault) (need part fault) := by
  cases part with
  | some found => exact kept_pure
  | none => exact kept_throw

theorem kept_inspect {line : Tree} {look : Environment → Except Failure α} :
    Kept setup more (inspect line look) (inspect line look) := by
  refine kept_get fun s => ?_
  split
  · exact kept_pure
  · exact kept_throw

/-- Changing the environment has nothing to do with patience. -/
theorem kept_update {change : Environment → Except Failure Environment} :
    Kept setup more (update change) (update change) := by
  refine kept_get fun s => ?_
  split
  · exact kept_modify
  · exact kept_throw

variable {execute : Tree → Machine Flow} {room : Nat}

/-- Statements in a row are kept if each of them is. -/
theorem kept_runAll (each : ∀ t, Kept setup more (execute t) (execute t)) (ts : List Tree) :
    Kept setup more (runAll execute ts) (runAll execute ts) := by
  induction ts with
  | nil => exact kept_pure
  | cons t ts ih =>
    refine kept_need.bind fun line => kept_checkpoint.bind fun _ => (each t).bind fun flow => ?_
    split
    · exact ih
    · exact kept_pure

theorem kept_runBlock (each : ∀ t, Kept setup more (execute t) (execute t)) (block : Tree) :
    Kept setup more (runBlock execute block) (runBlock execute block) :=
  kept_need.bind fun _ => kept_need.bind fun ts => kept_runAll each ts

/-- A choice is kept if its tests, its branches and its last alternative are. -/
theorem kept_runBranches (each : ∀ t, Kept setup more (execute t) (execute t))
    {holds : Tree → Machine Bool} (tests : ∀ t, Kept setup more (holds t) (holds t))
    {otherwise : Machine Flow} (last : Kept setup more otherwise otherwise)
    (branches : List Tree) :
    Kept setup more (runBranches execute holds otherwise branches)
      (runBranches execute holds otherwise branches) := by
  fun_induction runBranches execute holds otherwise branches with
  | case1 => exact last
  | case2 condition block line rest ih =>
    refine (tests condition).bind fun taken => ?_
    split
    · exact kept_trace.bind fun _ => kept_runBlock each block
    · exact ih
  | case3 condition body line rest ih =>
    refine (tests condition).bind fun taken => ?_
    split
    · exact kept_trace.bind fun _ => kept_throw
    · exact ih
  | case4 => exact kept_throw

/-- A loop that ends within its patience ends alike with more; the induction is on the rounds. -/
theorem kept_whileLoop {test : Machine Bool} {round : Machine Flow}
    (tests : Kept setup more test test) (rounds : Kept setup more round round)
    (patience extra : Nat) :
    Kept setup more (whileLoop test round patience) (whileLoop test round (patience + extra)) := by
  induction patience with
  | zero => exact kept_endless
  | succ patience ih =>
    rw [Nat.succ_add]
    refine tests.bind fun holds => ?_
    split
    · refine rounds.bind fun flow => ?_
      split
      · exact kept_pure
      · exact ih
    · exact kept_pure

/-- A range loop that ends within its patience ends alike with more. -/
theorem kept_rangeLoop {round : Float → Machine Flow} {last : Float}
    (rounds : ∀ counter, Kept setup more (round counter) (round counter)) (patience extra : Nat)
    (counter : Float) :
    Kept setup more (rangeLoop round last patience counter)
      (rangeLoop round last (patience + extra) counter) := by
  induction patience generalizing counter with
  | zero => exact kept_endless
  | succ patience ih =>
    rw [Nat.succ_add, rangeLoop, rangeLoop]
    split
    · refine (rounds counter).bind fun flow => ?_
      split
      · exact kept_pure
      · exact ih _
    · exact kept_pure

/-- A statement is kept if the statements inside it are.  The cases are the kinds of statements;
only loops and questions look at the patience. -/
theorem kept_step (le : setup.patience ≤ more)
    (each : ∀ t, Kept setup more (execute t) (execute t)) (t : Tree) :
    Kept setup more (step room execute t) (step room execute t) := by
  obtain ⟨extra, rfl⟩ := Nat.exists_eq_add_of_le le
  cases t with
  | declare | assign =>
    refine kept_inspect.bind fun _ => kept_update.bind fun _ => ?_
    exact kept_trace.bind fun _ => kept_pure
  | say | display =>
    exact kept_inspect.bind fun _ => kept_modify.bind fun _ => kept_pure
  | ask name line =>
    refine (kept_readLine le).bind fun answer => ?_
    split
    · exact kept_checkpoint.bind fun _ => kept_throw
    · exact kept_update.bind fun _ => kept_trace.bind fun _ => kept_pure
  | choose branches otherwise line =>
    refine kept_need.bind fun bs => kept_runBranches each (fun _ => kept_inspect) ?_ bs
    split
    · exact kept_pure
    · exact kept_trace.bind fun _ => kept_runBlock each otherwise
  | range name first last body line =>
    refine kept_inspect.bind fun start => kept_inspect.bind fun stop => ?_
    split
    · refine kept_read ((kept_rangeLoop (fun counter => ?_) _ extra _).bind fun _ => kept_pure)
      refine kept_checkpoint.bind fun _ => kept_update.bind fun _ => ?_
      exact kept_trace.bind fun _ => kept_runBlock each body
    · exact kept_throw
  | whilst condition body line =>
    refine kept_read ((kept_whileLoop ?_ ?_ _ extra).bind fun _ => kept_pure)
    · exact kept_checkpoint.bind fun _ => kept_inspect
    · exact kept_trace.bind fun _ => kept_runBlock each body
  | leave | next => exact kept_pure
  | _ => exact kept_throw

/-- A statement that ends is the same with more patience. -/
theorem kept_execute (le : setup.patience ≤ more) (room : Nat) (t : Tree) :
    Kept setup more (Execution.execute room t) (Execution.execute room t) := by
  induction room generalizing t with
  | zero => exact kept_throw
  | succ room ih => exact kept_step le ih t

/-- A program that ends is the same with more patience. -/
theorem kept_runProgram (le : setup.patience ≤ more) (statements : List Tree) :
    Kept setup more (runProgram statements) (runProgram statements) := by
  refine kept_read ((kept_runAll (kept_execute le setup.room) statements).bind fun flow => ?_)
  cases flow with
  | done => exact kept_pure
  | leave | next => exact kept_throw

end Kept

/-! ## Sessions -/

/-- A traced run that ends is the same with more patience. -/
theorem runTraced_of_patience_le {setup : Setup} {more : Nat} (le : setup.patience ≤ more)
    {state : State} {statements : List Tree}
    (ends : (runTraced setup state statements).2 ≠ some .endless) :
    runTraced { setup with patience := more } state statements =
      runTraced setup state statements := by
  rcases kept_runProgram le statements { state with trace := #[] } with ⟨s', gaveUp⟩ | same
  · obtain ⟨_, _, _, ⟨run, _⟩ | ⟨failure, run, failed⟩⟩ := runTraced_cases setup state statements
    · cases gaveUp.symm.trans run
    · cases gaveUp.symm.trans run
      exact absurd failed ends
  · unfold runTraced
    rw [same]

/-- The outcome of a run that ends is the same with more patience. -/
theorem Session.run_of_patience_le (session : Session) (program : Tree) {more : Nat}
    (le : session.setup.patience ≤ more)
    (ends : (session.run program).2.failure ≠ some .endless) :
    let longer := { session with setup := { session.setup with patience := more } }
    (longer.run program).1.state = (session.run program).1.state ∧
      (longer.run program).2 = (session.run program).2 := by
  intro longer
  cases top : program.topLevel with
  | error failure => simp only [longer, Session.run, top, and_self]
  | ok statements =>
    rw [(Session.run_of_topLevel session top).2] at ends
    have same := runTraced_of_patience_le le ends
    simp only [longer, Session.run, top, same]
    split
    · exact ⟨rfl, rfl⟩
    · exact ⟨rfl, rfl⟩

end Parlance
