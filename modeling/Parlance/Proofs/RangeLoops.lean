import Parlance.Proofs.Counting
import Parlance.Proofs.Growth
import Parlance.Proofs.Outcome

/-!
# Range loops

A range loop keeps its counter to itself: each round binds the variable to it anew, whatever the
body has done to the variable or to the names in the bounds.  `RangeLoop.Runs` lists the executions
of the body from the start of a loop to its end, one by one.

Between whole bounds below `2 ^ 53` these are as many as there are whole numbers between the bounds,
and each begins with the next of them.  Between finite bounds in general a loop need not end: where
one more is the same double again, the counter stands still.
-/

namespace Parlance

/-! ## Binding a variable -/

namespace Environment

variable {env env' : Environment} {key : Key} {name value fixed line : Tree}

/-- A key that has been bound is bound to the value, with the flag. -/
theorem exists_find?_put_self :
    ∃ b, (env.put key name value fixed).find? key = some b ∧ b.value = value ∧ b.fixed = fixed := by
  rw [find?_put_self]
  cases bound : env.find? key with
  | none => exact ⟨_, rfl, rfl, rfl⟩
  | some b =>
    refine ⟨_, rfl, ?_⟩
    rw [Option.map_some, Option.getD_some, rebound, if_pos (key_of_find? bound)]
    exact ⟨rfl, rfl⟩

/-- The name can be bound anew. -/
def IsMutable (env : Environment) (name : Tree) : Prop :=
  ∃ flag, env.flagOf name = .ok flag ∧ flag.isTrue = false

/-- A name that is not fixed can be bound. -/
theorem exists_bind (free : env.IsMutable name) (value line : Tree) :
    ∃ env', env.bind name value line = .ok env' := by
  obtain ⟨flag, found, loose⟩ := free
  cases named : keyOf name with
  | error failure =>
    simp [flagOf, named, Bind.bind, Except.bind] at found
  | ok key =>
    simp only [flagOf, named, Bind.bind, Except.bind, pure, Except.pure, Except.ok.injEq] at found
    subst found
    have unfixed : env.isFixed key = false := by
      unfold isFixed
      cases bound : env.find? key with
      | none => rfl
      | some b =>
        rw [bound] at loose
        exact loose
    refine ⟨env.put key name value (.flag false), ?_⟩
    simp [Environment.bind, named, Bind.bind, Except.bind, unfixed]

/-- A name that has been bound has the value and can be bound anew. -/
theorem of_bind (bound : env.bind name value line = .ok env') (place : Tree) :
    env'.get name place = .ok value ∧ env'.flagOf name = .ok (.flag false) := by
  cases named : keyOf name with
  | error failure => simp [Environment.bind, named, Bind.bind, Except.bind] at bound
  | ok key =>
    simp only [Environment.bind, named, Bind.bind, Except.bind] at bound
    split at bound
    · cases bound
    · cases bound
      obtain ⟨b, found, rfl, loose⟩ := @exists_find?_put_self env key name value (.flag false)
      simp [get, flagOf, named, Bind.bind, Except.bind, pure, Except.pure, found, loose]

end Environment

/-- The signal ends the loop around it. -/
def Flow.Leaves : Flow → Prop
  | .leave _ => True
  | _ => False

/-! ## Rounds -/

/-- A range loop whose bounds have been evaluated. -/
structure RangeLoop where
  setup : Setup
  room : Nat
  name : Tree
  body : Tree
  line : Tree
  last : Float

/-- An execution of the body of a loop: the state in which it begins, how it ends and in what
state. -/
structure BodyRun where
  begun : State
  flow : Flow
  ended : State

namespace RangeLoop

open Machine Execution

/-- What comes before the body in a round. -/
def enter (loop : RangeLoop) (counter : Float) : Machine Unit := do
  checkpoint loop.line
  update (·.bind loop.name (.number counter) loop.line)
  traceStep loop.line fun _ => "loop " ++ loop.name.plain ++ " = " ++ Number.display counter

/-- One round of a loop. -/
def round (loop : RangeLoop) (counter : Float) : Machine Flow := do
  loop.enter counter
  runBlock (execute loop.room) loop.body

theorem round_eq (loop : RangeLoop) : loop.round = (fun counter => do
    checkpoint loop.line
    update (·.bind loop.name (.number counter) loop.line)
    traceStep loop.line fun _ => "loop " ++ loop.name.plain ++ " = " ++ Number.display counter
    runBlock (execute loop.room) loop.body) := by
  funext counter
  simp only [round, enter, bind_assoc]

/-- The execution of the body in a round that starts from a state. -/
structure Round (loop : RangeLoop) (counter : Float) (s : State) (run : BodyRun) : Prop where
  entered : loop.enter counter loop.setup s = .ok () run.begun
  ended : runBlock (execute loop.room) loop.body loop.setup run.begun = .ok run.flow run.ended

/-- The executions of the body from a counter and a state to the end of the loop. -/
inductive Runs (loop : RangeLoop) : Float → State → List BodyRun → State → Prop
  | past {counter : Float} {s : State} : ¬ counter ≤ loop.last → Runs loop counter s [] s
  | left {counter : Float} {s : State} {run : BodyRun} :
    counter ≤ loop.last → loop.Round counter s run → run.flow.Leaves →
    Runs loop counter s [run] run.ended
  | onward {counter : Float} {s s' : State} {run : BodyRun} {runs : List BodyRun} :
    counter ≤ loop.last → loop.Round counter s run → ¬ run.flow.Leaves →
    Runs loop (counter + 1.0) run.ended runs s' → Runs loop counter s (run :: runs) s'

variable {loop : RangeLoop} {counter : Float} {s s' : State} {runs : List BodyRun}

theorem Round.run {run : BodyRun} (round : loop.Round counter s run) :
    loop.round counter loop.setup s = .ok run.flow run.ended :=
  (bind_of_ok round.entered).trans round.ended

theorem exists_round {flow : Flow} (ran : loop.round counter loop.setup s = .ok flow s') :
    ∃ begun, loop.Round counter s ⟨begun, flow, s'⟩ := by
  obtain ⟨_, begun, entered, ended⟩ := exists_of_bind_eq_ok ran
  exact ⟨begun, entered, ended⟩

/-- The loop, with patience for so many rounds. -/
abbrev rounds (loop : RangeLoop) (patience : Nat) (counter : Float) : Machine Unit :=
  rangeLoop loop.round loop.last patience counter

theorem rounds_of_not_le {patience : Nat} (beyond : ¬ counter ≤ loop.last) :
    loop.rounds (patience + 1) counter loop.setup s = .ok () s := by
  rw [rounds, rangeLoop, if_neg beyond]
  rfl

theorem rounds_of_error {patience : Nat} {failure : Failure} (within : counter ≤ loop.last)
    (failed : loop.round counter loop.setup s = .error failure s') :
    loop.rounds (patience + 1) counter loop.setup s = .error failure s' := by
  rw [rounds, rangeLoop, if_pos within, bind_of_error failed]

/-- A round that leaves the loop is its last one. -/
theorem rounds_of_leaves {patience : Nat} {run : BodyRun} (within : counter ≤ loop.last)
    (round : loop.Round counter s run) (leaves : run.flow.Leaves) :
    loop.rounds (patience + 1) counter loop.setup s = .ok () run.ended := by
  rw [rounds, rangeLoop, if_pos within, bind_of_ok round.run]
  obtain ⟨begun, flow, ended⟩ := run
  cases flow with
  | leave line => rfl
  | done | next => exact leaves.elim

/-- After a round that stays, the loop goes on with the next number. -/
theorem rounds_of_not_leaves {patience : Nat} {run : BodyRun} (within : counter ≤ loop.last)
    (round : loop.Round counter s run) (stays : ¬ run.flow.Leaves) :
    loop.rounds (patience + 1) counter loop.setup s =
      loop.rounds patience (counter + 1.0) loop.setup run.ended := by
  rw [rounds, rangeLoop, if_pos within, bind_of_ok round.run]
  obtain ⟨begun, flow, ended⟩ := run
  cases flow with
  | leave line => exact absurd trivial stays
  | done | next => rfl

/-- A loop that is patient enough for its runs makes them and ends. -/
theorem Runs.rounds_eq (ran : loop.Runs counter s runs s') {patience : Nat}
    (patient : runs.length < patience) : loop.rounds patience counter loop.setup s = .ok () s' := by
  induction ran generalizing patience with
  | past beyond =>
    obtain ⟨patience, rfl⟩ := Nat.exists_eq_succ_of_ne_zero patient.ne_bot
    exact rounds_of_not_le beyond
  | left within round leaves =>
    obtain ⟨patience, rfl⟩ := Nat.exists_eq_succ_of_ne_zero patient.ne_bot
    exact rounds_of_leaves within round leaves
  | onward within round stays rest ih =>
    obtain ⟨patience, rfl⟩ := Nat.exists_eq_succ_of_ne_zero patient.ne_bot
    rw [rounds_of_not_leaves within round stays]
    exact ih (Nat.lt_of_succ_lt_succ patient)

/-- A loop that has ended has made runs, one after the other. -/
theorem exists_runs {patience : Nat}
    (ended : loop.rounds patience counter loop.setup s = .ok () s') :
    ∃ runs, loop.Runs counter s runs s' := by
  induction patience generalizing counter s with
  | zero => cases ended
  | succ patience ih =>
    by_cases within : counter ≤ loop.last
    · have opened := ended
      rw [rounds, rangeLoop, if_pos within] at opened
      obtain ⟨flow, after, ran, -⟩ := exists_of_bind_eq_ok opened
      obtain ⟨begun, round⟩ := exists_round ran
      by_cases leaves : flow.Leaves
      · rw [rounds_of_leaves within round leaves] at ended
        cases ended
        exact ⟨_, .left within round leaves⟩
      · rw [rounds_of_not_leaves within round leaves] at ended
        obtain ⟨runs, rest⟩ := ih ended
        exact ⟨_, .onward within round leaves rest⟩
    · rw [rounds_of_not_le within] at ended
      cases ended
      exact ⟨[], .past within⟩

/-! ## What a round begins with -/

/-- The body begins with the variable bound to the counter. -/
theorem bind_of_enter {begun : State} (entered : loop.enter counter loop.setup s = .ok () begun) :
    s.env.bind loop.name (.number counter) loop.line = .ok begun.env := by
  obtain ⟨_, checked, passed, entered⟩ := exists_of_bind_eq_ok entered
  obtain ⟨_, bound, updated, told⟩ := exists_of_bind_eq_ok entered
  rw [env_of_trace told, ← env_of_checkpoint passed]
  exact env_of_update updated

/-- A round gets to its body if the variable can be bound, unless the run is cancelled. -/
theorem enter_cases (free : s.env.IsMutable loop.name) (counter : Float) :
    (∃ begun, loop.enter counter loop.setup s = .ok () begun) ∨
      loop.setup.signal ≠ none ∧
        ∃ s', loop.enter counter loop.setup s = .error (.problem loop.line .cancelled) s' := by
  obtain ⟨s', polled, kept⟩ := exists_poll loop.setup s
  cases isSet : loop.setup.signal.elim false fun isSet => isSet s.polls with
  | false =>
    have passed : checkpoint loop.line loop.setup s = .ok () s' := by
      rw [checkpoint, bind_of_ok polled, isSet]
      rfl
    rw [← kept] at free
    obtain ⟨env, bound⟩ := Environment.exists_bind free (.number counter) loop.line
    left
    rw [enter, bind_of_ok passed, bind_of_ok (update_of_ok bound)]
    exact (exists_trace _ _ _ _).imp fun _ => And.left
  | true =>
    have stopped : checkpoint loop.line loop.setup s =
        .error (.problem loop.line .cancelled) s' := by
      rw [checkpoint, bind_of_ok polled, isSet]
      rfl
    refine .inr ⟨fun unwatched => ?_, s', bind_of_error stopped⟩
    rw [unwatched] at isSet
    cases isSet

/-! ## All rounds of a loop -/

/-- The run that leaves is the last one. -/
theorem Runs.length_of_leaves (ran : loop.Runs counter s runs s') {k : Nat} {run : BodyRun}
    (listed : runs[k]? = some run) (leaves : run.flow.Leaves) : runs.length = k + 1 := by
  induction ran generalizing k with
  | past => cases listed
  | left within round leaves =>
    cases k with
    | zero => rfl
    | succ k => cases listed
  | onward within round stays rest ih =>
    cases k with
    | zero =>
      cases listed
      exact absurd leaves stays
    | succ k => rw [List.length_cons, ih listed]

/-- The counter does not depend on what the body does. -/
theorem Runs.exists_round {start : Float} (ran : loop.Runs start s runs s') {k : Nat}
    {run : BodyRun} (listed : runs[k]? = some run) :
    ∃ s, loop.Round (Number.counter start k) s run := by
  induction ran generalizing k with
  | past => cases listed
  | left within round leaves =>
    cases k with
    | zero =>
      cases listed
      exact ⟨_, round⟩
    | succ k => cases listed
  | onward within round stays rest ih =>
    cases k with
    | zero =>
      cases listed
      exact ⟨_, round⟩
    | succ k =>
      rw [← Number.counter_succ]
      exact ih listed

/-- Between whole numbers there are as many runs as numbers, or fewer if one of them leaves. -/
theorem Runs.length_of_whole (ran : loop.Runs counter s runs s') {a b : Int}
    (whole : Number.whole? counter = some a) (bound : Number.whole? loop.last = some b)
    (low : -2 ^ 53 ≤ a) (high : b < 2 ^ 53) :
    runs.length ≤ (b - a + 1).toNat ∧
      ((∀ run ∈ runs, ¬ run.flow.Leaves) → runs.length = (b - a + 1).toNat) := by
  induction ran generalizing a with
  | past beyond =>
    rw [Number.le_iff_of_whole? whole bound] at beyond
    rw [List.length_nil]
    omega
  | left within round leaves =>
    rw [Number.le_iff_of_whole? whole bound] at within
    refine ⟨?_, fun none => absurd leaves (none _ (List.mem_singleton_self _))⟩
    rw [List.length_singleton]
    omega
  | onward within round stays rest ih =>
    rw [Number.le_iff_of_whole? whole bound] at within
    have next := Number.whole?_add_one whole low (by omega)
    obtain ⟨most, all⟩ := ih next (by omega)
    rw [List.length_cons, List.forall_mem_cons]
    refine ⟨by omega, fun none => ?_⟩
    have exact' := all none.2
    omega

theorem Runs.whole?_counter (ran : loop.Runs counter s runs s') {a b : Int}
    (whole : Number.whole? counter = some a) (bound : Number.whole? loop.last = some b)
    (low : -2 ^ 53 ≤ a) (high : b < 2 ^ 53) {k : Nat} (inside : k < runs.length) :
    Number.whole? (Number.counter counter k) = some (a + k) := by
  have most := (ran.length_of_whole whole bound low high).1
  exact Number.whole?_counter whole low (by omega)

/-! ## Loops whose rounds complete -/

/-- What the loop gets to from a counter and a state: what it has before each round, and at its end
if no round has left it. -/
inductive Reaches (loop : RangeLoop) (start : Float) (first : State) : Float → State → Prop
  | start : Reaches loop start first start first
  | onward {counter : Float} {s : State} {run : BodyRun} :
    Reaches loop start first counter s → counter ≤ loop.last → loop.Round counter s run →
    ¬ run.flow.Leaves → Reaches loop start first (counter + 1.0) run.ended

/-- Before every round that the loop gets to its variable can be bound, and the body completes in
the round. -/
def Completes (loop : RangeLoop) (start : Float) (first : State) : Prop :=
  ∀ counter s, loop.Reaches start first counter s → counter ≤ loop.last →
    s.env.IsMutable loop.name ∧
      ∀ begun, loop.enter counter loop.setup s = .ok () begun →
        ∃ flow ended, runBlock (execute loop.room) loop.body loop.setup begun = .ok flow ended

/-- Every round that the loop gets to goes on to the next one: the run is not cancelled, the
variable can be bound, and the body completes without a break. -/
def GoesOn (loop : RangeLoop) (start : Float) (first : State) : Prop :=
  ∀ counter s, loop.Reaches start first counter s → counter ≤ loop.last →
    ∃ run, loop.Round counter s run ∧ ¬ run.flow.Leaves

theorem Reaches.after {run : BodyRun} (within : counter ≤ loop.last)
    (round : loop.Round counter s run) (stays : ¬ run.flow.Leaves) {later : Float}
    (reaches : loop.Reaches (counter + 1.0) run.ended later s') :
    loop.Reaches counter s later s' := by
  induction reaches with
  | start => exact .onward .start within round stays
  | onward _ inside round' stays' ih => exact .onward ih inside round' stays'

theorem Completes.after {run : BodyRun} (completes : loop.Completes counter s)
    (within : counter ≤ loop.last) (round : loop.Round counter s run) (stays : ¬ run.flow.Leaves) :
    loop.Completes (counter + 1.0) run.ended :=
  fun later s' reaches => completes later s' (reaches.after within round stays)

theorem GoesOn.after {run : BodyRun} (goesOn : loop.GoesOn counter s)
    (within : counter ≤ loop.last) (round : loop.Round counter s run) (stays : ¬ run.flow.Leaves) :
    loop.GoesOn (counter + 1.0) run.ended :=
  fun later s' reaches => goesOn later s' (reaches.after within round stays)

/-- A loop whose body completes ends if its counter goes beyond the bound, unless it is
cancelled. -/
theorem Completes.rounds_end (completes : loop.Completes counter s) {n patience : Nat}
    (beyond : ¬ Number.counter counter n ≤ loop.last) (patient : n < patience) :
    ∃ s', loop.rounds patience counter loop.setup s = .ok () s' ∨
      loop.setup.signal ≠ none ∧
        loop.rounds patience counter loop.setup s = .error (.problem loop.line .cancelled) s' := by
  obtain ⟨patience, rfl⟩ := Nat.exists_eq_succ_of_ne_zero patient.ne_bot
  induction n generalizing counter s patience with
  | zero => exact ⟨s, .inl (rounds_of_not_le beyond)⟩
  | succ n ih =>
    by_cases within : counter ≤ loop.last
    · obtain ⟨free, completed⟩ := completes counter s .start within
      rcases enter_cases free counter with ⟨begun, entered⟩ | ⟨watched, s', stopped⟩
      · obtain ⟨flow, ended, ran⟩ := completed begun entered
        have round : loop.Round counter s ⟨begun, flow, ended⟩ := ⟨entered, ran⟩
        by_cases leaves : flow.Leaves
        · exact ⟨ended, .inl (rounds_of_leaves within round leaves)⟩
        · have less := Nat.lt_of_succ_lt_succ patient
          obtain ⟨patience, rfl⟩ := Nat.exists_eq_succ_of_ne_zero less.ne_bot
          rw [← Number.counter_succ] at beyond
          rw [rounds_of_not_leaves within round leaves]
          exact ih (completes.after within round leaves) beyond patience less
      · exact ⟨s', .inr ⟨watched, rounds_of_error within (bind_of_error stopped)⟩⟩
    · exact ⟨s, .inl (rounds_of_not_le within)⟩

/-- A loop that goes on makes its runs up to the first number beyond the last one. -/
theorem GoesOn.exists_runs (goesOn : loop.GoesOn counter s) {n : Nat}
    (beyond : ¬ Number.counter counter n ≤ loop.last) :
    ∃ runs s', loop.Runs counter s runs s' := by
  induction n generalizing counter s with
  | zero => exact ⟨[], s, .past beyond⟩
  | succ n ih =>
    by_cases within : counter ≤ loop.last
    · obtain ⟨run, round, stays⟩ := goesOn counter s .start within
      rw [← Number.counter_succ] at beyond
      obtain ⟨runs, s', rest⟩ := ih (goesOn.after within round stays) beyond
      exact ⟨_, _, .onward within round stays rest⟩
    · exact ⟨[], s, .past within⟩

theorem Round.unique {run run' : BodyRun} (round : loop.Round counter s run)
    (round' : loop.Round counter s run') : run = run' := by
  obtain ⟨begun, flow, ended⟩ := run
  obtain ⟨begun', flow', ended'⟩ := run'
  cases round.entered.symm.trans round'.entered
  cases round.ended.symm.trans round'.ended
  rfl

/-- If a loop ends whose rounds go on, its counter has gone beyond the bound. -/
theorem Runs.exists_not_counter_le (ran : loop.Runs counter s runs s')
    (goesOn : loop.GoesOn counter s) : ∃ n, ¬ Number.counter counter n ≤ loop.last := by
  induction ran with
  | past beyond => exact ⟨0, beyond⟩
  | left within round leaves =>
    obtain ⟨_, round', stays⟩ := goesOn _ _ .start within
    rw [round.unique round'] at leaves
    exact absurd leaves stays
  | onward within round stays rest ih =>
    obtain ⟨n, beyond⟩ := ih (goesOn.after within round stays)
    rw [Number.counter_succ] at beyond
    exact ⟨n + 1, beyond⟩

/-- A loop whose rounds go on is given up if its counter stays within the bound. -/
theorem GoesOn.rounds_endless (goesOn : loop.GoesOn counter s)
    (within : ∀ n, Number.counter counter n ≤ loop.last) (patience : Nat) :
    ∃ s', loop.rounds patience counter loop.setup s = .error .endless s' := by
  induction patience generalizing counter s with
  | zero => exact ⟨s, rfl⟩
  | succ patience ih =>
    have inside : counter ≤ loop.last := within 0
    obtain ⟨run, round, stays⟩ := goesOn counter s .start inside
    rw [rounds_of_not_leaves inside round stays]
    refine ih (goesOn.after inside round stays) fun n => ?_
    rw [Number.counter_succ]
    exact within (n + 1)

end RangeLoop

/-! ## Executing a range loop -/

namespace Execution

variable {setup : Setup} {room : Nat} {name first last body line : Tree} {s : State} {x y : Float}

/-- A range loop evaluates its bounds first, in the state from which it starts. -/
theorem execute_range (start : evaluate s.env room first = .ok (.number x))
    (stop : evaluate s.env room last = .ok (.number y)) :
    execute (room + 1) (.range name first last body line) setup s =
      ((⟨setup, room, name, body, line, y⟩ : RangeLoop).rounds setup.patience x >>= fun _ =>
        pure .done) setup s := by
  refine (bind_of_ok (inspect_of_ok start)).trans ?_
  refine (bind_of_ok (inspect_of_ok stop)).trans ?_
  rw [RangeLoop.rounds, RangeLoop.round_eq]
  rfl

theorem execute_range_of_ok (start : evaluate s.env room first = .ok (.number x))
    (stop : evaluate s.env room last = .ok (.number y)) {s' : State}
    (ended : (⟨setup, room, name, body, line, y⟩ : RangeLoop).rounds setup.patience x setup s =
      .ok () s') :
    execute (room + 1) (.range name first last body line) setup s = .ok .done s' :=
  (execute_range start stop).trans (bind_of_ok ended)

theorem execute_range_of_error (start : evaluate s.env room first = .ok (.number x))
    (stop : evaluate s.env room last = .ok (.number y)) {failure : Failure} {s' : State}
    (failed : (⟨setup, room, name, body, line, y⟩ : RangeLoop).rounds setup.patience x setup s =
      .error failure s') :
    execute (room + 1) (.range name first last body line) setup s = .error failure s' :=
  (execute_range start stop).trans (bind_of_error failed)

/-- A range loop that ends normally has made its runs between its two bounds. -/
theorem exists_runs_of_execute_range (start : evaluate s.env room first = .ok (.number x))
    (stop : evaluate s.env room last = .ok (.number y)) {flow : Flow} {s' : State}
    (ended : execute (room + 1) (.range name first last body line) setup s = .ok flow s') :
    flow = .done ∧
      ∃ runs, (⟨setup, room, name, body, line, y⟩ : RangeLoop).Runs x s runs s' := by
  rw [execute_range start stop] at ended
  obtain ⟨_, after, ran, finished⟩ := exists_of_bind_eq_ok ended
  cases finished
  exact ⟨rfl, RangeLoop.exists_runs ran⟩

/-! ## Whole bounds -/

/-- A range loop with whole bounds below `2 ^ 53`.  The executions of its body, up to one that
breaks, are as many as the whole numbers between the bounds, and each begins with the variable bound
to the next of them, whatever the body does.  A break ends the loop with its own execution of the
body.  With the bounds the wrong way round nothing is changed.  And the loop ends if its body
completes, unless it is cancelled. -/
theorem range_goes_through_whole_numbers (setup : Setup) (room : Nat)
    (name first last body line : Tree) (s : State) {x y : Float} {a b : Int}
    (patient : 2 ^ 54 ≤ setup.patience) (start : evaluate s.env room first = .ok (.number x))
    (stop : evaluate s.env room last = .ok (.number y)) (whole : Number.whole? x = some a)
    (whole' : Number.whole? y = some b) (small : a.natAbs < 2 ^ 53) (small' : b.natAbs < 2 ^ 53) :
    let loop : RangeLoop := ⟨setup, room, name, body, line, y⟩
    let result := execute (room + 1) (.range name first last body line) setup s
    (∀ flow s', result = .ok flow s' ↔ flow = .done ∧ ∃ runs, loop.Runs x s runs s') ∧
      (∀ runs s', loop.Runs x s runs s' →
        runs.length ≤ (b - a + 1).toNat ∧
        ((∀ run ∈ runs, ¬ run.flow.Leaves) → runs.length = (b - a + 1).toNat) ∧
        ∀ k run, runs[k]? = some run →
          (run.flow.Leaves → runs.length = k + 1) ∧
          run.begun.env.flagOf name = .ok (.flag false) ∧
          ∃ z, Number.whole? z = some (a + k) ∧ run.begun.env.get name line = .ok (.number z)) ∧
      (b < a → result = .ok .done s) ∧
      (loop.Completes x s → ∃ s', result = .ok .done s' ∨
        setup.signal ≠ none ∧ result = .error (.problem line .cancelled) s') := by
  intro loop result
  have count {runs : List BodyRun} {s' : State} (ran : loop.Runs x s runs s') :=
    ran.length_of_whole whole whole' (by omega) (by omega)
  have ends {runs : List BodyRun} {s' : State} (ran : loop.Runs x s runs s') :
      result = .ok .done s' := by
    have most := (count ran).1
    exact execute_range_of_ok start stop (ran.rounds_eq (by omega))
  refine ⟨fun flow s' => ⟨exists_runs_of_execute_range start stop, ?_⟩, fun runs s' ran => ?_, ?_,
    ?_⟩
  · rintro ⟨rfl, runs, ran⟩
    exact ends ran
  · refine ⟨(count ran).1, (count ran).2, fun k run listed => ?_⟩
    have inside : k < runs.length := (List.getElem?_eq_some_iff.1 listed).1
    obtain ⟨_, round⟩ := ran.exists_round listed
    obtain ⟨value, flag⟩ := Environment.of_bind (RangeLoop.bind_of_enter round.entered) line
    exact ⟨ran.length_of_leaves listed, flag, _,
      ran.whole?_counter whole whole' (by omega) (by omega) inside, value⟩
  · intro apart
    have beyond : ¬ x ≤ y := by
      rw [Number.le_iff_of_whole? whole whole']
      omega
    exact ends (.past beyond)
  · intro completes
    have reached : Number.whole? (Number.counter x (b - a + 1).toNat) =
        some (a + (b - a + 1).toNat) := Number.whole?_counter whole (by omega) (by omega)
    have beyond : ¬ Number.counter x (b - a + 1).toNat ≤ y := by
      rw [Number.le_iff_of_whole? reached whole']
      omega
    have patient' : (b - a + 1).toNat < setup.patience := by omega
    obtain ⟨s', ended | ⟨watched, stopped⟩⟩ := completes.rounds_end beyond patient'
    · exact ⟨s', .inl (execute_range_of_ok start stop ended)⟩
    · exact ⟨s', .inr ⟨watched, execute_range_of_error start stop stopped⟩⟩

/-- From one to three, with a body that overwrites the variable and starts the next round itself. -/
theorem range_goes_on_despite_assignment :
    let body : Tree := .block (.list
      [.assign (.text "i") (.numberLit 10.0 (.int 1)) (.int 1), .next (.int 1)])
    let loop : RangeLoop := ⟨{}, 2, .text "i", body, .int 1, 3.0⟩
    (∃ runs s', loop.Runs 1.0 {} runs s') ∧
      ∀ runs s', loop.Runs 1.0 {} runs s' → (∀ run ∈ runs, ¬ run.flow.Leaves) →
        runs.length = 3 ∧ ∀ (k : Nat) run, runs[k]? = some run →
          ∃ z, Number.whole? z = some (1 + k) ∧
            run.begun.env.get (.text "i") (.int 1) = .ok (.number z) := by
  intro body loop
  have low : Number.whole? 1.0 = some 1 := by decide
  have high : Number.whole? 3.0 = some 3 := by decide
  obtain ⟨ends, counts, -, -⟩ := range_goes_through_whole_numbers {} 2 (.text "i")
    (.numberLit 1.0 (.int 1)) (.numberLit 3.0 (.int 1)) body (.int 1) {} (by decide) rfl rfl
    low high (by decide) (by decide)
  have ended : ∃ s', execute 3 (.range (.text "i") (.numberLit 1.0 (.int 1))
      (.numberLit 3.0 (.int 1)) body (.int 1)) {} {} = .ok .done s' := ⟨_, rfl⟩
  obtain ⟨s', ended⟩ := ended
  obtain ⟨-, runs, ran⟩ := (ends .done s').1 ended
  refine ⟨⟨runs, s', ran⟩, fun runs s' ran none => ?_⟩
  obtain ⟨-, all, each⟩ := counts runs s' ran
  exact ⟨all none, fun k run listed => (each k run listed).2.2⟩

/-! ## Finite bounds -/

/-- A round in which the body shows the variable goes on. -/
theorem exists_round_of_say {loop : RangeLoop} {place line : Tree} (deep : 2 ≤ loop.room)
    (shows : loop.body = .block (.list [.say (.ident loop.name place) line]))
    (unwatched : loop.setup.signal = none) (free : s.env.IsMutable loop.name) (counter : Float) :
    ∃ run, loop.Round counter s run ∧ run.flow = .done ∧ run.ended.env.IsMutable loop.name := by
  obtain ⟨room, enough⟩ := Nat.exists_eq_add_of_le' deep
  rcases RangeLoop.enter_cases free counter with ⟨begun, entered⟩ | ⟨watched, -⟩
  · obtain ⟨value, flag⟩ := Environment.of_bind (RangeLoop.bind_of_enter entered) place
    have evaluated : evaluate begun.env (room + 1) (.ident loop.name place) =
        .ok (.number counter) := value
    obtain ⟨after, shown, kept⟩ : ∃ after,
        execute (room + 2) (.say (.ident loop.name place) line) loop.setup begun =
          .ok .done after ∧ after.env = begun.env :=
      ⟨_, bind_of_ok (inspect_of_ok evaluated), rfl⟩
    refine ⟨⟨begun, .done, after⟩, ⟨entered, ?_⟩, rfl, ⟨.flag false, kept ▸ flag, rfl⟩⟩
    rw [shows, enough]
    refine (bind_of_ok (checkpoint_of_none unwatched _ _)).trans ?_
    exact (bind_of_ok shown).trans rfl
  · exact absurd unwatched watched

/-- A loop that says its number goes on, as nothing in it can fail. -/
theorem goesOn_of_say {loop : RangeLoop} {place line : Tree} (deep : 2 ≤ loop.room)
    (shows : loop.body = .block (.list [.say (.ident loop.name place) line]))
    (unwatched : loop.setup.signal = none) (free : s.env.IsMutable loop.name) (counter : Float) :
    loop.GoesOn counter s := by
  have always {later : Float} {s' : State} (reaches : loop.Reaches counter s later s') :
      s'.env.IsMutable loop.name := by
    induction reaches with
    | start => exact free
    | onward _ within round stays ih =>
      obtain ⟨run, round', -, still⟩ := exists_round_of_say deep shows unwatched ih _
      rw [round.unique round']
      exact still
  intro later s' reaches within
  obtain ⟨run, round, done, -⟩ := exists_round_of_say deep shows unwatched (always reaches) later
  refine ⟨run, round, ?_⟩
  rw [done]
  exact id

/-- A range loop with finite bounds whose rounds all go on need not end.  It ends if one more than
the lower bound is above the upper one, or if both bounds are where one more is another double.
Otherwise the counter stands still, and the loop is given up after however many rounds. -/
theorem range_ends_iff (setup : Setup) (room : Nat) (name first last body line : Tree) (s : State)
    {x y : Float} (start : evaluate s.env room first = .ok (.number x))
    (stop : evaluate s.env room last = .ok (.number y)) (finite : x.isFinite = true)
    (finite' : y.isFinite = true)
    (goesOn : (⟨setup, room, name, body, line, y⟩ : RangeLoop).GoesOn x s) :
    let loop : RangeLoop := ⟨setup, room, name, body, line, y⟩
    let result := execute (room + 1) (.range name first last body line) setup s
    ((∃ runs s', loop.Runs x s runs s') ↔
        ¬ x + 1.0 ≤ y ∨ -9007199254740994.0 ≤ x ∧ y < 9007199254740992.0) ∧
      (∀ runs s', loop.Runs x s runs s' → runs.length < setup.patience → result = .ok .done s') ∧
      ((¬ ∃ runs s', loop.Runs x s runs s') → ∃ s', result = .error .endless s') := by
  intro loop result
  refine ⟨?_, fun runs s' ran patient => ?_, fun never => ?_⟩
  · rw [← Number.exists_not_counter_le_iff finite finite']
    constructor
    · rintro ⟨runs, s', ran⟩
      exact ran.exists_not_counter_le goesOn
    · rintro ⟨n, beyond⟩
      exact goesOn.exists_runs beyond
  · exact execute_range_of_ok start stop (ran.rounds_eq patient)
  · have within (n : Nat) : Number.counter x n ≤ y := by
      by_contra beyond
      exact never (goesOn.exists_runs beyond)
    obtain ⟨s', endless⟩ := goesOn.rounds_endless within setup.patience
    exact ⟨s', execute_range_of_error start stop endless⟩

/-- The greatest range in which the counter goes on. -/
theorem range_ends_at_top :
    let loop : RangeLoop := ⟨{}, 2, .text "i", .block (.list [.say (.ident (.text "i") (.int 1))
      (.int 1)]), .int 1, 9007199254740991.0⟩
    loop.GoesOn (-9007199254740994.0) {} ∧
      ∃ runs s', loop.Runs (-9007199254740994.0) {} runs s' := by
  intro loop
  have goesOn : loop.GoesOn (-9007199254740994.0) {} :=
    goesOn_of_say (le_refl 2) rfl rfl ⟨.flag false, rfl, rfl⟩ _
  obtain ⟨ends, -, -⟩ := range_ends_iff {} 2 (.text "i")
    (.unary (.text "-") (.numberLit 9007199254740994.0 (.int 1)) (.int 1))
    (.numberLit 9007199254740991.0 (.int 1)) loop.body (.int 1) {} rfl rfl
    (by decide) (by decide) goesOn
  exact ⟨goesOn, ends.2 (.inr ⟨by decide, by decide⟩)⟩

/-- At `2 ^ 53` the counter stands still.  All rounds go on, and there is no last one. -/
theorem range_stands_still :
    let body : Tree := .block (.list [.say (.ident (.text "i") (.int 1)) (.int 1)])
    let loop : Tree := .range (.text "i") (.numberLit 9007199254740991.0 (.int 1))
      (.numberLit 9007199254740992.0 (.int 1)) body (.int 1)
    (9007199254740991.0 : Float).isFinite = true ∧ (9007199254740992.0 : Float).isFinite = true ∧
      (∀ patience, RangeLoop.GoesOn ⟨{ patience }, 2, .text "i", body, .int 1, 9007199254740992.0⟩
        9007199254740991.0 {}) ∧
      ¬ ∃ patience flow s', execute 3 loop { patience } {} = .ok flow s' := by
  intro body loop
  have finite : (9007199254740991.0 : Float).isFinite = true := by decide
  have finite' : (9007199254740992.0 : Float).isFinite = true := by decide
  have next : (9007199254740991.0 : Float) + 1.0 ≤ 9007199254740992.0 := by decide
  have top : ¬ (9007199254740992.0 : Float) < 9007199254740992.0 := by decide
  have goesOn (patience : Nat) :
      RangeLoop.GoesOn ⟨{ patience }, 2, .text "i", body, .int 1, 9007199254740992.0⟩
        9007199254740991.0 {} := goesOn_of_say (le_refl 2) rfl rfl ⟨.flag false, rfl, rfl⟩ _
  refine ⟨finite, finite', goesOn, ?_⟩
  rintro ⟨patience, flow, s', ended⟩
  obtain ⟨-, runs, ran⟩ := exists_runs_of_execute_range rfl rfl ended
  obtain ⟨n, beyond⟩ := ran.exists_not_counter_le (goesOn patience)
  rcases (Number.exists_not_counter_le_iff finite finite').1 ⟨n, beyond⟩ with above | ⟨-, below⟩
  · exact above next
  · exact top below

end Execution

end Parlance
