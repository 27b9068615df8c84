import Mathlib.Data.List.Forall2
import Parlance.Proofs.Interruption

/-!
# Two runs side by side

Two computations are run from states that have something to do with each other, and what they leave
behind has as well.  A `Pairing` says what: which states the two runs may be in at the same time,
and which lines of the one stand for which lines of the other.  The first run may also stop early,
while the second one goes on; all that is then known of the second one is that it adds to its
output.

`Pairing.Lockstep` is carried from the parts of a computation to the whole.  Where the pairing lets
the machine do what it does on both sides (`Pairing.Steady`, and with one environment for both
`Pairing.Lawful`), it holds of every statement but `ask`; where both sides have the same input
(`Pairing.Reading`), of `ask` too.
-/

namespace Parlance

/-- How a computation has failed, if it has. -/
def failureOf {α : Type} : EStateM.Result Failure State α → Option Failure
  | .ok _ _ => none
  | .error failure _ => some failure

/-- What two runs have to do with each other. -/
structure Pairing where
  left : Setup
  right : Setup
  /-- The lines of the second run that stand for lines of the first. -/
  lines : Tree → Tree → Prop
  /-- The states that the runs are in at the same time. -/
  states : State → State → Prop
  /-- The first run has stopped early, with a failure and in a state; the second one has come as far
  as to a state, and to a failure or none. -/
  short : Failure → State → Option Failure → State → Prop
  /-- A second run that has not failed may go on and end in any way. -/
  onward : ∀ {failure s t t'}, short failure s none t → t.output.toList <+: t'.output.toList →
    ∀ failure', short failure s failure' t'

/-- What becomes of a signal that no loop has taken. -/
def Execution.closing : Flow → Machine Unit
  | .done => return
  | .leave line => throw (.problem line .leaveOutsideLoop)
  | .next line => throw (.problem line .nextOutsideLoop)

namespace Pairing

/-- Failures that stand for each other. -/
inductive Failures (P : Pairing) : Failure → Failure → Prop
  | problem {line line' : Tree} (lines : P.lines line line') (problem : Problem) :
    Failures P (.problem line problem) (.problem line' problem)
  | fault (fault : Fault) : Failures P (.fault fault) (.fault fault)
  | tooDeep : Failures P .tooDeep .tooDeep
  | endless : Failures P .endless .endless

/-- Signals to loops that stand for each other. -/
inductive Flows (P : Pairing) : Flow → Flow → Prop
  | done : Flows P .done .done
  | leave {line line' : Tree} (lines : P.lines line line') : Flows P (.leave line) (.leave line')
  | next {line line' : Tree} (lines : P.lines line line') : Flows P (.next line) (.next line')

/-- The same value, or failures that stand for each other. -/
inductive Results (P : Pairing) {α : Type} : Except Failure α → Except Failure α → Prop
  | ok (value : α) : Results P (.ok value) (.ok value)
  | error {failure failure' : Failure} (failures : P.Failures failure failure') :
    Results P (.error failure) (.error failure')

/-- Values that belong together, or failures that stand for each other. -/
inductive Outcomes (P : Pairing) {α β : Type} (values : α → β → Prop) :
    Except Failure α → Except Failure β → Prop
  | ok {a b} (value : values a b) : Outcomes P values (.ok a) (.ok b)
  | error {failure failure' : Failure} (failures : P.Failures failure failure') :
    Outcomes P values (.error failure) (.error failure')

/-- How two runs end: in states that belong together, both with values or both with failures, or
with the first one stopped early. -/
inductive Paired (P : Pairing) {α β : Type} (values : α → β → Prop) :
    EStateM.Result Failure State α → EStateM.Result Failure State β → Prop
  | ok {a b s t} (value : values a b) (states : P.states s t) : Paired P values (.ok a s) (.ok b t)
  | error {failure failure' s t} (failures : P.Failures failure failure')
    (states : P.states s t) : Paired P values (.error failure s) (.error failure' t)
  | short {failure s y} (short : P.short failure s (failureOf y) (endState y)) :
    Paired P values (.error failure s) y

/-- From states that belong together, the two computations end in a way that belongs together; and
the second one only adds to the output. -/
structure Lockstep (P : Pairing) {α β : Type} (values : α → β → Prop) (m : Machine α)
    (m' : Machine β) : Prop where
  adds : ∀ t, t.output.toList <+: (endState (m' P.right t)).output.toList
  paired : ∀ s t, P.states s t → P.Paired values (m P.left s) (m' P.right t)

section Lockstep

open Machine Execution

variable {P : Pairing} {α β γ δ : Type} {values : α → β → Prop} {values' : γ → δ → Prop}

/-- Failures that correspond do so after they have been given their lines. -/
theorem Failures.at {failure failure' : Failure} (failures : P.Failures failure failure')
    {line line' : Tree} (lines : P.lines line line') :
    P.Failures (failure.at line) (failure'.at line') := by
  cases failures with
  | problem inner problem => exact .problem inner problem
  | fault fault => exact .fault fault
  | tooDeep => exact .problem lines .tooDeep
  | endless => exact .endless

theorem Failures.refl (same : ∀ line, P.lines line line) (failure : Failure) :
    P.Failures failure failure := by
  cases failure with
  | problem line problem => exact .problem (same line) problem
  | fault fault => exact .fault fault
  | tooDeep => exact .tooDeep
  | endless => exact .endless

/-- Where lines only stand for themselves, so do failures. -/
theorem Failures.eq {failure failure' : Failure} (failures : P.Failures failure failure')
    (only : ∀ line line', P.lines line line' → line = line') : failure = failure' := by
  cases failures with
  | problem lines problem => rw [only _ _ lines]
  | fault | tooDeep | endless => rfl

theorem Results.refl (same : ∀ line, P.lines line line) (result : Except Failure α) :
    P.Results result result := by
  cases result with
  | ok value => exact .ok value
  | error failure => exact .error (.refl same failure)

theorem Results.bind {first first' : Except Failure α} {next next' : α → Except Failure β}
    (results : P.Results first first') (onward : ∀ a, P.Results (next a) (next' a)) :
    P.Results (first >>= next) (first' >>= next') := by
  cases results with
  | ok value => exact onward value
  | error failures => exact .error failures

theorem Results.outcomes {first second : Except Failure α} {values : α → α → Prop}
    (results : P.Results first second) (same : ∀ a, first = .ok a → values a a) :
    P.Outcomes values first second := by
  cases results with
  | ok value => exact .ok (same value rfl)
  | error failures => exact .error failures

theorem Paired.imp {x : EStateM.Result Failure State α} {y : EStateM.Result Failure State β}
    {values' : α → β → Prop} (paired : P.Paired values x y)
    (weaker : ∀ a b, values a b → values' a b) : P.Paired values' x y := by
  cases paired with
  | ok value states => exact .ok (weaker _ _ value) states
  | error failures states => exact .error failures states
  | short short => exact .short short

/-! ## The parts of computations -/

theorem lockstep_pure {a : α} {b : β} (value : values a b) :
    P.Lockstep values (pure a) (pure b) :=
  ⟨fun _ => List.prefix_rfl, fun _ _ states => .ok value states⟩

theorem lockstep_throw {failure failure' : Failure} (failures : P.Failures failure failure') :
    P.Lockstep values (throw failure) (throw failure') :=
  ⟨fun _ => List.prefix_rfl, fun _ _ states => .error failures states⟩

/-- What comes after a computation adds to the output which that has left. -/
theorem adds_bind {setup : Setup} {m : Machine α} {next : α → Machine β} (t : State)
    (later : ∀ a t, t.output.toList <+: (endState (next a setup t)).output.toList) :
    (endState (m setup t)).output.toList <+:
      (endState ((m >>= next) setup t)).output.toList := by
  cases run : m setup t with
  | ok a t' =>
    rw [bind_of_ok run]
    exact later a t'
  | error failure t' =>
    rw [bind_of_error run]
    exact List.prefix_rfl

/-- Computations in lockstep one after the other.  Where the first run has stopped early, nothing
is known of the value that the second one goes on with. -/
theorem Lockstep.andThen {m : Machine α} {m' : Machine β} {next : α → Machine γ}
    {next' : β → Machine δ} (first : P.Lockstep values m m')
    (onward : ∀ a b, values a b → P.Lockstep values' (next a) (next' b))
    (later : ∀ b t, t.output.toList <+: (endState (next' b P.right t)).output.toList) :
    P.Lockstep values' (m >>= next) (m' >>= next') := by
  have added (t : State) := adds_bind (m := m') t later
  refine ⟨fun t => (first.adds t).trans (added t), fun s t states => ?_⟩
  have paired := first.paired s t states
  have added := added t
  generalize left : m P.left s = x, right : m' P.right t = y at paired added
  cases paired with
  | ok value states =>
    rw [bind_of_ok left, bind_of_ok right]
    exact (onward _ _ value).paired _ _ states
  | error failures states =>
    rw [bind_of_error left, bind_of_error right]
    exact .error failures states
  | short short =>
    rw [bind_of_error left]
    cases y with
    | ok b t' => exact .short (P.onward short added _)
    | error failure' t' =>
      rw [bind_of_error right]
      exact .short short

theorem Lockstep.bind {m m' : Machine α} {next : α → Machine γ} {next' : α → Machine δ}
    (first : P.Lockstep Eq m m') (onward : ∀ a, P.Lockstep values' (next a) (next' a)) :
    P.Lockstep values' (m >>= next) (m' >>= next') := by
  refine first.andThen ?_ fun a => (onward a).adds
  rintro a _ rfl
  exact onward a

theorem lockstep_read {next : Setup → Machine α} {next' : Setup → Machine β}
    (onward : P.Lockstep values (next P.left) (next' P.right)) :
    P.Lockstep values (read >>= next) (read >>= next') :=
  ⟨fun t => onward.adds t, fun s t states => onward.paired s t states⟩

/-- A look at what both states have in common. -/
theorem lockstep_get {next : State → Machine α} {next' : State → Machine β}
    (blind : ∀ s t, P.states s t → next s = next t)
    (onward : ∀ t, P.Lockstep values (next t) (next' t)) :
    P.Lockstep values (get >>= next) (get >>= next') := by
  refine ⟨fun t => (onward t).adds t, fun s t states => ?_⟩
  have paired := (onward t).paired s t states
  rw [← blind s t states] at paired
  exact paired

theorem lockstep_modify {change change' : State → State}
    (adds : ∀ t, t.output.toList <+: (change' t).output.toList)
    (moved : ∀ s t, P.states s t → P.states (change s) (change' t)) :
    P.Lockstep Eq (modify change) (modify change') :=
  ⟨adds, fun s t states => .ok rfl (moved s t states)⟩

/-- The trace is in lockstep if both runs trace as much and the lines they add keep the states
related. -/
theorem lockstep_trace_of {level : Nat} {text text' : Unit → String}
    (levels : P.left.level = P.right.level)
    (told : ∀ s t, P.states s t → P.states { s with trace := s.trace.push (text ()) }
      { t with trace := t.trace.push (text' ()) }) :
    P.Lockstep Eq (trace level text) (trace level text') := by
  refine lockstep_read ?_
  rw [levels]
  split
  · exact lockstep_modify (fun _ => List.prefix_rfl) told
  · exact lockstep_pure rfl

theorem lockstep_need (part : Option α) (fault : Fault) :
    P.Lockstep Eq (need part fault) (need part fault) := by
  cases part with
  | some found => exact lockstep_pure rfl
  | none => exact lockstep_throw (.fault fault)

/-! ## What the machine does -/

/-- States that belong together still do so after the machine has asked the signal, written a line
or told of something on both sides. -/
structure Steady (P : Pairing) : Prop where
  signal : P.left.signal = P.right.signal
  patience : P.left.patience = P.right.patience
  polls : ∀ {s t}, P.states s t → s.polls = t.polls
  asked : ∀ {s t}, P.states s t →
    P.states { s with polls := s.polls + 1 } { t with polls := t.polls + 1 }
  written : ∀ {s t} (line : String), P.states s t →
    P.states { s with output := s.output.push line } { t with output := t.output.push line }
  step : ∀ {line line' : Tree} (what : Unit → String), P.lines line line' →
    P.Lockstep Eq (traceStep line what) (traceStep line' what)
  binding : ∀ verb name value,
    P.Lockstep Eq (traceBinding verb name value) (traceBinding verb name value)

/-- States that belong together have the same environment, and still belong together after the
machine has done the same on both sides. -/
structure Lawful (P : Pairing) : Prop extends P.Steady where
  env : ∀ {s t}, P.states s t → s.env = t.env
  updated : ∀ {s t} (env : Environment), P.states s t →
    P.states { s with env, writes := s.writes + 1 } { t with env, writes := t.writes + 1 }

/-- The signal is asked alike. -/
theorem lockstep_poll (steady : P.Steady) : P.Lockstep Eq poll poll := by
  refine ⟨fun t => (onward_poll t).leads.output, fun s t states => ?_⟩
  cases signal : P.right.signal with
  | none =>
    rw [poll_of_none signal, poll_of_none (steady.signal.trans signal)]
    exact .ok rfl states
  | some isSet =>
    rw [poll_of_some signal, poll_of_some (steady.signal.trans signal)]
    exact .ok (by rw [steady.polls states]) (steady.asked states)

theorem lockstep_checkpoint (steady : P.Steady) {line line' : Tree} (lines : P.lines line line') :
    P.Lockstep Eq (checkpoint line) (checkpoint line') := by
  refine (lockstep_poll steady).bind fun isSet => ?_
  split
  · exact lockstep_throw (.problem lines .cancelled)
  · exact lockstep_pure rfl

theorem lockstep_writeLine (steady : P.Steady) (line : String) :
    P.Lockstep Eq (writeLine line) (writeLine line) := by
  refine lockstep_modify (fun t => ?_) fun _ _ => steady.written line
  simp

/-- A look at each of the environments. -/
theorem lockstep_inspect_of {line line' : Tree} (lines : P.lines line line')
    {look : Environment → Except Failure α} {look' : Environment → Except Failure β}
    (alike : ∀ s t, P.states s t → P.Outcomes values (look s.env) (look' t.env)) :
    P.Lockstep values (inspect line look) (inspect line' look') := by
  refine ⟨fun t => ?_, fun s t states => ?_⟩
  · cases found : look' t.env with
    | ok value =>
      rw [inspect_of_ok found]
      exact List.prefix_rfl
    | error failure =>
      rw [inspect_of_error found]
      exact List.prefix_rfl
  · have outcomes := alike s t states
    generalize left : look s.env = x, right : look' t.env = y at outcomes
    cases outcomes with
    | ok value =>
      rw [inspect_of_ok left, inspect_of_ok right]
      exact .ok value states
    | error failures =>
      rw [inspect_of_error left, inspect_of_error right]
      exact .error (failures.at lines) states

/-- A change to each of the environments. -/
theorem lockstep_update_of {change change' : Environment → Except Failure Environment}
    (alike : ∀ s t, P.states s t → P.Outcomes (fun env env' =>
      P.states { s with env, writes := s.writes + 1 }
        { t with env := env', writes := t.writes + 1 })
      (change s.env) (change' t.env)) :
    P.Lockstep Eq (update change) (update change') := by
  refine ⟨fun t => ?_, fun s t states => ?_⟩
  · cases changed : change' t.env with
    | ok env =>
      rw [update_of_ok changed]
      exact List.prefix_rfl
    | error failure =>
      rw [update_of_error changed]
      exact List.prefix_rfl
  · have outcomes := alike s t states
    generalize left : change s.env = x, right : change' t.env = y at outcomes
    cases outcomes with
    | ok states' =>
      rw [update_of_ok left, update_of_ok right]
      exact .ok rfl states'
    | error failures =>
      rw [update_of_error left, update_of_error right]
      exact .error failures states

theorem lockstep_inspect (lawful : P.Lawful) {line line' : Tree} (lines : P.lines line line')
    {look look' : Environment → Except Failure α}
    (alike : ∀ env, P.Results (look env) (look' env)) :
    P.Lockstep Eq (inspect line look) (inspect line' look') := by
  refine lockstep_inspect_of lines fun s t states => ?_
  rw [lawful.env states]
  exact (alike t.env).outcomes fun _ _ => rfl

theorem lockstep_update (lawful : P.Lawful)
    {change change' : Environment → Except Failure Environment}
    (alike : ∀ env, P.Results (change env) (change' env)) :
    P.Lockstep Eq (update change) (update change') := by
  refine lockstep_update_of fun s t states => ?_
  rw [lawful.env states]
  exact (alike t.env).outcomes fun env _ => lawful.updated env states

/-! ## Statements one after the other -/

variable {execute execute' : Tree → Machine Flow}

/-- Statements that are executed in lockstep, with lines that stand for each other. -/
structure Alongside (P : Pairing) (execute execute' : Tree → Machine Flow) (t t' : Tree) :
    Prop where
  lines : Option.Rel P.lines t.line? t'.line?
  flows : P.Lockstep P.Flows (execute t) (execute' t')

theorem Alongside.refl (same : ∀ line, P.lines line line) {t : Tree}
    (flows : P.Lockstep P.Flows (execute t) (execute' t)) : P.Alongside execute execute' t t := by
  refine ⟨?_, flows⟩
  cases t.line? with
  | none => exact .none
  | some line => exact .some (same line)

/-- Statements in a row are in lockstep if each of them runs alongside its counterpart. -/
theorem lockstep_runAll (steady : P.Steady) {ts ts' : List Tree}
    (each : List.Forall₂ (P.Alongside execute execute') ts ts') :
    P.Lockstep P.Flows (runAll execute ts) (runAll execute' ts') := by
  induction each with
  | nil => exact lockstep_pure .done
  | @cons t t' ts ts' first rest ih =>
    obtain ⟨lines, flows⟩ := first
    rw [runAll, runAll]
    generalize t.line? = line, t'.line? = line' at lines
    cases lines with
    | none => exact lockstep_throw (.fault .noSuchPart)
    | some lines =>
      refine (lockstep_checkpoint steady lines).bind fun _ => flows.andThen ?_ ?_
      · rintro _ _ (_ | lines | lines)
        · exact ih
        · exact lockstep_pure (.leave lines)
        · exact lockstep_pure (.next lines)
      · rintro (_ | _ | _) t
        · exact ih.adds t
        · exact List.prefix_rfl
        · exact List.prefix_rfl

theorem lockstep_runBlock (lawful : P.Lawful) (same : ∀ line, P.lines line line)
    (each : ∀ t, P.Lockstep P.Flows (execute t) (execute' t)) (block : Tree) :
    P.Lockstep P.Flows (runBlock execute block) (runBlock execute' block) := by
  refine (lockstep_need _ _).bind fun statements => (lockstep_need _ _).bind fun ts => ?_
  exact lockstep_runAll lawful.toSteady (List.forall₂_same.2 fun t _ => .refl same (each t))

/-- A choice is in lockstep if its tests, its branches and its last alternative are. -/
theorem lockstep_runBranches (lawful : P.Lawful) (same : ∀ line, P.lines line line)
    (each : ∀ t, P.Lockstep P.Flows (execute t) (execute' t)) {holds holds' : Tree → Machine Bool}
    (tests : ∀ t, P.Lockstep Eq (holds t) (holds' t)) {otherwise otherwise' : Machine Flow}
    (last : P.Lockstep P.Flows otherwise otherwise') (branches : List Tree) :
    P.Lockstep P.Flows (runBranches execute holds otherwise branches)
      (runBranches execute' holds' otherwise' branches) := by
  fun_induction runBranches execute holds otherwise branches with
  | case1 => exact last
  | case2 condition block line rest ih =>
    refine (tests condition).bind fun taken => ?_
    split
    · exact (lawful.step _ (same line)).bind fun _ => lockstep_runBlock lawful same each block
    · exact ih
  | case3 condition body line rest ih =>
    refine (tests condition).bind fun taken => ?_
    split
    · exact (lawful.step _ (same line)).bind fun _ => lockstep_throw (.fault .noSuchPart)
    · exact ih
  | case4 =>
    rw [runBranches.eq_4 _ _ _ _ _ ‹_› ‹_›]
    exact lockstep_throw (.fault .noSuchPart)

/-! ## Loops -/

/-- A loop is in lockstep if its test and its round are; the induction is on the patience. -/
theorem lockstep_whileLoop {test test' : Machine Bool} {round round' : Machine Flow}
    (tests : P.Lockstep Eq test test') (rounds : P.Lockstep P.Flows round round')
    (patience : Nat) :
    P.Lockstep Eq (whileLoop test round patience) (whileLoop test' round' patience) := by
  induction patience with
  | zero => exact lockstep_throw .endless
  | succ patience ih =>
    refine tests.bind fun holds => ?_
    split
    · refine rounds.andThen ?_ ?_
      · rintro _ _ (_ | lines | lines)
        · exact ih
        · exact lockstep_pure rfl
        · exact ih
      · rintro (_ | _ | _) t
        · exact ih.adds t
        · exact List.prefix_rfl
        · exact ih.adds t
    · exact lockstep_pure rfl

/-- A range loop is in lockstep if its rounds are, whatever its counter has come to. -/
theorem lockstep_rangeLoop {round round' : Float → Machine Flow} {last : Float}
    (rounds : ∀ counter, P.Lockstep P.Flows (round counter) (round' counter)) (patience : Nat)
    (counter : Float) :
    P.Lockstep Eq (rangeLoop round last patience counter)
      (rangeLoop round' last patience counter) := by
  induction patience generalizing counter with
  | zero => exact lockstep_throw .endless
  | succ patience ih =>
    rw [rangeLoop, rangeLoop]
    split
    · refine (rounds counter).andThen ?_ ?_
      · rintro _ _ (_ | lines | lines)
        · exact ih _
        · exact lockstep_pure rfl
        · exact ih _
      · rintro (_ | _ | _) t
        · exact (ih _).adds t
        · exact List.prefix_rfl
        · exact (ih _).adds t
    · exact lockstep_pure rfl

/-! ## One tree -/

/-- A statement is executed in lockstep if the statements inside it are, and if an `ask` is. -/
theorem lockstep_step (lawful : P.Lawful) (same : ∀ line, P.lines line line) {room : Nat}
    (each : ∀ t, P.Lockstep P.Flows (execute t) (execute' t)) (t : Tree)
    (asks : ∀ name line, t = .ask name line →
      P.Lockstep P.Flows (step room execute t) (step room execute' t)) :
    P.Lockstep P.Flows (step room execute t) (step room execute' t) := by
  have look {α : Type} (line : Tree) (look : Environment → Except Failure α) :
      P.Lockstep Eq (inspect line look) (inspect line look) :=
    lockstep_inspect lawful (same line) fun env => .refl same (look env)
  have change (change : Environment → Except Failure Environment) :
      P.Lockstep Eq (update change) (update change) :=
    lockstep_update lawful fun env => .refl same (change env)
  have block := lockstep_runBlock lawful same each
  cases t with
  | declare name expr fixed line =>
    refine (look _ _).bind fun value => (change _).bind fun _ => ?_
    exact (lawful.binding _ _ _).bind fun _ => lockstep_pure .done
  | assign name expr line =>
    refine (look _ _).bind fun value => (change _).bind fun _ => ?_
    exact (lawful.binding _ _ _).bind fun _ => lockstep_pure .done
  | say expr line | display expr line =>
    refine (look _ _).bind fun value => ?_
    exact (lockstep_writeLine lawful.toSteady _).bind fun _ => lockstep_pure .done
  | ask name line => exact asks name line rfl
  | choose branches otherwise line =>
    refine (lockstep_need _ _).bind fun bs => ?_
    refine lockstep_runBranches lawful same each (fun _ => look _ _) ?_ bs
    split
    · exact lockstep_pure .done
    · exact (lawful.step _ (same line)).bind fun _ => block otherwise
  | range name first last body line =>
    refine (look _ _).bind fun start => (look _ _).bind fun stop => ?_
    split
    · refine lockstep_read ?_
      rw [lawful.patience]
      refine (lockstep_rangeLoop (fun counter => ?_) _ _).bind fun _ => lockstep_pure .done
      refine (lockstep_checkpoint lawful.toSteady (same line)).bind fun _ => ?_
      refine (change _).bind fun _ => ?_
      exact (lawful.step _ (same line)).bind fun _ => block body
    · exact lockstep_throw (.problem (same line) .boundsNotNumbers)
  | whilst condition body line =>
    refine lockstep_read ?_
    rw [lawful.patience]
    refine (lockstep_whileLoop ?_ ?_ _).bind fun _ => lockstep_pure .done
    · exact (lockstep_checkpoint lawful.toSteady (same line)).bind fun _ => look _ _
    · exact (lawful.step _ (same line)).bind fun _ => block body
  | leave line => exact lockstep_pure (.leave (same line))
  | next line => exact lockstep_pure (.next (same line))
  | _ => exact lockstep_throw (.fault _)

/-! ## The same input -/

/-- Both runs have the same input, and wait for it in the same way. -/
structure Reading (P : Pairing) : Prop where
  timed : P.left.timed = P.right.timed
  renewals : P.left.renewals = P.right.renewals
  input : ∀ {s t}, P.states s t → s.input = t.input
  consumed : ∀ {s t} (input : Input), P.states s t → P.states { s with input } { t with input }

/-- The signal is awaited alike. -/
theorem lockstep_awaitSignal (steady : P.Steady) {atLast atLast' : Machine Unit}
    (last : P.Lockstep Eq atLast atLast') (bound : Nat) :
    P.Lockstep Eq (awaitSignal atLast bound) (awaitSignal atLast' bound) := by
  induction bound with
  | zero => exact last
  | succ bound ih =>
    refine (lockstep_poll steady).bind fun isSet => ?_
    split
    · exact lockstep_pure rfl
    · exact ih

/-- Waiting for a line to come into an empty queue. -/
theorem lockstep_wait (steady : P.Steady) (timed : P.left.timed = P.right.timed)
    (renewals : P.left.renewals = P.right.renewals)
    {values : Option String → Option String → Prop} (missed : values none none) :
    let wait : Machine (Option String) := do
      if (← read).timed then awaitSignal (pure ()) ((← read).renewals + 1)
      else awaitSignal (throw .endless) (← read).patience
      return none
    P.Lockstep values wait wait := by
  refine lockstep_read ?_
  rw [timed]
  split
  · refine lockstep_read ?_
    rw [renewals]
    exact (lockstep_awaitSignal steady (lockstep_pure rfl) _).bind fun _ => lockstep_pure missed
  · refine lockstep_read ?_
    rw [steady.patience]
    exact (lockstep_awaitSignal steady (lockstep_throw .endless) _).bind
      fun _ => lockstep_pure missed

/-- A line is read alike by runs that have the same input. -/
theorem lockstep_readLine (steady : P.Steady) (reading : P.Reading) :
    P.Lockstep Eq readLine readLine := by
  have consume (input : Input) : P.Lockstep Eq (modify fun s => { s with input } : Machine Unit)
      (modify fun s => { s with input }) :=
    lockstep_modify (fun _ => List.prefix_rfl) fun _ _ => reading.consumed input
  refine lockstep_get (fun s t states => by rw [reading.input states]) fun t => ?_
  split
  · exact lockstep_pure rfl
  · exact lockstep_pure rfl
  · exact (consume _).bind fun _ => lockstep_pure rfl
  · exact (consume _).bind fun _ => lockstep_pure rfl
  · exact lockstep_wait steady reading.timed reading.renewals rfl

/-- A question is asked in lockstep: the signal is asked, a line is read, and its value is bound
alike. -/
theorem lockstep_ask (lawful : P.Lawful) (reading : P.Reading) {room : Nat} {name : Tree}
    {line line' : Tree} (lines : P.lines line line')
    (alike : ∀ env value, P.Results (Environment.bind env name value line)
      (Environment.bind env name value line')) :
    P.Lockstep P.Flows (step room execute (.ask name line))
      (step room execute' (.ask name line')) := by
  refine (lockstep_readLine lawful.toSteady reading).bind fun answer => ?_
  cases answer with
  | none =>
    exact (lockstep_checkpoint lawful.toSteady lines).bind
      fun _ => lockstep_throw (.problem lines .noInput)
  | some answer =>
    refine (lockstep_update lawful fun env => alike env _).bind fun _ => ?_
    exact (lawful.binding _ _ _).bind fun _ => lockstep_pure .done

/-! ## Programs -/

/-- Signals that leave the program end both runs. -/
theorem lockstep_closing {m m' : Machine Flow} (flows : P.Lockstep P.Flows m m') :
    P.Lockstep Eq (m >>= closing) (m' >>= closing) := by
  refine flows.andThen ?_ ?_
  · rintro _ _ (_ | lines | lines)
    · exact lockstep_pure rfl
    · exact lockstep_throw (.problem lines _)
    · exact lockstep_throw (.problem lines _)
  · rintro (_ | _ | _) t <;> exact List.prefix_rfl

/-- The statements of two programs in lockstep. -/
theorem lockstep_runProgram (steady : P.Steady) {ts ts' : List Tree}
    (each : List.Forall₂ (P.Alongside (Execution.execute P.left.room)
      (Execution.execute P.right.room)) ts ts') :
    P.Lockstep Eq (runProgram ts) (runProgram ts') :=
  lockstep_read (lockstep_closing (lockstep_runAll steady each))

end Lockstep

end Pairing

/-! ## Runs -/

theorem Session.run_of_error (session : Session) {program : Tree} {failure : Failure}
    (top : program.topLevel = .error failure) :
    session.run program = (session, ⟨some failure, #[]⟩) := by
  simp only [Session.run, top]

/-- A session runs the statements of a program and keeps the state they end in. -/
theorem Session.run_of_ok (session : Session) {program : Tree} {statements : List Tree}
    (top : program.topLevel = .ok statements) :
    session.run program =
      let ended := runTraced session.setup session.state statements
      if session.recording then
        ({ session with
            state := ended.1, record := session.record ++ ended.1.trace, recording := false },
          ⟨ended.2, #[]⟩)
      else ({ session with state := ended.1 }, ⟨ended.2, ended.1.trace⟩) := by
  simp only [Session.run, top]

/-- A run ends as its statements do, with the opening and the closing line around what they have
told. -/
theorem runTraced_eq (setup : Setup) (state : State) (statements : List Tree)
    {result : EStateM.Result Failure State Unit}
    (run : Execution.runProgram statements setup { state with trace := #[] } = result) :
    runTraced setup state statements =
      (if 1 ≤ setup.level then
        { endState result with
          trace := #["run: " ++ toString statements.length ++ " top-level statements"] ++
            (endState result).trace ++
            (closingTrace (endState result).output.size (failureOf result)).toArray }
      else endState result, failureOf result) := by
  unfold runTraced
  rw [run]
  cases result with
  | ok _ s | error _ s =>
    dsimp only [endState, failureOf]
    split <;> rfl

end Parlance
