import Parlance.Proofs.Cancellation
import Parlance.Proofs.Growth

/-!
# A run that is cut short

Two runs of the same computation are compared: one under some signal, or none, and one whose signal
is besides set from the `n + 1`-st question on (`Setup.cutAfter`).  As long as fewer questions have
been asked the two states differ at most in how often (`Abreast`).  After that the second run is cut
short: it fails as cancelled, in a state from which the first one goes on (`Forked`).

What going on means is `State.Leads`: the environment grows and the output is added to.  It holds
along every run, and `Forks` carries both facts from the parts of a computation to the whole.
-/

namespace Parlance

/-- The signal that is also set from the `n + 1`-st question on. -/
def CancelSignal.orAfter (signal : CancelSignal) (n : Nat) : CancelSignal :=
  fun asked => signal asked || decide (n ≤ asked)

/-- The setup with a signal that is also set from the `n + 1`-st question on. -/
def Setup.cutAfter (setup : Setup) (n : Nat) : Setup :=
  { setup with signal := some ((setup.signal.getD .never).orAfter n) }

/-! ## Going on -/

/-- A state from which the other may be reached. -/
structure State.Leads (s s' : State) : Prop where
  env : s.env.Grows s'.env
  output : s.output.toList <+: s'.output.toList

@[refl]
theorem State.Leads.refl (s : State) : s.Leads s :=
  ⟨.refl _, List.prefix_rfl⟩

theorem State.Leads.trans {s s' s'' : State} (first : s.Leads s') (second : s'.Leads s'') :
    s.Leads s'' :=
  ⟨first.env.trans second.env, first.output.trans second.output⟩

/-- The state in which a computation has ended. -/
def endState {α : Type} : EStateM.Result Failure State α → State
  | .ok _ s => s
  | .error _ s => s

/-- The state goes on, and the signal has been asked no less. -/
structure Onward (t t' : State) : Prop where
  leads : t.Leads t'
  polls : t.polls ≤ t'.polls

@[refl]
theorem Onward.refl (t : State) : Onward t t :=
  ⟨.refl t, Nat.le_refl _⟩

theorem Onward.trans {t t' t'' : State} (first : Onward t t') (second : Onward t' t'') :
    Onward t t'' :=
  ⟨first.leads.trans second.leads, Nat.le_trans first.polls second.polls⟩

/-! ## Two runs -/

/-- Neither run has been cut short, and they differ at most in the questions: a run without a signal
asks none. -/
structure Abreast (n : Nat) (setup : Setup) (s t : State) : Prop where
  same : t = { s with polls := t.polls }
  asked : setup.signal.isSome = true → t.polls = s.polls
  live : s.polls ≤ n

/-- The run that was not cut short has gone on from the state, past its first `n` questions. -/
structure Ahead (n : Nat) (setup : Setup) (s t : State) : Prop where
  leads : s.Leads t
  asked : setup.signal.isSome = true → n < t.polls

/-- How two runs end: abreast of each other, or with the one cut short and the other ahead. -/
inductive Forked {α : Type} (n : Nat) (setup : Setup) :
    EStateM.Result Failure State α → EStateM.Result Failure State α → Prop
  | ok {a s t} (abreast : Abreast n setup s t) : Forked n setup (.ok a s) (.ok a t)
  | error {failure s t} (abreast : Abreast n setup s t) :
    Forked n setup (.error failure s) (.error failure t)
  | cut {line s y} (ahead : Ahead n setup s (endState y)) :
    Forked n setup (.error (.problem line .cancelled) s) y

theorem Ahead.onward {n : Nat} {setup : Setup} {s t t' : State} (ahead : Ahead n setup s t)
    (onward : Onward t t') : Ahead n setup s t' :=
  ⟨ahead.leads.trans onward.leads, fun signal => Nat.lt_of_lt_of_le (ahead.asked signal)
    onward.polls⟩

theorem Abreast.leads {n : Nat} {setup : Setup} {s t : State} (abreast : Abreast n setup s t) :
    s.Leads t := by
  rw [abreast.same]
  exact ⟨.refl _, List.prefix_rfl⟩

theorem Forked.leads {α : Type} {n : Nat} {setup : Setup}
    {x y : EStateM.Result Failure State α} (forked : Forked n setup x y) :
    (endState x).Leads (endState y) := by
  cases forked with
  | ok abreast => exact abreast.leads
  | error abreast => exact abreast.leads
  | cut ahead => exact ahead.leads

/-- The computation only goes on, and cut short it forks. -/
def Forks {α : Type} (n : Nat) (setup : Setup) (m : Machine α) : Prop :=
  ∀ t : State, Onward t (endState (m setup t)) ∧
    ∀ s : State, Abreast n setup s t → Forked n setup (m (setup.cutAfter n) s) (m setup t)

/-! ## The parts of computations -/

section Forks

open Machine Execution

variable {α β : Type} {n : Nat} {setup : Setup}

/-- What comes after a computation goes on from where that has ended. -/
theorem onward_bind {m : Machine α} {next : α → Machine β} (t : State)
    (onward : ∀ a t', Onward t' (endState (next a setup t'))) :
    Onward (endState (m setup t)) (endState ((m >>= next) setup t)) := by
  cases run : m setup t with
  | ok a t' =>
    rw [bind_of_ok run]
    exact onward a t'
  | error failure t' =>
    rw [bind_of_error run]
    exact .refl t'

theorem forks_pure {a : α} : Forks n setup (pure a) :=
  fun t => ⟨.refl t, fun _ abreast => .ok abreast⟩

theorem forks_throw {failure : Failure} : Forks n setup (throw failure : Machine α) :=
  fun t => ⟨.refl t, fun _ abreast => .error abreast⟩

/-- Two runs that have forked stay so. -/
theorem Forked.bind {m : Machine α} {next : α → Machine β} {s t : State}
    (forked : Forked n setup (m (setup.cutAfter n) s) (m setup t))
    (onward : ∀ a, Forks n setup (next a)) :
    Forked n setup ((m >>= next) (setup.cutAfter n) s) ((m >>= next) setup t) := by
  have later := onward_bind (m := m) t fun a t' => (onward a t').1
  generalize short : m (setup.cutAfter n) s = x, long : m setup t = y at forked later
  cases forked with
  | ok abreast =>
    rw [bind_of_ok short, bind_of_ok long]
    exact (onward _ _).2 _ abreast
  | error abreast =>
    rw [bind_of_error short, bind_of_error long]
    exact .error abreast
  | cut ahead =>
    rw [bind_of_error short]
    exact .cut (ahead.onward later)

theorem Forks.bind {m : Machine α} {next : α → Machine β} (first : Forks n setup m)
    (onward : ∀ a, Forks n setup (next a)) : Forks n setup (m >>= next) := by
  intro t
  have later := onward_bind (m := m) t fun a t' => (onward a t').1
  exact ⟨(first t).1.trans later, fun s abreast => ((first t).2 s abreast).bind onward⟩

/-- A look at the state that leaves the questions aside. -/
theorem forks_get {next : State → Machine β}
    (blind : ∀ s polls, next { s with polls } = next s) (onward : ∀ t, Forks n setup (next t)) :
    Forks n setup (get >>= next) := by
  intro t
  refine ⟨(onward t t).1, fun s abreast => ?_⟩
  have same : next t = next s := by
    rw [abreast.same, blind]
  have forked : Forked n setup (next s (setup.cutAfter n) s) (next t setup t) := by
    rw [← same]
    exact (onward t t).2 s abreast
  exact forked

/-- A look at the setup that leaves the signal aside. -/
theorem forks_read {next : Setup → Machine β}
    (blind : next (setup.cutAfter n) = next setup) (onward : Forks n setup (next setup)) :
    Forks n setup (read >>= next) := by
  intro t
  refine ⟨(onward t).1, fun s abreast => ?_⟩
  have forked : Forked n setup (next (setup.cutAfter n) (setup.cutAfter n) s)
      (next setup setup t) := by
    rw [blind]
    exact (onward t).2 s abreast
  exact forked

/-- A change of the state that leaves the questions aside. -/
theorem forks_modify {change : State → State} (onward : ∀ t, Onward t (change t))
    (blind : ∀ s polls, change { s with polls } = { change s with polls })
    (unasked : ∀ s, (change s).polls = s.polls) : Forks n setup (modify change) := by
  intro t
  refine ⟨onward t, fun s abreast => ?_⟩
  have moved : Abreast n setup (change s) (change t) := by
    refine ⟨?_, fun signal => ?_, ?_⟩
    · rw [unasked t]
      exact (congrArg change abreast.same).trans (blind s t.polls)
    · rw [unasked, unasked]
      exact abreast.asked signal
    · rw [unasked]
      exact abreast.live
  exact .ok moved

theorem forks_writeLine {line : String} : Forks n setup (writeLine line) := by
  refine forks_modify (fun t => ⟨⟨.refl _, ?_⟩, Nat.le_refl _⟩) (fun _ _ => rfl) fun _ => rfl
  simp

theorem forks_trace {level : Nat} {text : Unit → String} : Forks n setup (trace level text) := by
  refine forks_read rfl ?_
  split
  · exact forks_modify (fun _ => ⟨⟨.refl _, List.prefix_rfl⟩, Nat.le_refl _⟩) (fun _ _ => rfl)
      fun _ => rfl
  · exact forks_pure

theorem forks_need {part : Option α} {fault : Fault} : Forks n setup (need part fault) := by
  cases part with
  | some found => exact forks_pure
  | none => exact forks_throw

theorem forks_inspect {line : Tree} {look : Environment → Except Failure α} :
    Forks n setup (inspect line look) := by
  refine forks_get (fun _ _ => rfl) fun t => ?_
  split
  · exact forks_pure
  · exact forks_throw

/-- A change of the environment lets it grow, so the interrupted run stays a beginning of the
other. -/
theorem forks_update {change : Environment → Except Failure Environment}
    (grows : ∀ env env', change env = .ok env' → env.Grows env') :
    Forks n setup (update change) := by
  intro t
  cases done : change t.env with
  | ok env =>
    rw [update_of_ok done]
    refine ⟨⟨⟨grows _ _ done, List.prefix_rfl⟩, Nat.le_refl _⟩, fun s abreast => ?_⟩
    have done' : change s.env = .ok env := by
      rw [abreast.same] at done
      exact done
    rw [update_of_ok done']
    refine .ok ⟨?_, abreast.asked, abreast.live⟩
    rw [abreast.same]
  | error failure =>
    rw [update_of_error done]
    refine ⟨.refl t, fun s abreast => ?_⟩
    have refused : change s.env = .error failure := by
      rw [abreast.same] at done
      exact done
    rw [update_of_error refused]
    exact .error abreast

/-! ## Questions -/

/-- How a question is answered: to both runs alike, or to the second one with yes for the first
time. -/
theorem poll_cases {s t : State} (abreast : Abreast n setup s t) :
    ∃ answer answer' t', poll setup t = .ok answer' t' ∧ Onward t t' ∧
      poll (setup.cutAfter n) s = .ok answer { s with polls := s.polls + 1 } ∧
      (answer' = answer ∧ Abreast n setup { s with polls := s.polls + 1 } t' ∨
        answer = true ∧ n < s.polls + 1 ∧ Ahead n setup { s with polls := s.polls + 1 } t') := by
  have short : poll (setup.cutAfter n) s =
      .ok ((setup.signal.getD .never).orAfter n s.polls) { s with polls := s.polls + 1 } :=
    poll_of_some rfl
  cases signal : setup.signal with
  | none =>
    refine ⟨_, _, t, poll_of_none signal, .refl t, short, ?_⟩
    rw [signal]
    by_cases late : n ≤ s.polls
    · refine .inr ⟨by simp [CancelSignal.orAfter, late], Nat.lt_succ_of_le late, ?_⟩
      refine ⟨?_, fun some => absurd some (by simp [signal])⟩
      exact ⟨abreast.leads.env, abreast.leads.output⟩
    · refine .inl ⟨by simp [CancelSignal.orAfter, CancelSignal.never, late], ?_⟩
      refine ⟨abreast.same, fun some => absurd some (by simp [signal]), ?_⟩
      exact Nat.lt_of_not_le late
  | some isSet =>
    have polls : t.polls = s.polls := abreast.asked (by simp [signal])
    have next : Onward t { t with polls := t.polls + 1 } :=
      ⟨⟨.refl _, List.prefix_rfl⟩, Nat.le_succ _⟩
    refine ⟨_, _, _, poll_of_some signal, next, short, ?_⟩
    rw [signal]
    by_cases late : n ≤ s.polls
    · refine .inr ⟨by simp [CancelSignal.orAfter, late], Nat.lt_succ_of_le late, ?_⟩
      refine ⟨⟨abreast.leads.env, abreast.leads.output⟩, fun _ => ?_⟩
      rw [polls]
      exact Nat.lt_succ_of_le late
    · refine .inl ⟨by simp [CancelSignal.orAfter, late, polls], ?_⟩
      refine ⟨?_, fun _ => by rw [polls], Nat.lt_of_not_le late⟩
      rw [abreast.same]

/-- Asking the signal changes nothing but the count of the questions. -/
theorem onward_poll (t : State) : Onward t (endState (poll setup t)) := by
  cases signal : setup.signal with
  | none =>
    rw [poll_of_none signal]
    exact .refl t
  | some isSet =>
    rw [poll_of_some signal]
    exact ⟨⟨.refl _, List.prefix_rfl⟩, Nat.le_succ _⟩

/-- Where the signal stops the run, it stops the second run at the same question or earlier. -/
theorem forks_checkpoint {line : Tree} : Forks n setup (checkpoint line) := by
  intro t
  have later : ∀ (answer : Bool) (t' : State), Onward t'
      (endState ((if answer then throw (.problem line .cancelled) else pure () : Machine Unit)
        setup t')) := by
    rintro (_ | _) t' <;> exact .refl t'
  have onward := onward_bind (m := poll) t later
  refine ⟨(onward_poll t).trans onward, fun s abreast => ?_⟩
  obtain ⟨answer, answer', t', long, _, short, ⟨rfl, abreast'⟩ | ⟨rfl, _, ahead⟩⟩ :=
    poll_cases abreast
  · have long' : checkpoint line setup t = _ := bind_of_ok long
    have short' : checkpoint line (setup.cutAfter n) s = _ := bind_of_ok short
    rw [long', short']
    cases answer' with
    | false => exact .ok abreast'
    | true => exact .error abreast'
  · have short' : checkpoint line (setup.cutAfter n) s = _ := bind_of_ok short
    rw [short']
    rw [long] at onward
    exact .cut (ahead.onward onward)

/-! ## Reading -/

/-- The second run has found the signal set while it waited, and goes on with the value; the first
one has gone ahead. -/
def Roused (n : Nat) (setup : Setup) (value : α) (x y : EStateM.Result Failure State α) : Prop :=
  ∃ s, x = .ok value s ∧ n < s.polls ∧ Ahead n setup s (endState y)

/-- The computation only goes on, and cut short it forks or is roused from waiting. -/
def Waits (n : Nat) (setup : Setup) (value : α) (m : Machine α) : Prop :=
  ∀ t : State, Onward t (endState (m setup t)) ∧
    ∀ s : State, Abreast n setup s t →
      Forked n setup (m (setup.cutAfter n) s) (m setup t) ∨
        Roused n setup value (m (setup.cutAfter n) s) (m setup t)

theorem Forks.waits {m : Machine α} (forks : Forks n setup m) (value : α) :
    Waits n setup value m :=
  fun t => ⟨(forks t).1, fun s abreast => .inl ((forks t).2 s abreast)⟩

/-- While the signal is awaited nothing is done, so both runs come out of it with the same state,
apart from the questions asked. -/
theorem waits_awaitSignal {atLast : Machine Unit} (last : Forks n setup atLast) (bound : Nat) :
    Waits n setup () (awaitSignal atLast bound) := by
  induction bound with
  | zero => exact last.waits ()
  | succ bound ih =>
    intro t
    have later : ∀ (answer : Bool) (t' : State), Onward t'
        (endState ((if answer then pure () else awaitSignal atLast bound : Machine Unit)
          setup t')) := by
      rintro (_ | _) t'
      · exact (ih t').1
      · exact .refl t'
    have onward := onward_bind (m := poll) t later
    refine ⟨(onward_poll t).trans onward, fun s abreast => ?_⟩
    obtain ⟨answer, answer', t', long, _, short, ⟨rfl, abreast'⟩ | ⟨rfl, late, ahead⟩⟩ :=
      poll_cases abreast
    · have long' : awaitSignal atLast (bound + 1) setup t = _ := bind_of_ok long
      have short' : awaitSignal atLast (bound + 1) (setup.cutAfter n) s = _ := bind_of_ok short
      rw [long', short']
      cases answer' with
      | false => exact (ih t').2 _ abreast'
      | true => exact .inl (.ok abreast')
    · have short' : awaitSignal atLast (bound + 1) (setup.cutAfter n) s = _ := bind_of_ok short
      rw [long] at onward
      exact .inr ⟨_, short', late, ahead.onward onward⟩

/-- A wait that ends without a line. -/
theorem Waits.bind_none {m : Machine Unit} (waits : Waits n setup () m) :
    Waits n setup (none : Option String) (m >>= fun _ => pure none) := by
  intro t
  have onward := onward_bind (m := m) t
    fun _ t' => Onward.refl (endState ((pure none : Machine (Option String)) setup t'))
  refine ⟨(waits t).1.trans onward, fun s abreast => ?_⟩
  rcases (waits t).2 s abreast with forked | ⟨s', short, late, ahead⟩
  · exact .inl (forked.bind fun _ => forks_pure)
  · exact .inr ⟨s', bind_of_ok short, late, ahead.onward onward⟩

/-- Looking at a state without its questions is no difference. -/
theorem waits_get {value : β} {next : State → Machine β}
    (blind : ∀ s polls, next { s with polls } = next s)
    (onward : ∀ t, Waits n setup value (next t)) : Waits n setup value (get >>= next) := by
  intro t
  refine ⟨(onward t t).1, fun s abreast => ?_⟩
  have same : next t = next s := by
    rw [abreast.same, blind]
  have outcome := (onward t t).2 s abreast
  have short : (get >>= next) (setup.cutAfter n) s = next t (setup.cutAfter n) s := by
    rw [same]
    rfl
  rw [← short] at outcome
  exact outcome

/-- Looking at a setup without its signal is no difference. -/
theorem waits_read {value : β} {next : Setup → Machine β}
    (blind : next (setup.cutAfter n) = next setup)
    (onward : Waits n setup value (next setup)) : Waits n setup value (read >>= next) := by
  intro t
  refine ⟨(onward t).1, fun s abreast => ?_⟩
  have outcome := (onward t).2 s abreast
  have short : (read >>= next) (setup.cutAfter n) s = next setup (setup.cutAfter n) s := by
    rw [← blind]
    rfl
  rw [← short] at outcome
  exact outcome

theorem forks_modify_input {input : Input} :
    Forks n setup (modify fun s => { s with input }) :=
  forks_modify (fun _ => ⟨⟨.refl _, List.prefix_rfl⟩, Nat.le_refl _⟩) (fun _ _ => rfl) fun _ => rfl

/-- Reading waits and gives no line, or gives the same line to both. -/
theorem waits_readLine : Waits n setup none readLine := by
  refine waits_get (fun _ _ => rfl) fun t => ?_
  split
  · exact forks_pure.waits none
  · exact forks_pure.waits none
  · exact (forks_modify_input.bind fun _ => forks_pure).waits none
  · exact (forks_modify_input.bind fun _ => forks_pure).waits none
  · refine waits_read rfl ?_
    dsimp only
    split
    · exact waits_read rfl (waits_awaitSignal forks_pure _).bind_none
    · exact waits_read rfl (waits_awaitSignal forks_throw _).bind_none

/-- Where no line has come, the second run asks once more and finds the signal set. -/
theorem checkpoint_of_lt {line : Tree} {s : State} (late : n < s.polls) :
    checkpoint line (setup.cutAfter n) s =
      .error (.problem line .cancelled) { s with polls := s.polls + 1 } := by
  have isSet : (setup.signal.getD .never).orAfter n s.polls = true := by
    simp [CancelSignal.orAfter, Nat.le_of_lt late]
  have asked : poll (setup.cutAfter n) s = .ok true { s with polls := s.polls + 1 } := by
    rw [← isSet]
    exact poll_of_some rfl
  exact bind_of_ok asked

/-- A run that has waited for a line in vain fails as cancelled, whatever it would have said. -/
theorem Waits.bind_checkpoint {m : Machine (Option String)} (waits : Waits n setup none m)
    {line : Tree} {failure : Failure} {next : Option String → Machine β}
    (vain : next none = checkpoint line >>= fun _ => throw failure)
    (onward : ∀ answer, Forks n setup (next (some answer))) : Forks n setup (m >>= next) := by
  have forks : ∀ answer, Forks n setup (next answer) := by
    rintro (_ | answer)
    · rw [vain]
      exact forks_checkpoint.bind fun _ => forks_throw
    · exact onward answer
  intro t
  have later := onward_bind (m := m) t fun a t' => (forks a t').1
  refine ⟨(waits t).1.trans later, fun s abreast => ?_⟩
  rcases (waits t).2 s abreast with forked | ⟨s', short, late, ahead⟩
  · exact forked.bind forks
  · rw [bind_of_ok short, vain, bind_of_error (checkpoint_of_lt late)]
    have ahead' := ahead.onward later
    exact .cut ⟨⟨ahead'.leads.env, ahead'.leads.output⟩, ahead'.asked⟩

/-! ## Statements -/

variable {execute : Tree → Machine Flow} {room : Nat}

theorem forks_runAll (each : ∀ t, Forks n setup (execute t)) (ts : List Tree) :
    Forks n setup (runAll execute ts) := by
  induction ts with
  | nil => exact forks_pure
  | cons t ts ih =>
    refine forks_need.bind fun line => forks_checkpoint.bind fun _ => (each t).bind fun flow => ?_
    split
    · exact ih
    · exact forks_pure

theorem forks_runBlock (each : ∀ t, Forks n setup (execute t)) (block : Tree) :
    Forks n setup (runBlock execute block) :=
  forks_need.bind fun _ => forks_need.bind fun ts => forks_runAll each ts

/-- A choice forks if its tests, its branches and its last alternative do. -/
theorem forks_runBranches (each : ∀ t, Forks n setup (execute t)) {holds : Tree → Machine Bool}
    (tests : ∀ t, Forks n setup (holds t)) {otherwise : Machine Flow}
    (last : Forks n setup otherwise) (branches : List Tree) :
    Forks n setup (runBranches execute holds otherwise branches) := by
  fun_induction runBranches execute holds otherwise branches with
  | case1 => exact last
  | case2 condition block line rest ih =>
    refine (tests condition).bind fun taken => ?_
    split
    · exact forks_trace.bind fun _ => forks_runBlock each block
    · exact ih
  | case3 condition body line rest ih =>
    refine (tests condition).bind fun taken => ?_
    split
    · exact forks_trace.bind fun _ => forks_throw
    · exact ih
  | case4 => exact forks_throw

/-- A loop forks if its test and its round do; the induction is on the patience. -/
theorem forks_whileLoop {test : Machine Bool} {round : Machine Flow}
    (tests : Forks n setup test) (rounds : Forks n setup round) (patience : Nat) :
    Forks n setup (whileLoop test round patience) := by
  induction patience with
  | zero => exact forks_throw
  | succ patience ih =>
    refine tests.bind fun holds => ?_
    split
    · refine rounds.bind fun flow => ?_
      split
      · exact forks_pure
      · exact ih
    · exact forks_pure

/-- A range loop forks if its rounds do, whatever its counter has come to. -/
theorem forks_rangeLoop {round : Float → Machine Flow} {last : Float}
    (rounds : ∀ counter, Forks n setup (round counter)) (patience : Nat) (counter : Float) :
    Forks n setup (rangeLoop round last patience counter) := by
  induction patience generalizing counter with
  | zero => exact forks_throw
  | succ patience ih =>
    rw [rangeLoop]
    split
    · refine (rounds counter).bind fun flow => ?_
      split
      · exact forks_pure
      · exact ih _
    · exact forks_pure

/-- A statement forks if the statements inside it do. -/
theorem forks_step (each : ∀ t, Forks n setup (execute t)) (t : Tree) :
    Forks n setup (step room execute t) := by
  cases t with
  | declare name expr fixed line =>
    refine forks_inspect.bind fun value => ?_
    refine (forks_update fun _ _ => Environment.grows_declare).bind fun _ => ?_
    exact forks_trace.bind fun _ => forks_pure
  | assign name expr line =>
    refine forks_inspect.bind fun value => ?_
    refine (forks_update fun _ _ => Environment.grows_assign).bind fun _ => ?_
    exact forks_trace.bind fun _ => forks_pure
  | say expr line | display expr line =>
    exact forks_inspect.bind fun value => forks_writeLine.bind fun _ => forks_pure
  | ask name line =>
    refine waits_readLine.bind_checkpoint rfl fun answer => ?_
    refine (forks_update fun _ _ => Environment.grows_bind).bind fun _ => ?_
    exact forks_trace.bind fun _ => forks_pure
  | choose branches otherwise line =>
    refine forks_need.bind fun bs => forks_runBranches each (fun _ => forks_inspect) ?_ bs
    split
    · exact forks_pure
    · exact forks_trace.bind fun _ => forks_runBlock each otherwise
  | range name first last body line =>
    refine forks_inspect.bind fun start => forks_inspect.bind fun stop => ?_
    split
    · refine forks_read rfl ((forks_rangeLoop (fun counter => ?_) _ _).bind fun _ => forks_pure)
      refine forks_checkpoint.bind fun _ => ?_
      refine (forks_update fun _ _ => Environment.grows_bind).bind fun _ => ?_
      exact forks_trace.bind fun _ => forks_runBlock each body
    · exact forks_throw
  | whilst condition body line =>
    refine forks_read rfl ((forks_whileLoop ?_ ?_ _).bind fun _ => forks_pure)
    · exact forks_checkpoint.bind fun _ => forks_inspect
    · exact forks_trace.bind fun _ => forks_runBlock each body
  | leave line | next line => exact forks_pure
  | _ => exact forks_throw

theorem forks_execute (room : Nat) (t : Tree) : Forks n setup (Execution.execute room t) := by
  induction room generalizing t with
  | zero => exact forks_throw
  | succ room ih => exact forks_step ih t

theorem forks_runProgram (statements : List Tree) : Forks n setup (runProgram statements) := by
  refine forks_read rfl ((forks_runAll (forks_execute setup.room) statements).bind fun flow => ?_)
  cases flow with
  | done => exact forks_pure
  | leave line | next line => exact forks_throw

end Forks

/-! ## Runs -/

/-- A run in a session ends in the state in which its statements do, apart from the trace. -/
theorem exists_trace_runTraced (setup : Setup) (state : State) (statements : List Tree) :
    ∃ trace, (runTraced setup state statements).1 =
      { endState (Execution.runProgram statements setup { state with trace := #[] }) with
        trace } := by
  obtain ⟨s', trace, same, ⟨run, _⟩ | ⟨failure, run, _⟩⟩ := runTraced_cases setup state statements
  · exact ⟨trace, by rw [same, run]; rfl⟩
  · exact ⟨trace, by rw [same, run]; rfl⟩

/-- The two runs start together. -/
theorem abreast_start {n : Nat} (setup : Setup) {state : State} (live : state.polls ≤ n) :
    Abreast n setup { state with trace := #[] } { state with trace := #[] } :=
  ⟨rfl, fun _ => rfl, live⟩

/-- A run only goes on from where it starts. -/
theorem leads_runTraced (setup : Setup) (state : State) (statements : List Tree) :
    state.Leads (runTraced setup state statements).1 := by
  have forks : Forks 0 setup (Execution.runProgram statements) := forks_runProgram statements
  have onward := (forks { state with trace := #[] }).1
  obtain ⟨trace, same⟩ := exists_trace_runTraced setup state statements
  rw [same]
  exact ⟨onward.leads.env, onward.leads.output⟩

/-- A run that is cut short leads to the one that is not. -/
theorem leads_runTraced_cutAfter {n : Nat} (setup : Setup) {state : State} (live : state.polls ≤ n)
    (statements : List Tree) :
    (runTraced (setup.cutAfter n) state statements).1.Leads
      (runTraced setup state statements).1 := by
  have leads := ((forks_runProgram statements _).2 _ (abreast_start setup live)).leads
  obtain ⟨_, short⟩ := exists_trace_runTraced (setup.cutAfter n) state statements
  obtain ⟨_, long⟩ := exists_trace_runTraced setup state statements
  rw [short, long]
  exact ⟨leads.env, leads.output⟩

theorem Abreast.eq_of_isSome {n : Nat} {setup : Setup} {s t : State} (abreast : Abreast n setup s t)
    (watched : setup.signal.isSome = true) : t = s := by
  rw [abreast.same, abreast.asked watched]

/-- A run under a signal that is cut short is the same up to its first `n` questions, or it is
cancelled and the other one goes on past them. -/
theorem runTraced_cutAfter_cases {n : Nat} {setup : Setup} (watched : setup.signal.isSome = true)
    {state : State} (live : state.polls ≤ n) (statements : List Tree) :
    runTraced (setup.cutAfter n) state statements = runTraced setup state statements ∧
        (runTraced setup state statements).1.polls ≤ n ∨
      (∃ line, (runTraced (setup.cutAfter n) state statements).2 =
          some (.problem line .cancelled)) ∧
        n < (runTraced setup state statements).1.polls := by
  have forked := (forks_runProgram statements _).2 _ (abreast_start setup live)
  obtain ⟨_, long⟩ := exists_trace_runTraced setup state statements
  generalize shortRun : Execution.runProgram statements (setup.cutAfter n)
    { state with trace := #[] } = x at forked
  generalize longRun : Execution.runProgram statements setup
    { state with trace := #[] } = y at forked long
  have together (same : x = y) (early : (endState y).polls ≤ n) :
      runTraced (setup.cutAfter n) state statements = runTraced setup state statements ∧
        (runTraced setup state statements).1.polls ≤ n := by
    subst same
    rw [long]
    refine ⟨?_, early⟩
    unfold runTraced
    rw [shortRun, longRun]
    rfl
  cases forked with
  | ok abreast =>
    cases abreast.eq_of_isSome watched
    exact .inl (together rfl abreast.live)
  | error abreast =>
    cases abreast.eq_of_isSome watched
    exact .inl (together rfl abreast.live)
  | @cut line s _ ahead =>
    refine .inr ⟨⟨line, ?_⟩, ?_⟩
    · obtain ⟨_, _, _, ⟨run, _⟩ | ⟨failure, run, failed⟩⟩ :=
        runTraced_cases (setup.cutAfter n) state statements
      · cases shortRun.symm.trans run
      · cases shortRun.symm.trans run
        exact failed
    · rw [long]
      exact ahead.asked watched

/-! ## Sessions -/

/-- The session with more patience, or less. -/
def Session.patient (session : Session) (patience : Nat) : Session :=
  { session with setup := { session.setup with patience } }

/-- The session with a signal, which has not been asked yet. -/
def Session.watched (session : Session) (signal : CancelSignal) : Session :=
  { session with
    setup := { session.setup with signal := some signal }
    state := { session.state with polls := 0 } }

/-- The run of the program comes to an end, and leaves the state and the report. -/
def Session.EndsWith (session : Session) (program : Tree) (final : State) (report : RunReport) :
    Prop :=
  ∃ patience, ((session.patient patience).run program).1.state = final ∧
    ((session.patient patience).run program).2 = report ∧ report.failure ≠ some .endless

/-- What a run leaves behind depends on its session only through how its statements are run and
whether their trace is recorded. -/
theorem Session.run_congr {session other : Session} {program : Tree} {statements : List Tree}
    (top : program.topLevel = .ok statements) (recording : other.recording = session.recording)
    (same : runTraced other.setup other.state statements =
      runTraced session.setup session.state statements) :
    (other.run program).1.state = (session.run program).1.state ∧
      (other.run program).2 = (session.run program).2 := by
  simp only [Session.run, top, same, recording]
  split
  · exact ⟨rfl, rfl⟩
  · exact ⟨rfl, rfl⟩

/-- The two runs, followed with enough patience. -/
theorem Session.run_watched_cases (session : Session) (program : Tree) {n patience : Nat}
    (patient : n < patience) :
    let cut := ((session.watched (.after n)).patient patience).run program
    let full := ((session.watched .never).patient patience).run program
    (cut.1.state = full.1.state ∧ cut.2 = full.2) ∧ full.1.state.polls ≤ n ∧
        full.2.failure ≠ some .endless ∨
      (∃ line, cut.2.failure = some (.problem line .cancelled)) ∧ n < full.1.state.polls ∧
        cut.1.state.output.toList <+: full.1.state.output.toList := by
  intro cut full
  cases top : program.topLevel with
  | error failure =>
    have final : failure ≠ .endless := by
      have bounded := (bounded_run session program n).1
      simp only [Session.run, top] at bounded
      exact fun same => bounded (congrArg some same)
    have rejected (session : Session) : session.run program = (session, ⟨some failure, #[]⟩) := by
      simp only [Session.run, top]
    have cutRun : cut = _ := rejected _
    have fullRun : full = _ := rejected _
    rw [cutRun, fullRun]
    exact .inl ⟨⟨rfl, rfl⟩, Nat.zero_le n, fun same => final (Option.some.inj same)⟩
  | ok statements =>
    let short := (session.watched (.after n)).patient patience
    let long := (session.watched .never).patient patience
    have live : long.state.polls ≤ n := Nat.zero_le n
    have unasked : short.state.polls = 0 := rfl
    have signal : short.setup.signal = some (.after n) := rfl
    have bounded := (bounded_runTraced signal patient unasked statements).1
    obtain ⟨state, failure⟩ := Session.run_of_topLevel long top
    obtain ⟨state', failure'⟩ := Session.run_of_topLevel short top
    have watched : long.setup.signal.isSome = true := rfl
    rcases runTraced_cutAfter_cases watched live statements with
      ⟨same, early⟩ | ⟨⟨line, cancelled⟩, late⟩
    · have same' : runTraced short.setup short.state statements =
        runTraced long.setup long.state statements := same
      rw [same'] at bounded
      exact .inl ⟨Session.run_congr top rfl same', state ▸ early, failure ▸ bounded⟩
    · have leads := leads_runTraced_cutAfter long.setup live statements
      refine .inr ⟨⟨line, failure' ▸ cancelled⟩, state ▸ late, ?_⟩
      rw [state, state']
      exact leads.output

/-- A run that is cancelled from the `n + 1`-st question on is the beginning of the run that is
never cancelled.  Where that one ends with at most `n` questions, so does the other, in the same
state and with the same report.  In all other cases it ends as cancelled, and what it has written
are the first lines of what the other one has written, if that is followed any further. -/
theorem Session.cancelled_run_is_prefix (session : Session) (program : Tree) (n : Nat) :
    (∀ final report, (session.watched .never).EndsWith program final report → final.polls ≤ n →
      (session.watched (.after n)).EndsWith program final report) ∧
    ((¬ ∃ final report, (session.watched .never).EndsWith program final report ∧
        final.polls ≤ n) →
      ∃ final report line, (session.watched (.after n)).EndsWith program final report ∧
        report.failure = some (.problem line .cancelled) ∧
        ∀ patience, n < patience → final.output.toList <+:
          (((session.watched .never).patient patience).run program).1.state.output.toList) := by
  constructor
  · rintro final report ⟨patience, rfl, rfl, ends⟩ early
    -- Followed for longer, the run that has ended is the same.
    obtain ⟨state, report⟩ := Session.run_of_patience_le ((session.watched .never).patient patience)
      program (Nat.le_max_left patience (n + 1)) ends
    have patient : n < max patience (n + 1) := Nat.le_max_right patience (n + 1)
    rcases session.run_watched_cases program patient with ⟨⟨same, same'⟩, _, _⟩ | ⟨_, late, _⟩
    · refine ⟨max patience (n + 1), same.trans state, same'.trans report, ends⟩
    · have late' : n < (((session.watched .never).patient patience).run program).1.state.polls :=
        state ▸ late
      exact absurd early (Nat.not_le.2 late')
  · intro goesOn
    have cancelled (patience : Nat) (patient : n < patience) :
        (∃ line, (((session.watched (.after n)).patient patience).run program).2.failure =
          some (.problem line .cancelled)) ∧
        (((session.watched (.after n)).patient patience).run program).1.state.output.toList <+:
          (((session.watched .never).patient patience).run program).1.state.output.toList := by
      rcases session.run_watched_cases program patient with ⟨_, early, ends⟩ | ⟨failed, _, lines⟩
      · exact absurd ⟨_, _, ⟨patience, rfl, rfl, ends⟩, early⟩ goesOn
      · exact ⟨failed, lines⟩
    obtain ⟨⟨line, failed⟩, _⟩ := cancelled (n + 1) (Nat.lt_succ_self n)
    have ends : (((session.watched (.after n)).patient (n + 1)).run program).2.failure ≠
        some .endless := by
      simp [failed]
    refine ⟨_, _, line, ⟨n + 1, rfl, rfl, ends⟩, failed, fun patience patient => ?_⟩
    have more : n + 1 ≤ patience := patient
    obtain ⟨state, _⟩ := Session.run_of_patience_le ((session.watched (.after n)).patient (n + 1))
      program more ends
    rw [← state]
    exact (cancelled patience patient).2

/-- Two lines are written, with a question before each.  A run with two questions is the whole run,
and one with a single question stops after the first line. -/
theorem cancelled_run_of_two_lines :
    let session : Session := { setup := {}, state := {} }
    let say (line : String) : Tree := .say (.textLit (.text line) (lineTree 1)) (lineTree 1)
    let program : Tree := .program (.list [say "a", say "b"])
    (∃ final report, (session.watched (.after 2)).EndsWith program final report ∧
      final.output = #["a", "b"] ∧ report.failure = none) ∧
    (∃ final report line, (session.watched (.after 1)).EndsWith program final report ∧
      report.failure = some (.problem line .cancelled) ∧
      final.output.toList <+: ["a", "b"]) := by
  intro session say program
  have full (patience : Nat) :
      (((session.watched .never).patient patience).run program).1.state.polls = 2 ∧
      (((session.watched .never).patient patience).run program).1.state.output = #["a", "b"] ∧
      (((session.watched .never).patient patience).run program).2.failure = none :=
    ⟨rfl, rfl, rfl⟩
  obtain ⟨polls, output, unfailed⟩ := full 0
  constructor
  · refine ⟨_, _, (session.cancelled_run_is_prefix program 2).1 _ _ ⟨0, rfl, rfl, ?_⟩ ?_, output,
      unfailed⟩
    · simp [unfailed]
    · exact Nat.le_of_eq polls
  · obtain ⟨final, report, line, ends, failed, lines⟩ :=
      (session.cancelled_run_is_prefix program 1).2 (by
        rintro ⟨_, _, ⟨patience, rfl, _, _⟩, early⟩
        rw [(full patience).1] at early
        exact absurd early (by decide))
    have shown := lines 2 (by decide)
    rw [(full 2).2.1] at shown
    exact ⟨final, report, line, ends, failed, shown⟩

end Parlance
