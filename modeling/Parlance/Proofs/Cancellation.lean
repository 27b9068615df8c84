import Parlance.Proofs.Patience
import Parlance.Proofs.PlainFailures

/-!
# A cancelled run ends

The machine asks the cancel signal before every statement and before every round of a loop, and
between two questions it writes at most one line or makes at most one binding.  So a question pays
for one effect (`Paid`), and a run whose signal is set from the `n + 1`-st question on ends after at
most `n + 2` questions and `n` effects.  The last question may come one late: reading from a queue
that stays empty ends when the signal is set, and the statement that reads asks once more.

None of this depends on the program: its tree may be any.
-/

namespace Parlance

/-! ## Evaluation comes to an end -/

/-- The failure is one that a run comes to, and no loop that was given up. -/
def Failure.IsFinal : Failure → Prop
  | .endless => False
  | _ => True

theorem Failure.IsFinal.ne_endless {failure : Failure} (final : failure.IsFinal) :
    failure ≠ .endless := by
  rintro rfl
  exact final

/-- The result is no loop that was given up. -/
abbrev Ends {α : Type} : Except Failure α → Prop :=
  Gives (fun _ => True) Failure.IsFinal

theorem Failure.IsPlain.isFinal {failure : Failure} (plain : failure.IsPlain) :
    failure.IsFinal := by
  cases failure with
  | endless => exact plain
  | problem | fault | tooDeep => trivial

theorem Plain.ends {α : Type} {result : Except Failure α} (plain : Plain result) : Ends result := by
  cases result with
  | ok value => trivial
  | error failure => exact plain.isFinal

/-! ## Questions pay for effects -/

/-- The lines written and the bindings made so far. -/
def State.effects (s : State) : Nat :=
  s.output.size + s.writes

/-- The signal has not been set yet, and the questions so far pay for all effects after the first
`base` ones and for `credit` more. -/
structure Paid (n base credit : Nat) (s : State) : Prop where
  live : s.polls ≤ n
  funded : s.effects + credit ≤ base + s.polls

/-- The run has failed in time. -/
def Stopped (n base : Nat) (failure : Failure) (s : State) : Prop :=
  failure.IsFinal ∧ s.polls ≤ n + 2 ∧ s.effects ≤ base + n

/-- The computation needs one credit and leaves another.  On the way it asks the signal at least so
many times, and if it fails then in time. -/
def Spends {α : Type} (n base : Nat) (setup : Setup) (questions before after : Nat)
    (m : Machine α) : Prop :=
  ∀ s : State, Paid n base before s →
    Machine.Ensures setup s m
      (fun _ s' => Paid n base after s' ∧ s.polls + questions ≤ s'.polls) (Stopped n base)

theorem Paid.stopped {n base credit : Nat} {s : State} (paid : Paid n base credit s)
    {failure : Failure} (final : failure.IsFinal) : Stopped n base failure s := by
  obtain ⟨live, funded⟩ := paid
  exact ⟨final, by omega, by omega⟩

theorem Paid.mono {n base credit credit' : Nat} {s : State} (paid : Paid n base credit s)
    (less : credit' ≤ credit) : Paid n base credit' s := by
  obtain ⟨live, funded⟩ := paid
  exact ⟨live, by omega⟩

section Spends

open Machine

variable {α β : Type} {n base before after later questions : Nat} {setup : Setup}

theorem spends_pure {value : α} (less : after ≤ before) :
    Spends n base setup 0 before after (pure value) :=
  fun _ paid => ensures_pure ⟨paid.mono less, Nat.le_refl _⟩

theorem spends_throw {failure : Failure} (final : failure.IsFinal) :
    Spends n base setup questions before after (throw failure : Machine α) :=
  fun _ paid => ensures_throw (paid.stopped final)

/-- The second computation lives on what the first one has left. -/
theorem Spends.bind {m : Machine α} {next : α → Machine β}
    (first : Spends n base setup questions before after m)
    (onward : ∀ a, Spends n base setup 0 after later (next a)) :
    Spends n base setup questions before later (m >>= next) := by
  intro s paid
  refine (first s paid).bind fun a s' ⟨paid', asked⟩ => ?_
  refine (onward a s' paid').mono (fun b s'' ⟨paid'', more⟩ => ?_) fun _ _ stopped => stopped
  exact ⟨paid'', by omega⟩

/-- A computation spends no more if it is given more, asked less or expected to leave less. -/
theorem Spends.mono {m : Machine α} {questions' before' after' : Nat}
    (spends : Spends n base setup questions before after m) (fewer : questions' ≤ questions)
    (richer : before ≤ before') (poorer : after' ≤ after) :
    Spends n base setup questions' before' after' m := by
  intro s paid
  have held := spends s (paid.mono richer)
  refine held.mono (fun a s' ⟨paid', asked⟩ => ?_) fun _ _ stopped => stopped
  exact ⟨paid'.mono poorer, by omega⟩

theorem spends_read {next : Setup → Machine α}
    (onward : Spends n base setup questions before after (next setup)) :
    Spends n base setup questions before after (read >>= next) :=
  fun s paid => ensures_read (onward s paid)

/-- Asking the signal tells whether it has been asked often enough, and counts the question. -/
theorem ensures_poll (signal : setup.signal = some (.after n)) (s : State)
    {fail : Failure → State → Prop} :
    Ensures setup s poll
      (fun isSet s' => isSet = decide (n ≤ s.polls) ∧ s' = { s with polls := s.polls + 1 })
      fail := by
  unfold poll
  refine ensures_read ?_
  rw [signal]
  exact ensures_get ⟨rfl, rfl⟩

/-- A question that does not end the run pays for one effect. -/
theorem spends_checkpoint (signal : setup.signal = some (.after n)) {line : Tree} :
    Spends n base setup 1 0 1 (checkpoint line) := by
  intro s paid
  obtain ⟨live, funded⟩ := paid
  refine (ensures_poll signal s).bind ?_
  rintro _ _ ⟨rfl, rfl⟩
  split
  · exact ensures_throw ⟨trivial, Nat.le_succ_of_le (Nat.succ_le_succ live), by
      simp only [State.effects] at funded ⊢
      omega⟩
  · next unset =>
    have early : s.polls < n := by simpa using unset
    refine ensures_pure ⟨⟨early, ?_⟩, Nat.le_refl _⟩
    simp only [State.effects] at funded ⊢
    omega

theorem spends_writeLine {text : String} : Spends n base setup 0 1 0 (writeLine text) := by
  intro s paid
  obtain ⟨live, funded⟩ := paid
  refine ensures_modify ⟨⟨live, ?_⟩, Nat.le_refl _⟩
  simp only [State.effects, Array.size_push] at funded ⊢
  omega

theorem spends_trace {level : Nat} {text : Unit → String} :
    Spends n base setup 0 before before (trace level text) := by
  refine spends_read ?_
  split
  · exact fun _ paid => ensures_modify ⟨⟨paid.live, paid.funded⟩, Nat.le_refl _⟩
  · exact spends_pure (Nat.le_refl _)

theorem spends_need {part : Option α} {fault : Fault} :
    Spends n base setup 0 before before (need part fault) := by
  cases part with
  | some found => exact spends_pure (Nat.le_refl _)
  | none => exact spends_throw trivial

/-- Looking at the environment costs nothing. -/
theorem spends_inspect {line : Tree} {look : Environment → Except Failure α}
    (ends : ∀ env, Ends (look env)) :
    Spends n base setup 0 before before (inspect line look) := by
  intro s paid
  have final := ends s.env
  refine ensures_get ?_
  split
  · exact ensures_pure ⟨paid, Nat.le_refl _⟩
  · next failure found =>
    rw [found] at final
    refine ensures_throw (paid.stopped ?_)
    cases failure with
    | endless => exact final.elim
    | problem | fault | tooDeep => trivial

/-- A change of the environment costs the effect that a statement has been given. -/
theorem spends_update {change : Environment → Except Failure Environment}
    (ends : ∀ env, Ends (change env)) : Spends n base setup 0 1 0 (update change) := by
  intro s paid
  have final := ends s.env
  refine ensures_get ?_
  split
  · obtain ⟨live, funded⟩ := paid
    refine ensures_modify ⟨⟨live, ?_⟩, Nat.le_refl _⟩
    simp only [State.effects] at funded ⊢
    omega
  · next failure found =>
    rw [found] at final
    exact ensures_throw (paid.stopped final)

/-- Waiting makes no effect, and ends at the latest with the question that finds the signal set. -/
theorem ensures_awaitSignal (signal : setup.signal = some (.after n)) {atLast : Machine Unit}
    {fail : Failure → State → Prop} {s : State} {bound : Nat} (live : s.polls ≤ n)
    (last : n < s.polls + bound ∨ atLast = pure ()) :
    Ensures setup s (awaitSignal atLast bound)
      (fun _ s' => s'.effects = s.effects ∧ s'.polls ≤ n + 1) fail := by
  induction bound generalizing s with
  | zero =>
    rcases last with patient | rfl
    · omega
    · exact ensures_pure ⟨rfl, Nat.le_succ_of_le live⟩
  | succ bound ih =>
    refine (ensures_poll signal s).bind ?_
    rintro _ _ ⟨rfl, rfl⟩
    split
    · exact ensures_pure ⟨rfl, Nat.succ_le_succ live⟩
    · next unset =>
      have early : s.polls < n := by simpa using unset
      have patient : n < s.polls + 1 + bound ∨ atLast = pure () :=
        last.imp_left fun _ => by omega
      exact ih early patient

/-- Reading a line makes no effect, and only a line that does not come may have been waited for
until the signal was set. -/
theorem ensures_readLine (signal : setup.signal = some (.after n)) (patient : n < setup.patience)
    {s : State} (live : s.polls ≤ n) {fail : Failure → State → Prop} :
    Ensures setup s readLine
      (fun line s' => s'.effects = s.effects ∧ s'.polls ≤ n + 1 ∧
        (line ≠ none → s'.polls = s.polls)) fail := by
  unfold readLine
  refine ensures_get ?_
  split
  · exact ensures_pure ⟨rfl, Nat.le_succ_of_le live, fun _ => rfl⟩
  · exact ensures_pure ⟨rfl, Nat.le_succ_of_le live, fun _ => rfl⟩
  · exact ensures_modify_bind (ensures_pure ⟨rfl, Nat.le_succ_of_le live, fun _ => rfl⟩)
  · exact ensures_modify_bind (ensures_pure ⟨rfl, Nat.le_succ_of_le live, fun _ => rfl⟩)
  · refine ensures_read ?_
    dsimp only
    split
    · refine ensures_read ((ensures_awaitSignal signal live (.inr rfl)).bind ?_)
      exact fun _ _ ⟨same, few⟩ => ensures_pure ⟨same, few, absurd rfl⟩
    · have patient' : n < s.polls + setup.patience := Nat.lt_add_left _ patient
      refine ensures_read ((ensures_awaitSignal signal live (.inl patient')).bind ?_)
      exact fun _ _ ⟨same, few⟩ => ensures_pure ⟨same, few, absurd rfl⟩

/-! ## Statements -/

open Execution

variable {execute : Tree → Machine Flow} {room : Nat}

/-- Where no line has come, one last question is due. -/
theorem ensures_checkpoint_throw (signal : setup.signal = some (.after n)) {s : State}
    (few : s.polls ≤ n + 1) (bounded : s.effects ≤ base + n) {line : Tree} {problem : Problem}
    {ok : α → State → Prop} :
    Ensures setup s (checkpoint line >>= fun _ => throw (.problem line problem)) ok
      (Stopped n base) := by
  have stopped (cause : Problem) :
      Stopped n base (.problem line cause) { s with polls := s.polls + 1 } :=
    ⟨trivial, Nat.succ_le_succ few, bounded⟩
  have asked : Ensures setup s (checkpoint line) (fun _ s' => s' = { s with polls := s.polls + 1 })
      (Stopped n base) := by
    refine (ensures_poll signal s).bind ?_
    rintro _ _ ⟨rfl, rfl⟩
    split
    · exact ensures_throw (stopped .cancelled)
    · exact ensures_pure rfl
  refine asked.bind ?_
  rintro _ _ rfl
  exact ensures_throw (stopped problem)

/-- Statements in order pay for themselves, as each is preceded by a question. -/
theorem spends_runAll (signal : setup.signal = some (.after n))
    (each : ∀ t, Spends n base setup 0 1 0 (execute t)) (ts : List Tree) :
    Spends n base setup 0 0 0 (runAll execute ts) := by
  induction ts with
  | nil => exact spends_pure (Nat.le_refl 0)
  | cons t ts ih =>
    refine spends_need.bind fun line => ?_
    have asked : Spends n base setup 0 0 1 (checkpoint line) :=
      (spends_checkpoint signal).mono (Nat.zero_le 1) (Nat.le_refl 0) (Nat.le_refl 1)
    refine asked.bind fun _ => (each t).bind fun flow => ?_
    split
    · exact ih
    · exact spends_pure (Nat.le_refl 0)

theorem spends_runBlock (signal : setup.signal = some (.after n))
    (each : ∀ t, Spends n base setup 0 1 0 (execute t)) (block : Tree) :
    Spends n base setup 0 0 0 (runBlock execute block) :=
  spends_need.bind fun _ => spends_need.bind fun ts => spends_runAll signal each ts

/-- A choice costs nothing of its own: each branch asks before its first statement. -/
theorem spends_runBranches (signal : setup.signal = some (.after n))
    (each : ∀ t, Spends n base setup 0 1 0 (execute t)) {holds : Tree → Machine Bool}
    (tests : ∀ t, Spends n base setup 0 0 0 (holds t)) {otherwise : Machine Flow}
    (last : Spends n base setup 0 0 0 otherwise) (branches : List Tree) :
    Spends n base setup 0 0 0 (runBranches execute holds otherwise branches) := by
  fun_induction runBranches execute holds otherwise branches with
  | case1 => exact last
  | case2 condition block line rest ih =>
    refine (tests condition).bind fun taken => ?_
    split
    · exact spends_trace.bind fun _ => spends_runBlock signal each block
    · exact ih
  | case3 condition body line rest ih =>
    refine (tests condition).bind fun taken => ?_
    split
    · exact spends_trace.bind fun _ => spends_throw trivial
    · exact ih
  | case4 => exact spends_throw trivial

/-- A loop whose rounds each begin with a question does not outlast the questions that are left. -/
theorem ensures_whileLoop {test : Machine Bool} {round : Machine Flow}
    (tests : Spends n base setup 1 0 0 test) (rounds : Spends n base setup 0 0 0 round)
    {patience : Nat} {s : State} (paid : Paid n base 0 s) (patient : n < s.polls + patience) :
    Ensures setup s (whileLoop test round patience)
      (fun _ s' => Paid n base 0 s' ∧ s.polls + 0 ≤ s'.polls) (Stopped n base) := by
  induction patience generalizing s with
  | zero => exact absurd paid.live (Nat.not_le_of_lt patient)
  | succ patience ih =>
    -- The test asks, so the round of patience that is gone is made up for by a question.
    refine (tests s paid).bind ?_
    rintro holds s₁ ⟨paid₁, asked₁⟩
    split
    · refine (rounds s₁ paid₁).bind ?_
      rintro flow s₂ ⟨paid₂, asked₂⟩
      split
      · exact ensures_pure ⟨paid₂, by omega⟩
      · have onward : n < s₂.polls + patience := by omega
        refine (ih paid₂ onward).mono ?_ fun _ _ stopped => stopped
        rintro _ s₃ ⟨paid₃, asked₃⟩
        exact ⟨paid₃, by omega⟩
    · exact ensures_pure ⟨paid₁, by omega⟩

/-- Every round of a loop asks, so a loop that is more patient than the signal does not outlast
it. -/
theorem ensures_rangeLoop {round : Float → Machine Flow} {last : Float}
    (rounds : ∀ counter, Spends n base setup 1 0 0 (round counter)) {patience : Nat}
    {counter : Float} {s : State} (paid : Paid n base 0 s) (patient : n < s.polls + patience) :
    Ensures setup s (rangeLoop round last patience counter)
      (fun _ s' => Paid n base 0 s' ∧ s.polls + 0 ≤ s'.polls) (Stopped n base) := by
  induction patience generalizing s counter with
  | zero => exact absurd paid.live (Nat.not_le_of_lt patient)
  | succ patience ih =>
    rw [rangeLoop]
    split
    · refine (rounds counter s paid).bind ?_
      rintro flow s₁ ⟨paid₁, asked₁⟩
      split
      · exact ensures_pure ⟨paid₁, by omega⟩
      · have onward : n < s₁.polls + patience := by omega
        refine (ih paid₁ onward).mono ?_ fun _ _ stopped => stopped
        rintro _ s₂ ⟨paid₂, asked₂⟩
        exact ⟨paid₂, by omega⟩
    · exact ensures_pure ⟨paid, Nat.le_refl _⟩

theorem spends_value {line t : Tree} :
    Spends n base setup 0 before before (inspect line (evaluate · room t)) :=
  spends_inspect fun env => (plain_evaluate env room t).ends

theorem spends_condition {line t : Tree} :
    Spends n base setup 0 before before (inspect line (evaluateCondition · room t)) :=
  spends_inspect fun env => (plain_evaluateCondition env room t).ends

/-- Waiting for input asks until the signal is set, and then the statement stops the run. -/
theorem spends_ask (signal : setup.signal = some (.after n)) (patient : n < setup.patience)
    {name line : Tree} : Spends n base setup 0 1 0 (step room execute (.ask name line)) := by
  intro s paid
  obtain ⟨live, funded⟩ := paid
  refine (ensures_readLine signal patient live).bind fun answer s' ⟨same, few, kept⟩ => ?_
  cases answer with
  | none =>
    -- The wait may have lasted until the signal was set, and one more question follows.
    have bounded : s'.effects ≤ base + n := by omega
    exact ensures_checkpoint_throw signal few bounded
  | some answer =>
    have polls : s'.polls = s.polls := kept (Option.some_ne_none answer)
    have paid' : Paid n base 1 s' := ⟨by omega, by omega⟩
    have bound : Spends n base setup 0 1 0 (update (·.bind name (answerOf answer) line)) :=
      spends_update fun env => (plain_bind env name (answerOf answer) line).ends
    rw [← polls]
    exact (bound.bind fun _ => spends_trace.bind fun _ => spends_pure (Nat.le_refl 0)) s' paid'

/-- One statement spends at most the credit it is given, if the statements inside it do. -/
theorem spends_step (signal : setup.signal = some (.after n)) (patient : n < setup.patience)
    (each : ∀ t, Spends n base setup 0 1 0 (execute t)) (t : Tree) :
    Spends n base setup 0 1 0 (step room execute t) := by
  -- What asks before each effect of its own leaves the credit untouched.
  have spare {m : Machine Flow} (free : Spends n base setup 0 0 0 m) :
      Spends n base setup 0 1 0 m :=
    free.mono (Nat.le_refl 0) (Nat.zero_le 1) (Nat.le_refl 0)
  cases t with
  | declare name expr fixed line =>
    refine spends_value.bind fun value => ?_
    have declared (env : Environment) := (plain_declare env name value fixed line).ends
    refine (spends_update declared).bind fun _ => ?_
    exact spends_trace.bind fun _ => spends_pure (Nat.le_refl 0)
  | assign name expr line =>
    refine spends_value.bind fun value => ?_
    refine (spends_update fun env => (plain_assign env name value line).ends).bind fun _ => ?_
    exact spends_trace.bind fun _ => spends_pure (Nat.le_refl 0)
  | say expr line | display expr line =>
    refine spends_value.bind fun value => spends_writeLine.bind fun _ => ?_
    exact spends_pure (Nat.le_refl 0)
  | ask name line => exact spends_ask signal patient
  | choose branches otherwise line =>
    refine spare (spends_need.bind fun bs => ?_)
    refine spends_runBranches signal each (fun _ => spends_condition) ?_ bs
    split
    · exact spends_pure (Nat.le_refl 0)
    · exact spends_trace.bind fun _ => spends_runBlock signal each otherwise
  | range name first last body line =>
    refine spare (spends_value.bind fun start => spends_value.bind fun stop => ?_)
    split
    · next start stop =>
      have round (counter : Float) : Spends n base setup 1 0 0 (do
          checkpoint line
          update (·.bind name (.number counter) line)
          traceStep line fun _ => "loop " ++ name.plain ++ " = " ++ Number.display counter
          runBlock execute body) := by
        refine (spends_checkpoint signal).bind fun _ => ?_
        have bound : Spends n base setup 0 1 0 (update (·.bind name (.number counter) line)) :=
          spends_update fun env => (plain_bind env name (.number counter) line).ends
        refine bound.bind fun _ => ?_
        exact spends_trace.bind fun _ => spends_runBlock signal each body
      have loop : Spends n base setup 0 0 0 (rangeLoop _ stop setup.patience start) :=
        fun s paid => ensures_rangeLoop round paid (Nat.lt_add_left s.polls patient)
      exact spends_read (loop.bind fun _ => spends_pure (Nat.le_refl 0))
    · exact spends_throw trivial
  | whilst condition body line =>
    have test : Spends n base setup 1 0 0 (do
        checkpoint line
        inspect line (evaluateCondition · room condition)) :=
      ((spends_checkpoint signal).bind fun _ => spends_condition).mono (Nat.le_refl 1)
        (Nat.le_refl 0) (Nat.zero_le 1)
    have round : Spends n base setup 0 0 0 (do
        traceStep line fun _ => "repeat iteration"
        runBlock execute body) :=
      spends_trace.bind fun _ => spends_runBlock signal each body
    have loop : Spends n base setup 0 0 0 (whileLoop _ _ setup.patience) :=
      fun s paid => ensures_whileLoop test round paid (Nat.lt_add_left s.polls patient)
    exact spare (spends_read (loop.bind fun _ => spends_pure (Nat.le_refl 0)))
  | leave line | next line => exact spends_pure (Nat.zero_le 1)
  | _ => exact spends_throw trivial

theorem spends_execute (signal : setup.signal = some (.after n)) (patient : n < setup.patience)
    (room : Nat) (t : Tree) : Spends n base setup 0 1 0 (Execution.execute room t) := by
  induction room generalizing t with
  | zero => exact spends_throw trivial
  | succ room ih => exact spends_step signal patient ih t

/-- A program asks before every statement, so it pays for its effects as it goes. -/
theorem spends_runProgram (signal : setup.signal = some (.after n)) (patient : n < setup.patience)
    (statements : List Tree) : Spends n base setup 0 0 0 (runProgram statements) := by
  have whole : Spends n base setup 0 0 0 (runAll (Execution.execute setup.room) statements) :=
    spends_runAll signal (spends_execute signal patient setup.room) statements
  refine spends_read (whole.bind fun flow => ?_)
  cases flow with
  | done => exact spends_pure (Nat.le_refl 0)
  | leave line | next line => exact spends_throw trivial

end Spends

/-! ## Sessions -/

/-- The session with a signal that is set from the `n + 1`-st question on, none of them asked yet,
and with more patience than that. -/
def Session.cancelledAfter (session : Session) (n extra : Nat) : Session :=
  { session with
    setup := { session.setup with signal := some (.after n), patience := n + 1 + extra }
    state := { session.state with polls := 0 } }

/-- The outcome is no loop without an end, and came in time. -/
def Bounded (n base : Nat) (final : State) (failure : Option Failure) : Prop :=
  failure ≠ some .endless ∧ final.polls ≤ n + 2 ∧ final.effects ≤ base + n

/-- A traced run of statements, started with a signal that nobody has asked yet, keeps to the
bounds. -/
theorem bounded_runTraced {n : Nat} {setup : Setup} (signal : setup.signal = some (.after n))
    (patient : n < setup.patience) {state : State} (unasked : state.polls = 0)
    (statements : List Tree) :
    Bounded n state.effects (runTraced setup state statements).1
      (runTraced setup state statements).2 := by
  have start : Paid n state.effects 0 { state with trace := #[] } :=
    ⟨unasked.symm ▸ Nat.zero_le n, Nat.le_add_right _ _⟩
  have outcome := spends_runProgram signal patient statements _ start
  unfold Machine.Ensures at outcome
  obtain ⟨s', trace, same, ⟨run, unfailed⟩ | ⟨failure, run, failed⟩⟩ :=
    runTraced_cases setup state statements
  · rw [run] at outcome
    obtain ⟨⟨live, funded⟩, _⟩ := outcome
    rw [same, unfailed]
    have bounded : s'.effects ≤ state.effects + n := by omega
    exact ⟨(Option.some_ne_none _).symm, Nat.le_add_right_of_le live, bounded⟩
  · rw [run] at outcome
    obtain ⟨final, few, bounded⟩ := outcome
    rw [same, failed]
    exact ⟨fun same => final.ne_endless (Option.some.inj same), few, bounded⟩

/-- Every run of a session keeps to the bounds, whatever has been run before. -/
theorem bounded_run (session : Session) (program : Tree) (n : Nat) :
    let outcome := (session.cancelledAfter n 0).run program
    Bounded n session.state.effects outcome.1.state outcome.2.failure := by
  intro outcome
  cases top : program.topLevel with
  | error failure =>
    have rejected : outcome = (session.cancelledAfter n 0, ⟨some failure, #[]⟩) := by
      simp only [outcome, Session.run, top]
    have final : failure.IsFinal := by
      unfold Tree.topLevel at top
      split at top
      · cases top
        trivial
      · split at top
        · cases top
          trivial
        · cases top
    rw [rejected]
    exact ⟨fun same => final.ne_endless (Option.some.inj same), Nat.zero_le _, Nat.le_add_right _ _⟩
  | ok statements =>
    obtain ⟨state, failure⟩ := Session.run_of_topLevel (session.cancelledAfter n 0) top
    rw [state, failure]
    exact bounded_runTraced rfl (Nat.lt_succ_self n) rfl statements

/-- A run that is cancelled from the `n + 1`-st question on ends, whatever the program, with one and
the same outcome for all patience greater than `n`.  By then it has asked at most `n + 2` times, and
made at most `n` effects. -/
theorem Session.run_cancelledAfter (session : Session) (program : Tree) (n : Nat) :
    ∃ (final : State) (report : RunReport),
      (∀ extra, ((session.cancelledAfter n extra).run program).1.state = final ∧
        ((session.cancelledAfter n extra).run program).2 = report) ∧
      report.failure ≠ some .endless ∧ final.polls ≤ n + 2 ∧
      final.output.size + final.writes ≤
        session.state.output.size + session.state.writes + n := by
  have bounded := bounded_run session program n
  refine ⟨_, _, fun extra => ?_, bounded⟩
  have le : (session.cancelledAfter n 0).setup.patience ≤ n + 1 + extra :=
    Nat.le_add_right (n + 1) extra
  exact Session.run_of_patience_le (session.cancelledAfter n 0) program le bounded.1

/-- The last question may come one late, after a line that was waited for until the signal was
set. -/
example :
    let session : Session :=
      { setup := { signal := some (.after 1) }, state := { input := .queue [] } }
    let program : Tree := .program (.list [.ask (.text "x") (lineTree 1)])
    (session.run program).1.state.polls = 1 + 2 := by
  cbv

end Parlance
