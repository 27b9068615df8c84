import Parlance.Proofs.Interruption

/-!
# Bindings last

In the course of a session the environment only grows: a name that was bound for good keeps its
value and its flag, and names neither vanish nor change their order.

The states that a session comes through are those between runs and those in the middle of one.
Where a run is at its `n`-th question to the signal is the state that a signal set from there on
leaves it in (`Session.stateAt`); since there is at most one effect between two questions, no
binding is made or changed without a question or the end of the run after it.
-/

namespace Parlance

/-- Of two ends that a signal is given, the earlier one counts. -/
theorem CancelSignal.orAfter_orAfter (signal : CancelSignal) {n m : Nat} (le : n ≤ m) :
    (signal.orAfter m).orAfter n = signal.orAfter n := by
  funext asked
  unfold orAfter
  by_cases late : m ≤ asked
  · have late' : n ≤ asked := Nat.le_trans le late
    simp [late, late']
  · simp [late]

theorem Setup.cutAfter_cutAfter (setup : Setup) {n m : Nat} (le : n ≤ m) :
    (setup.cutAfter m).cutAfter n = setup.cutAfter n := by
  simp [Setup.cutAfter, CancelSignal.orAfter_orAfter _ le]

namespace Session

/-- The state of a run of a program when the signal has been asked `n` times in it and is asked
again; where it is not, the state at the end. -/
def stateAt (session : Session) (program : Tree) (n : Nat) : State :=
  let cut := session.setup.cutAfter (session.state.polls + n)
  ({ session with setup := cut }.run program).1.state

/-- A run leads on from the state that it started in. -/
theorem leads_run (session : Session) (program : Tree) :
    session.state.Leads (session.run program).1.state := by
  cases top : program.topLevel with
  | error failure =>
    simp only [Session.run, top]
    exact .refl _
  | ok statements =>
    rw [(Session.run_of_topLevel session top).1]
    exact leads_runTraced session.setup session.state statements

theorem leads_stateAt (session : Session) (program : Tree) (n : Nat) :
    session.state.Leads (session.stateAt program n) :=
  leads_run { session with setup := session.setup.cutAfter (session.state.polls + n) } program

/-- Every state between polls leads on to the end of the run. -/
theorem stateAt_leads_run (session : Session) (program : Tree) (n : Nat) :
    (session.stateAt program n).Leads (session.run program).1.state := by
  unfold stateAt
  cases top : program.topLevel with
  | error failure =>
    simp only [Session.run, top]
    exact .refl _
  | ok statements =>
    rw [(Session.run_of_topLevel session top).1, (Session.run_of_topLevel _ top).1]
    exact leads_runTraced_cutAfter session.setup (Nat.le_add_right _ n) statements

/-- Every state between polls leads on to the later ones. -/
theorem stateAt_leads_stateAt (session : Session) (program : Tree) {n m : Nat} (le : n ≤ m) :
    (session.stateAt program n).Leads (session.stateAt program m) := by
  have later := stateAt_leads_run
    { session with setup := session.setup.cutAfter (session.state.polls + m) } program n
  unfold stateAt at later
  rw [Setup.cutAfter_cutAfter _ (Nat.add_le_add_left le _)] at later
  exact later

end Session

/-- The second state comes at or after the first one in the course of a session.  Between runs all
but the environment may be exchanged: the input, the signal, what has been written. -/
inductive Later : State → State → Prop
  | begins (session : Session) (program : Tree) (n : Nat) :
    Later session.state (session.stateAt program n)
  | goesOn (session : Session) (program : Tree) {n m : Nat} (le : n ≤ m) :
    Later (session.stateAt program n) (session.stateAt program m)
  | ends (session : Session) (program : Tree) (n : Nat) :
    Later (session.stateAt program n) (session.run program).1.state
  | between {s t : State} (same : t.env = s.env) : Later s t
  | trans {s t u : State} (first : Later s t) (second : Later t u) : Later s u

/-- The environment of a later state has grown from that of the earlier one. -/
theorem Later.grows {s t : State} (later : Later s t) : s.env.Grows t.env := by
  induction later with
  | begins session program n => exact (session.leads_stateAt program n).env
  | goesOn session program le => exact (session.stateAt_leads_stateAt program le).env
  | ends session program n => exact (session.stateAt_leads_run program n).env
  | between same => exact same ▸ .refl _
  | trans _ _ first second => exact first.trans second

/-- In every state that is reached from an environment without names the names are distinct.  In
every later state they still come first and in the same order, and what was bound for good is bound
as before. -/
theorem Later.bindings_last {start s t : State} (fresh : start.env = {}) (reached : Later start s)
    (later : Later s t) :
    s.env.Distinct ∧ s.env.names <+: t.env.names ∧
      ∀ key b, s.env.find? key = some b → b.fixed.isTrue = true → t.env.find? key = some b := by
  have distinct : start.env.Distinct := by
    rw [fresh]
    exact List.nodup_nil
  exact ⟨reached.grows.distinct distinct, later.grows.names, later.grows.fixed⟩

/-- A name that was bound for good, here with a number for a flag, does not take an answer in a
later run. -/
theorem bindings_last_after_ask :
    let line := lineTree 1
    let first : Session := { setup := {}, state := {} }
    let declaration : Tree :=
      .program (.list [.declare (.text "x") (.textLit (.text "a") line) (.int 1) line])
    let s := (first.run declaration).1.state
    let second : Session := { setup := {}, state := { s with input := .lines [some "b"] } }
    let question : Tree := .program (.list [.ask (.text "x") line])
    let t := (second.run question).1.state
    let bound : Binding := ⟨.text "x", .text "x", .text "a", .int 1⟩
    s.env.find? (.text "x") = some bound ∧
      (second.run question).2.failure = some (.problem line (.assignedFixed "x")) ∧
      t.env.find? (.text "x") = some bound := by
  intro line first declaration s second question t bound
  have reached : Later first.state s :=
    (Later.begins first declaration 0).trans (.ends first declaration 0)
  have fed : Later s second.state := .between rfl
  have later : Later s t :=
    fed.trans ((Later.begins second question 0).trans (.ends second question 0))
  have found : s.env.find? (.text "x") = some bound := rfl
  exact ⟨found, rfl, (Later.bindings_last rfl reached later).2.2 _ bound found rfl⟩

end Parlance
