import Parlance.Session

/-!
# What computations bring about

`Gives ok fail` says of a result that it is a value such that `ok` or a failure such that `fail`.
`Ensures setup s m ok fail` says the same of a computation of the machine that is run from the state
`s`.  The rules below take both apart at their binds.  What the parts of the machine do from a state
is said by lemmas `…_of_ok`, `…_of_error` and the like.
-/

namespace Parlance

/-! ## Results -/

/-- The result is a value such that `ok` or a failure such that `fail`. -/
def Gives {α : Type} (ok : α → Prop) (fail : Failure → Prop) : Except Failure α → Prop
  | .ok value => ok value
  | .error failure => fail failure

section Gives

variable {α β : Type} {fail : Failure → Prop}

theorem Gives.bind {ok : α → Prop} {ok' : β → Prop} {first : Except Failure α}
    {next : α → Except Failure β} (given : Gives ok fail first)
    (onward : ∀ a, ok a → Gives ok' fail (next a)) : Gives ok' fail (first >>= next) := by
  cases first with
  | ok value => exact onward value given
  | error failure => exact given

/-- A list of computations gives what each of them gives. -/
theorem gives_mapM {ok : β → Prop} {f : α → Except Failure β} {items : List α}
    (each : ∀ a ∈ items, Gives ok fail (f a)) :
    Gives (fun results => ∀ b ∈ results, ok b) fail (items.mapM f) := by
  induction items with
  | nil => exact nofun
  | cons a items ih =>
    rw [List.forall_mem_cons] at each
    rw [List.mapM_cons]
    refine each.1.bind fun b first => (ih each.2).bind fun bs others => ?_
    exact List.forall_mem_cons.2 ⟨first, others⟩

/-- A fold gives what each of its steps gives. -/
theorem gives_foldlM {ok : β → Prop} {f : β → α → Except Failure β} {items : List α} {start : β}
    (started : ok start) (each : ∀ a ∈ items, ∀ b, ok b → Gives ok fail (f b a)) :
    Gives ok fail (items.foldlM f start) := by
  induction items generalizing start with
  | nil => exact started
  | cons a items ih =>
    rw [List.forall_mem_cons] at each
    rw [List.foldlM_cons]
    exact (each.1 start started).bind fun b okay => ih okay each.2

end Gives

end Parlance

/-! ## The parts of the machine -/

namespace Parlance

section Runs

open Machine

variable {α β : Type} {setup : Setup}

theorem bind_of_ok {m : Machine α} {next : α → Machine β} {s s' : State} {a : α}
    (run : m setup s = .ok a s') : (m >>= next) setup s = next a setup s' := by
  simp [Bind.bind, ReaderT.bind, EStateM.bind, run]

theorem bind_of_error {m : Machine α} {next : α → Machine β} {s s' : State} {failure : Failure}
    (run : m setup s = .error failure s') : (m >>= next) setup s = .error failure s' := by
  simp [Bind.bind, ReaderT.bind, EStateM.bind, run]

theorem exists_of_bind_eq_ok {m : Machine α} {next : α → Machine β} {s s' : State} {b : β}
    (ran : (m >>= next) setup s = .ok b s') :
    ∃ a middle, m setup s = .ok a middle ∧ next a setup middle = .ok b s' := by
  cases run : m setup s with
  | ok a middle => exact ⟨a, middle, rfl, (bind_of_ok run).symm.trans ran⟩
  | error failure middle => cases (bind_of_error run).symm.trans ran

theorem poll_of_none {s : State} (signal : setup.signal = none) :
    poll setup s = .ok false s := by
  have told : (read : Machine Setup) setup s = .ok setup s := rfl
  rw [poll, bind_of_ok told, signal]
  rfl

theorem poll_of_some {s : State} {isSet : CancelSignal} (signal : setup.signal = some isSet) :
    poll setup s = .ok (isSet s.polls) { s with polls := s.polls + 1 } := by
  have told : (read : Machine Setup) setup s = .ok setup s := rfl
  rw [poll, bind_of_ok told, signal]
  rfl

/-- Without a signal nothing stops a run at a line. -/
theorem checkpoint_of_none (unwatched : setup.signal = none) (line : Tree) (s : State) :
    checkpoint line setup s = .ok () s :=
  bind_of_ok (poll_of_none unwatched)

theorem inspect_of_ok {look : Environment → Except Failure α} {line : Tree}
    {s : State} {value : α} (found : look s.env = .ok value) :
    inspect line look setup s = .ok value s := by
  have looked : (get : Machine State) setup s = .ok s s := rfl
  rw [inspect, bind_of_ok looked, found]
  rfl

theorem inspect_of_error {look : Environment → Except Failure α} {line : Tree}
    {s : State} {failure : Failure} (refused : look s.env = .error failure) :
    inspect line look setup s = .error (failure.at line) s := by
  have looked : (get : Machine State) setup s = .ok s s := rfl
  rw [inspect, bind_of_ok looked, refused]
  rfl

theorem update_of_ok {change : Environment → Except Failure Environment} {s : State}
    {env : Environment} (done : change s.env = .ok env) :
    update change setup s = .ok () { s with env, writes := s.writes + 1 } := by
  have looked : (get : Machine State) setup s = .ok s s := rfl
  rw [update, bind_of_ok looked, done]
  rfl

theorem update_of_error {change : Environment → Except Failure Environment} {s : State}
    {failure : Failure} (refused : change s.env = .error failure) :
    update change setup s = .error failure s := by
  have looked : (get : Machine State) setup s = .ok s s := rfl
  rw [update, bind_of_ok looked, refused]
  rfl

/-! ### Environments -/

theorem exists_trace (setup : Setup) (level : Nat) (text : Unit → String) (s : State) :
    ∃ s', trace level text setup s = .ok () s' ∧ s'.env = s.env := by
  have asked : (read : Machine Setup) setup s = .ok setup s := rfl
  rw [trace, bind_of_ok asked]
  split
  · exact ⟨_, rfl, rfl⟩
  · exact ⟨_, rfl, rfl⟩

theorem exists_poll (setup : Setup) (s : State) :
    ∃ s', poll setup s = .ok (setup.signal.elim false fun isSet => isSet s.polls) s' ∧
      s'.env = s.env := by
  cases signal : setup.signal with
  | none => exact ⟨_, poll_of_none signal, rfl⟩
  | some isSet => exact ⟨_, poll_of_some signal, rfl⟩

theorem env_of_trace {level : Nat} {text : Unit → String} {s s' : State}
    (told : trace level text setup s = .ok () s') : s'.env = s.env := by
  obtain ⟨_, told', kept⟩ := exists_trace setup level text s
  cases told.symm.trans told'
  exact kept

/-- A checkpoint leaves the environment alone. -/
theorem env_of_checkpoint {line : Tree} {s s' : State}
    (passed : checkpoint line setup s = .ok () s') : s'.env = s.env := by
  obtain ⟨asked, polled, kept⟩ := exists_poll setup s
  rw [checkpoint, bind_of_ok polled] at passed
  split at passed
  · cases passed
  · cases passed
    exact kept

theorem env_of_update {change : Environment → Except Failure Environment} {s s' : State}
    (updated : update change setup s = .ok () s') : change s.env = .ok s'.env := by
  cases done : change s.env with
  | ok env =>
    cases (update_of_ok done).symm.trans updated
    rfl
  | error failure => cases (update_of_error done).symm.trans updated

end Runs

end Parlance

/-! ## Computations of the machine -/

namespace Parlance.Machine

variable {α β : Type} {setup : Setup} {s : State} {m : Machine α}

/-- From a state, the computation gives a value in a state such that `ok`, or fails in a state such
that `fail`. -/
def Ensures (setup : Setup) (s : State) (m : Machine α) (ok : α → State → Prop)
    (fail : Failure → State → Prop) : Prop :=
  match m setup s with
  | .ok value s' => ok value s'
  | .error failure s' => fail failure s'

variable {ok ok' : α → State → Prop} {fail fail' : Failure → State → Prop}

theorem ensures_pure {value : α} (holds : ok value s) : Ensures setup s (pure value) ok fail :=
  holds

theorem ensures_throw {failure : Failure} (holds : fail failure s) :
    Ensures setup s (throw failure : Machine α) ok fail :=
  holds

theorem Ensures.mono (holds : Ensures setup s m ok fail)
    (okay : ∀ value s', ok value s' → ok' value s')
    (failed : ∀ failure s', fail failure s' → fail' failure s') : Ensures setup s m ok' fail' := by
  unfold Ensures at *
  split at holds
  · exact okay _ _ holds
  · exact failed _ _ holds

/-- What holds after the first computation is there for the second one. -/
theorem Ensures.bind {next : α → Machine β} {post : β → State → Prop}
    (first : Ensures setup s m ok fail)
    (onward : ∀ value s', ok value s' → Ensures setup s' (next value) post fail) :
    Ensures setup s (m >>= next) post fail := by
  unfold Ensures at *
  cases run : m setup s with
  | ok value s' =>
    rw [run] at first
    rw [bind_of_ok run]
    exact onward value s' first
  | error failure s' =>
    rw [run] at first
    rw [bind_of_error run]
    exact first

theorem ensures_get {next : State → Machine β} {post : β → State → Prop}
    (onward : Ensures setup s (next s) post fail) : Ensures setup s (get >>= next) post fail :=
  onward

theorem ensures_read {next : Setup → Machine β} {post : β → State → Prop}
    (onward : Ensures setup s (next setup) post fail) : Ensures setup s (read >>= next) post fail :=
  onward

theorem ensures_modify_bind {change : State → State} {next : Unit → Machine β}
    {post : β → State → Prop} (onward : Ensures setup (change s) (next ()) post fail) :
    Ensures setup s (modify change >>= next) post fail :=
  onward

theorem ensures_modify {change : State → State} {done : Unit → State → Prop}
    (holds : done () (change s)) : Ensures setup s (modify change) done fail :=
  holds

end Parlance.Machine

namespace Parlance

/-! ## Sessions -/

/-- A run in a session ends as its statements do, apart from the trace. -/
theorem runTraced_cases (setup : Setup) (state : State) (statements : List Tree) :
    ∃ s' trace, (runTraced setup state statements).1 = { s' with trace } ∧
      (Execution.runProgram statements setup { state with trace := #[] } = .ok () s' ∧
        (runTraced setup state statements).2 = none ∨
      ∃ failure,
        Execution.runProgram statements setup { state with trace := #[] } = .error failure s' ∧
        (runTraced setup state statements).2 = some failure) := by
  unfold runTraced
  cases run : Execution.runProgram statements setup { state with trace := #[] } with
  | ok _ s' =>
    dsimp only
    split
    · exact ⟨s', _, rfl, .inl ⟨rfl, rfl⟩⟩
    · exact ⟨s', s'.trace, rfl, .inl ⟨rfl, rfl⟩⟩
  | error failure s' =>
    dsimp only
    split
    · exact ⟨s', _, rfl, .inr ⟨failure, rfl, rfl⟩⟩
    · exact ⟨s', s'.trace, rfl, .inr ⟨failure, rfl, rfl⟩⟩

/-- A session that runs a program ends in the state and with the failure of its statements. -/
theorem Session.run_of_topLevel (session : Session) {program : Tree} {statements : List Tree}
    (top : program.topLevel = .ok statements) :
    (session.run program).1.state = (runTraced session.setup session.state statements).1 ∧
      (session.run program).2.failure =
        (runTraced session.setup session.state statements).2 := by
  unfold Session.run
  rw [top]
  dsimp only
  split
  · exact ⟨rfl, rfl⟩
  · exact ⟨rfl, rfl⟩

end Parlance
