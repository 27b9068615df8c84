import Parlance.Proofs.Chains
import Parlance.Proofs.StrictLockstep

/-!
# The footprint of a program

What a program does depends on the names in it only, and it binds its targets only.  From
environments that agree on the names of a program it runs the same, step by step, and ends in
environments that agree on them again; and at every end, a failure included, the bindings of all
names but its targets are those from the start.
-/

namespace Parlance

/-! ## Environments -/

namespace Environment

/-- The names are bound alike in both environments, or in neither. -/
def AgreeOn (names : List String) (env env' : Environment) : Prop :=
  ∀ name ∈ names, env.find? (.text name) = env'.find? (.text name)

/-- The bindings of all names but the given ones. -/
def outside (names : List String) (env : Environment) : List Binding :=
  env.bindings.filter fun b => !(names.map Key.text).contains b.key

variable {env env' : Environment} {key : Key} {name value fixed : Tree} {names : List String}

/-- Binding a listed name alike keeps two environments in agreement on the list. -/
theorem AgreeOn.put (agree : env.AgreeOn names env') {target : String} (listed : target ∈ names) :
    (env.put (.text target) name value fixed).AgreeOn names
      (env'.put (.text target) name value fixed) := by
  intro other member
  by_cases same : Key.text other = .text target
  · rw [same, find?_put_self, find?_put_self, agree target listed]
  · rw [find?_put_of_ne same, find?_put_of_ne same]
    exact agree other member

/-- A change to one of the names leaves the others alone. -/
theorem outside_put {target : String} (listed : target ∈ names) :
    (env.put (.text target) name value fixed).outside names = env.outside names := by
  unfold outside
  cases bound : env.find? (.text target) with
  | none =>
    rw [put_of_eq_none bound]
    simp [listed]
  | some b =>
    rw [put_of_isSome (by simp [bound]), List.filter_map]
    simp only [Function.comp_def, key_rebound]
    have kept : ∀ b ∈ env.bindings.filter fun b => !(names.map Key.text).contains b.key,
        rebound (.text target) value fixed b = id b := by
      intro b member
      refine if_neg fun same => ?_
      have apart := (List.mem_filter.1 member).2
      simp [same, listed] at apart
    rw [List.map_congr_left kept, List.map_id]

end Environment

/-! ## Expressions -/

/-- The value of an expression depends on the names in it only. -/
theorem evaluate_congr {env env' : Environment} (room : Nat) {e : Expr}
    (agree : env.AgreeOn e.names env') :
    evaluate env room e.toTree = evaluate env' room e.toTree := by
  have agrees : Agrees False (evaluate env room e.toTree) (evaluate env' room e.toTree) := by
    induction room generalizing e with
    | zero => exact .inl rfl
    | succ room ih =>
      have deeper {part : Expr} (inside : part ∈ e.parts) :
          Agrees False (evaluate env room part.toTree) (evaluate env' room part.toTree) :=
        ih fun name member => agree name (Expr.names_subset inside member)
      cases e with
      | number | text | flag => exact .inl rfl
      | name id line =>
        have bound := agree id (by simp [Expr.names, Expr.parts, Expr.name?])
        refine .inl ?_
        simp only [Expr.toTree, evaluate, Environment.get, Environment.keyOf, Key.of?, bind,
          Except.bind, bound]
      | unary op operand line =>
        exact (deeper (by simp [Expr.parts, Expr.self_mem_parts])).bind fun v => .inl rfl
      | binary op left right line =>
        -- Chains are evaluated from their heads, so the induction is on the room.
        obtain ⟨⟨head, inside, same⟩, links⟩ :=
          (Expr.binary op left right line).exists_parts_of_chainOnto []
        have first := deeper inside
        rw [← same] at first
        refine first.bind fun v => agrees_foldlM (fun link member => agrees_resume ?_) v
        rcases links link member with none | ⟨operand, inside, same⟩
        · cases none
        · rw [same]
          exact deeper inside
      | call name args line =>
        refine Agrees.bind (agrees_mapM fun t member => ?_) fun vs => .inl rfl
        rw [Expr.toTrees_eq_map] at member
        obtain ⟨arg, listed, rfl⟩ := List.mem_map.1 member
        refine deeper ?_
        rw [Expr.parts]
        exact List.mem_cons_of_mem _ (Expr.mem_allParts.2 ⟨arg, listed, arg.self_mem_parts⟩)
  rcases agrees with same | ⟨_, never⟩
  · exact same
  · cases never

/-! ## Runs -/

/-- Two runs of a program whose environments may differ in what does not occur in it.  In the first
one the bindings outside its targets are those from the start. -/
def Setup.besides (setup : Setup) (p : Program) (kept : List Binding) : Pairing where
  left := setup
  right := setup
  lines := Eq
  states := fun s t => ∃ env, t = { s with env } ∧ s.env.AgreeOn p.names env ∧
    s.env.outside p.targets = kept
  short := fun _ _ _ _ => False
  onward := fun never _ _ => never

section Besides

open Machine Execution Pairing

variable {setup : Setup} {p : Program} {kept : List Binding}

theorem lockstep_trace_besides {level : Nat} {text : Unit → String} :
    (setup.besides p kept).Lockstep Eq (trace level text) (trace level text) := by
  refine lockstep_trace_of rfl ?_
  rintro s _ ⟨env, rfl, together⟩
  exact ⟨env, rfl, together⟩

/-- Differing in other names only is a relation that the machine keeps to. -/
theorem steady_besides : (setup.besides p kept).Steady where
  signal := rfl
  patience := rfl
  polls := by
    rintro s _ ⟨env, rfl, _⟩
    rfl
  asked := by
    rintro s _ ⟨env, rfl, together⟩
    exact ⟨env, rfl, together⟩
  written := by
    rintro s _ line ⟨env, rfl, together⟩
    exact ⟨env, rfl, together⟩
  step := by
    rintro line _ what rfl
    exact lockstep_trace_besides
  binding := fun _ _ _ => lockstep_trace_besides

/-- Both runs read the same input. -/
theorem reading_besides : (setup.besides p kept).Reading where
  timed := rfl
  renewals := rfl
  input := by
    rintro s _ ⟨env, rfl, _⟩
    rfl
  consumed := by
    rintro s _ input ⟨env, rfl, together⟩
    exact ⟨env, rfl, together⟩

/-- Names that occur in the program are looked up and bound alike. -/
theorem attends_besides :
    (setup.besides p kept).Attends (· ∈ p.occurrences) fun _ => True where
  toSteady := steady_besides
  room := rfl
  same := fun _ => rfl
  never := id
  looked := by
    rintro e s _ occurs ⟨env, rfl, agree, _⟩ room
    refine ⟨evaluate_congr room fun name member => agree name ?_, fun _ _ => trivial⟩
    exact List.mem_append_left _ (List.filterMap_subset _ (Program.parts_subset occurs) member)
  found := by
    rintro name s _ occurs ⟨env, rfl, agree, _⟩
    exact agree name (List.mem_append_right _ (Program.mem_targets occurs))
  bound := by
    rintro name s _ value fixed occurs ⟨env, rfl, agree, same⟩ _
    have target := Program.mem_targets occurs
    refine ⟨_, rfl, agree.put (List.mem_append_right _ target), ?_⟩
    exact (Environment.outside_put target).trans same
  answers := fun s t states =>
    ((lockstep_readLine steady_besides reading_besides).paired s t states).imp
      fun _ _ same => ⟨same, fun _ _ => trivial⟩
  counts := fun _ _ _ => trivial

end Besides

/-- The session with another environment. -/
def Session.withEnv (session : Session) (env : Environment) : Session :=
  { session with state := { session.state with env } }

/-- From environments that agree on its names a program runs alike, and leaves what it does not name
as it was. -/
theorem runProgram_besides (setup : Setup) (state : State) (p : Program) {env : Environment}
    (agree : state.env.AgreeOn p.names env) {x y : EStateM.Result Failure State Unit}
    (first : Execution.runProgram (Stmt.toTrees p.body) setup state = x)
    (second : Execution.runProgram (Stmt.toTrees p.body) setup { state with env } = y) :
    failureOf x = failureOf y ∧ ∃ env', endState y = { endState x with env := env' } ∧
      (endState x).env.AgreeOn p.names env' ∧
      (endState x).env.outside p.targets = state.env.outside p.targets := by
  have attends : (setup.besides p (state.env.outside p.targets)).Attends _ _ := attends_besides
  have lockstep := attends.lockstep_runProgram fun o => id
  rw [← first, ← second]
  exact attends.ends (fun _ _ => id) (lockstep.paired state _ ⟨env, rfl, agree, rfl⟩)

/-- The footprint of a program: from environments that agree on the names in it, it writes the same,
fails in the same way, asks the signal as often and leaves the same behind, but for the
environments; these agree on its names again.  And whichever way it ends, the bindings of all names
but its targets are as before. -/
theorem Session.run_footprint (session : Session) (p : Program) (env : Environment)
    (agree : session.state.env.AgreeOn p.names env) :
    let ended := session.run p.toTree
    let ended' := (session.withEnv env).run p.toTree
    ended'.2 = ended.2 ∧ ended'.1 = ended.1.withEnv ended'.1.state.env ∧
      ended.1.state.env.AgreeOn p.names ended'.1.state.env ∧
      ended.1.state.env.outside p.targets = session.state.env.outside p.targets := by
  obtain ⟨setup, state, record, recording⟩ := session
  have top : p.toTree.topLevel = .ok (Stmt.toTrees p.body) := rfl
  obtain ⟨failed, env', ended, agree', kept⟩ :=
    runProgram_besides setup { state with trace := #[] } p agree rfl rfl
  rw [Session.run_of_ok _ top, Session.run_of_ok _ top, runTraced_eq setup state _ rfl]
  dsimp only [Session.withEnv]
  rw [runTraced_eq setup { state with env } _ rfl, ended, ← failed]
  by_cases traced : 1 ≤ setup.level
  · rw [if_pos traced, if_pos traced]
    cases recording <;> exact ⟨rfl, rfl, agree', kept⟩
  · rw [if_neg traced, if_neg traced]
    cases recording <;> exact ⟨rfl, rfl, agree', kept⟩

/-- A run that binds a name and then fails at another one.  Whatever else is bound, it fails in the
same way, and what else was bound is still bound. -/
theorem run_footprint_of_undefined_name :
    let bound (name value : String) : Binding := ⟨.text name, .text name, .text value, .flag false⟩
    let session : Session := { setup := {}, state := { env := ⟨[bound "x" "a", bound "w" "b"]⟩ } }
    let env : Environment := ⟨[bound "w" "c", bound "x" "a"]⟩
    let p : Program := ⟨[.declare "y" (.name "x" 1) false 1, .say (.name "z" 2) 2]⟩
    ((session.withEnv env).run p.toTree).2.failure =
        some (.problem (lineTree 2) (.undefinedName "z")) ∧
      (session.run p.toTree).1.state.env.outside p.targets = [bound "x" "a", bound "w" "b"] := by
  intro bound session env p
  have agree : session.state.env.AgreeOn p.names env := by
    intro name member
    change name ∈ ["x", "z", "y"] at member
    simp only [List.mem_cons, List.not_mem_nil, or_false] at member
    rcases member with rfl | rfl | rfl <;> rfl
  obtain ⟨report, _, _, kept⟩ := session.run_footprint p env agree
  rw [report, kept]
  exact ⟨rfl, rfl⟩

end Parlance
