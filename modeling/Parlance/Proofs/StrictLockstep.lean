import Parlance.Proofs.Lockstep
import Parlance.Proofs.Occurrences

/-!
# One program, two environments

A program runs in lockstep with itself from states whose environments differ, as long as the
difference cannot be seen in what occurs in the program (`Pairing.Attends`): its expressions have
the same outcomes on both sides, its targets are bound alike, and binding them keeps the states
together.  The values that come up may be known to have a property, which then has to come along:
from the expressions and the answers to the bindings, and from one round of a loop to the next.
-/

namespace Parlance

namespace Pairing

open Machine Execution

/-- From states that belong together, the two computations end in a way that belongs together. -/
def Pairs (P : Pairing) {α β : Type} (values : α → β → Prop) (m : Machine α) (m' : Machine β) :
    Prop :=
  ∀ s t, P.states s t → P.Paired values (m P.left s) (m' P.right t)

/-- What occurs in a program comes out the same on both sides, with values that have a property, and
neither side stops early. -/
structure Attends (P : Pairing) (occurs : Occurrence → Prop) (good : Tree → Prop) : Prop
    extends P.Steady where
  room : P.left.room = P.right.room
  same : ∀ line, P.lines line line
  never : ∀ {failure s failure' t}, ¬ P.short failure s failure' t
  looked : ∀ {e s t}, occurs (.value e) → P.states s t → ∀ room,
    evaluate s.env room e.toTree = evaluate t.env room e.toTree ∧
      ∀ v, evaluate s.env room e.toTree = .ok v → good v
  found : ∀ {name s t}, occurs (.target name) → P.states s t →
    s.env.find? (.text name) = t.env.find? (.text name)
  bound : ∀ {name s t value} (fixed : Tree), occurs (.target name) → P.states s t → good value →
    P.states
      { s with env := s.env.put (.text name) (.text name) value fixed, writes := s.writes + 1 }
      { t with env := t.env.put (.text name) (.text name) value fixed, writes := t.writes + 1 }
  answers : P.Pairs (fun a b => a = b ∧ ∀ answer ∈ a, good (answerOf answer)) readLine readLine
  counts : ∀ {counter last : Float}, good (.number counter) → good (.number last) →
    counter + 1.0 ≤ last → good (.number (counter + 1.0))

section Attends

variable {P : Pairing} {occurs : Occurrence → Prop} {good : Tree → Prop}
  {execute execute' : Tree → Machine Flow}

theorem pairs_read {α β : Type} {values : α → β → Prop} {next : Setup → Machine α}
    {next' : Setup → Machine β} (onward : P.Pairs values (next P.left) (next' P.right)) :
    P.Pairs values (read >>= next) (read >>= next') :=
  onward

/-- Computations one after the other. -/
theorem Attends.andThen (attends : P.Attends occurs good) {α β γ δ : Type} {values : α → β → Prop}
    {values' : γ → δ → Prop} {m : Machine α} {m' : Machine β} {next : α → Machine γ}
    {next' : β → Machine δ} (first : P.Pairs values m m')
    (onward : ∀ a b, values a b → P.Pairs values' (next a) (next' b)) :
    P.Pairs values' (m >>= next) (m' >>= next') := by
  intro s t states
  have paired := first s t states
  generalize left : m P.left s = x, right : m' P.right t = y at paired
  cases paired with
  | ok value states =>
    rw [bind_of_ok left, bind_of_ok right]
    exact onward _ _ value _ _ states
  | error failures states =>
    rw [bind_of_error left, bind_of_error right]
    exact .error failures states
  | short short => exact absurd short attends.never

/-! ## Looks and changes -/

/-- An expression that occurs has the same good value in both runs, or fails alike. -/
theorem Attends.look (attends : P.Attends occurs good) {e : Expr} (inside : occurs (.value e))
    (room : Nat) (line : Tree) :
    P.Pairs (fun a b => a = b ∧ good a) (inspect line (evaluate · room e.toTree))
      (inspect line (evaluate · room e.toTree)) := by
  refine (lockstep_inspect_of (attends.same line) fun s t states => ?_).paired
  obtain ⟨equal, value⟩ := attends.looked inside states room
  rw [← equal]
  exact (Results.refl attends.same _).outcomes fun v ok => ⟨rfl, value v ok⟩

/-- A condition that occurs is decided alike. -/
theorem Attends.test (attends : P.Attends occurs good) {e : Expr} (inside : occurs (.value e))
    (room : Nat) (line : Tree) :
    P.Lockstep Eq (inspect line (evaluateCondition · room e.toTree))
      (inspect line (evaluateCondition · room e.toTree)) := by
  refine lockstep_inspect_of (attends.same line) fun s t states => ?_
  unfold evaluateCondition
  rw [(attends.looked inside states room).1]
  exact (Results.refl attends.same _).outcomes fun _ _ => rfl

variable {name : String} {value : Tree}

/-- A change that is refused where the name is bound for good. -/
theorem Attends.put (attends : P.Attends occurs good) (inside : occurs (.target name))
    (ok : good value) (fixed line : Tree) (problem : Problem)
    {change : Environment → Except Failure Environment}
    (guarded : ∀ env, change env =
      if env.isFixed (.text name) then .error (.problem line problem)
      else .ok (env.put (.text name) (.text name) value fixed)) :
    P.Lockstep Eq (update change) (update change) := by
  refine lockstep_update_of fun s t states => ?_
  have flag : s.env.isFixed (.text name) = t.env.isFixed (.text name) := by
    rw [Environment.isFixed, Environment.isFixed, attends.found inside states]
  rw [guarded, guarded, flag]
  split
  · exact .error (.problem (attends.same line) problem)
  · exact .ok (attends.bound fixed inside states ok)

theorem Attends.declare (attends : P.Attends occurs good) (inside : occurs (.target name))
    (ok : good value) (fixed line : Tree) :
    P.Lockstep Eq (update (·.declare (.text name) value fixed line))
      (update (·.declare (.text name) value fixed line)) :=
  attends.put inside ok fixed line _ fun _ => rfl

theorem Attends.bind (attends : P.Attends occurs good) (inside : occurs (.target name))
    (ok : good value) (line : Tree) :
    P.Lockstep Eq (update (·.bind (.text name) value line))
      (update (·.bind (.text name) value line)) :=
  attends.put inside ok (.flag false) line _ fun _ => rfl

/-- A target that occurs is assigned a good value alike. -/
theorem Attends.assign (attends : P.Attends occurs good) (inside : occurs (.target name))
    (ok : good value) (line : Tree) :
    P.Lockstep Eq (update (·.assign (.text name) value line))
      (update (·.assign (.text name) value line)) := by
  refine lockstep_update_of fun s t states => ?_
  have found := attends.found inside states
  cases bound : t.env.find? (.text name) with
  | none =>
    have refused {env : Environment} (unbound : env.find? (.text name) = none) :
        env.assign (.text name) value line =
          .error (.problem line (.undefinedName (Tree.text name).plain)) := by
      simp only [Environment.assign, Environment.keyOf, Key.of?, Bind.bind, Except.bind, unbound]
    rw [refused bound, refused (found.trans bound)]
    exact .error (.problem (attends.same line) _)
  | some b =>
    have guarded {env : Environment} (bound : env.find? (.text name) = some b) :
        env.assign (.text name) value line =
          if b.fixed.isTrue then .error (.problem line (.assignedFixed (Tree.text name).plain))
          else .ok (env.put (.text name) (.text name) value b.fixed) := by
      simp only [Environment.assign, Environment.keyOf, Key.of?, Bind.bind, Except.bind, bound]
    rw [guarded bound, guarded (found.trans bound)]
    split
    · exact .error (.problem (attends.same line) _)
    · exact .ok (attends.bound b.fixed inside states ok)

/-! ## Statements -/

/-- The statements of a block, as they stand in a tree. -/
theorem Attends.block (attends : P.Attends occurs good) {ss : List Stmt}
    (each : ∀ s ∈ ss, P.Lockstep P.Flows (execute s.toTree) (execute' s.toTree)) :
    P.Lockstep P.Flows (runBlock execute (.block (.list (Stmt.toTrees ss))))
      (runBlock execute' (.block (.list (Stmt.toTrees ss)))) := by
  refine lockstep_runAll attends.toSteady ?_
  rw [Stmt.toTrees_eq_map]
  refine List.forall₂_same.2 fun t listed => ?_
  obtain ⟨s, member, rfl⟩ := List.mem_map.1 listed
  exact .refl attends.same (each s member)

/-- Branches whose expressions occur are tested and run in lockstep. -/
theorem Attends.branches (attends : P.Attends occurs good) {holds holds' : Tree → Machine Bool}
    {otherwise otherwise' : Machine Flow} {bs : List Branch}
    (tests : ∀ e, occurs (.value e) → P.Lockstep Eq (holds e.toTree) (holds' e.toTree))
    (each : ∀ s : Stmt, (∀ o ∈ s.occurrences, occurs o) →
      P.Lockstep P.Flows (execute s.toTree) (execute' s.toTree))
    (inside : ∀ b ∈ bs, ∀ o ∈ b.occurrences, occurs o)
    (last : P.Lockstep P.Flows otherwise otherwise') :
    P.Lockstep P.Flows (runBranches execute holds otherwise (Branch.toTrees bs))
      (runBranches execute' holds' otherwise' (Branch.toTrees bs)) := by
  induction bs with
  | nil => exact last
  | cons b bs ih =>
    obtain ⟨condition, body, line⟩ := b
    obtain ⟨first, rest⟩ := List.forall_mem_cons.1 inside
    obtain ⟨inCondition, inBody⟩ := List.forall_mem_cons.1 first
    refine (tests condition inCondition).bind fun taken => ?_
    split
    · refine (attends.step _ (attends.same _)).bind fun _ => attends.block fun s member => ?_
      exact each s (Stmt.forall_allOccurrences.1 inBody s member)
    · exact ih rest

/-- Rounds for every counter within the bound, all of which have the property. -/
theorem Attends.rangeLoop (attends : P.Attends occurs good) {round round' : Float → Machine Flow}
    {last : Float} (bounded : good (.number last))
    (rounds : ∀ counter, good (.number counter) → P.Pairs P.Flows (round counter) (round' counter))
    (patience : Nat) {counter : Float} (within : counter ≤ last → good (.number counter)) :
    P.Pairs Eq (rangeLoop round last patience counter)
      (rangeLoop round' last patience counter) := by
  induction patience generalizing counter with
  | zero => exact (lockstep_throw .endless).paired
  | succ patience ih =>
    rw [Execution.rangeLoop, Execution.rangeLoop]
    split
    · next le =>
      -- The counter that has passed the bound is bound to no name, and need not have the property.
      have ok := within le
      refine attends.andThen (rounds counter ok) ?_
      rintro _ _ (_ | lines | lines)
      · exact ih (attends.counts ok bounded)
      · exact (lockstep_pure rfl).paired
      · exact ih (attends.counts ok bounded)
    · exact (lockstep_pure rfl).paired

/-- A statement is executed alike if the statements inside it are. -/
theorem Attends.step_pairs (attends : P.Attends occurs good) {room : Nat}
    (each : ∀ s : Stmt, (∀ o ∈ s.occurrences, occurs o) →
      P.Lockstep P.Flows (execute s.toTree) (execute' s.toTree))
    {s : Stmt} (inside : ∀ o ∈ s.occurrences, occurs o) :
    P.Pairs P.Flows (step room execute s.toTree) (step room execute' s.toTree) := by
  have block {ss : List Stmt} (inside : ∀ o ∈ Stmt.allOccurrences ss, occurs o) :
      P.Lockstep P.Flows (runBlock execute (.block (.list (Stmt.toTrees ss))))
        (runBlock execute' (.block (.list (Stmt.toTrees ss)))) :=
    attends.block fun s member => each s (Stmt.forall_allOccurrences.1 inside s member)
  have written {verb : String} {name : String} {value : Tree}
      {change : Environment → Except Failure Environment}
      (changed : P.Lockstep Eq (update change) (update change)) :
      P.Pairs P.Flows
        (update change >>= fun _ => traceBinding verb (.text name) value >>= fun _ => pure .done)
        (update change >>= fun _ =>
          traceBinding verb (.text name) value >>= fun _ => pure .done) :=
    (changed.bind fun _ => (attends.binding _ _ _).bind fun _ => lockstep_pure .done).paired
  cases s with
  | declare name expr fixed line =>
    obtain ⟨inValue, inTarget⟩ := List.forall_mem_cons.1 inside
    refine attends.andThen (attends.look inValue room _) ?_
    rintro value _ ⟨rfl, ok⟩
    exact written (attends.declare (inTarget _ List.mem_cons_self) ok _ _)
  | assign name expr line =>
    obtain ⟨inValue, inTarget⟩ := List.forall_mem_cons.1 inside
    refine attends.andThen (attends.look inValue room _) ?_
    rintro value _ ⟨rfl, ok⟩
    exact written (attends.assign (inTarget _ List.mem_cons_self) ok _)
  | say expr line | display expr line =>
    refine attends.andThen (attends.look (inside _ List.mem_cons_self) room _) ?_
    rintro value _ ⟨rfl, _⟩
    exact ((lockstep_writeLine attends.toSteady _).bind fun _ => lockstep_pure .done).paired
  | ask name line =>
    refine attends.andThen attends.answers ?_
    rintro answer _ ⟨rfl, ok⟩
    cases answer with
    | none =>
      exact ((lockstep_checkpoint attends.toSteady (attends.same _)).bind
        fun _ => lockstep_throw (.problem (attends.same _) .noInput)).paired
    | some answer =>
      exact written (attends.bind (inside _ List.mem_cons_self) (ok answer rfl) _)
  | choose branches otherwise line =>
    cases otherwise with
    | none =>
      exact (attends.branches (fun e inTest => attends.test inTest room _) each
        (Branch.forall_allOccurrences.1 inside) (lockstep_pure .done)).paired
    | some body =>
      obtain ⟨inBranches, inBody⟩ := List.forall_mem_append.1 inside
      exact (attends.branches (fun e inTest => attends.test inTest room _) each
        (Branch.forall_allOccurrences.1 inBranches)
        ((attends.step _ (attends.same _)).bind fun _ => block inBody)).paired
  | range name first last body line =>
    obtain ⟨inFirst, inside⟩ := List.forall_mem_cons.1 inside
    obtain ⟨inLast, inside⟩ := List.forall_mem_cons.1 inside
    obtain ⟨inTarget, inBody⟩ := List.forall_mem_cons.1 inside
    refine attends.andThen (attends.look inFirst room _) ?_
    rintro start _ ⟨rfl, startOk⟩
    refine attends.andThen (attends.look inLast room _) ?_
    rintro stop _ ⟨rfl, stopOk⟩
    split
    · refine pairs_read ?_
      rw [attends.patience]
      refine attends.andThen (attends.rangeLoop stopOk (fun counter ok => ?_) _ fun _ => startOk)
        fun _ _ _ => (lockstep_pure .done).paired
      refine ((lockstep_checkpoint attends.toSteady (attends.same _)).bind fun _ => ?_).paired
      refine (attends.bind inTarget ok _).bind fun _ => ?_
      exact (attends.step _ (attends.same _)).bind fun _ => block inBody
    · exact (lockstep_throw (.problem (attends.same _) .boundsNotNumbers)).paired
  | whilst condition body line =>
    have inTest := inside _ List.mem_cons_self
    refine (lockstep_read ?_).paired
    rw [attends.patience]
    refine (lockstep_whileLoop ?_ ?_ _).bind fun _ => lockstep_pure .done
    · exact (lockstep_checkpoint attends.toSteady (attends.same _)).bind
        fun _ => attends.test inTest room _
    · exact (attends.step _ (attends.same _)).bind
        fun _ => block (List.forall_mem_cons.1 inside).2
  | leave line => exact (lockstep_pure (.leave (attends.same _))).paired
  | next line => exact (lockstep_pure (.next (attends.same _))).paired

/-- A statement whose names and expressions occur is executed in lockstep. -/
theorem Attends.lockstep_execute (attends : P.Attends occurs good) (room : Nat) {s : Stmt}
    (inside : ∀ o ∈ s.occurrences, occurs o) :
    P.Lockstep P.Flows (Execution.execute room s.toTree) (Execution.execute room s.toTree) := by
  refine ⟨fun t => (forks_execute (n := 0) room s.toTree t).1.leads.output, ?_⟩
  induction room generalizing s with
  | zero => exact (lockstep_throw (.refl attends.same _)).paired
  | succ room ih =>
    refine attends.step_pairs (fun s inside => ⟨fun t => ?_, ih inside⟩) inside
    exact (forks_execute (n := 0) room s.toTree t).1.leads.output

/-- A program runs in lockstep with itself. -/
theorem Attends.lockstep_runProgram (attends : P.Attends occurs good) {p : Program}
    (inside : ∀ o ∈ p.occurrences, occurs o) :
    P.Lockstep Eq (runProgram (Stmt.toTrees p.body)) (runProgram (Stmt.toTrees p.body)) := by
  refine Pairing.lockstep_runProgram attends.toSteady ?_
  rw [attends.room, Stmt.toTrees_eq_map]
  refine List.forall₂_same.2 fun t listed => ?_
  obtain ⟨s, member, rfl⟩ := List.mem_map.1 listed
  have each := Stmt.forall_allOccurrences.1 inside s member
  exact .refl attends.same (attends.lockstep_execute _ each)

/-- Where lines only stand for themselves, both runs end with the same failure or with none. -/
theorem Attends.ends (attends : P.Attends occurs good)
    (only : ∀ line line', P.lines line line' → line = line') {α : Type} {values : α → α → Prop}
    {x y : EStateM.Result Failure State α} (paired : P.Paired values x y) :
    failureOf x = failureOf y ∧ P.states (endState x) (endState y) := by
  cases paired with
  | ok value states => exact ⟨rfl, states⟩
  | error failures states => exact ⟨congrArg some (failures.eq only), states⟩
  | short short => exact absurd short attends.never

end Attends

end Pairing

end Parlance
