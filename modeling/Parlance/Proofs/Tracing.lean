import Parlance.Proofs.Lockstep

/-!
# Runs that tell more or less

Two runs of one program that differ only in the level of the trace are in lockstep: they differ in
nothing but what they have told, and the run with the lower level has left out lines of the other
one.  The highest level at which anything is told is the third, so above it all runs tell the same.
-/

namespace Parlance

/-- The session with another level of the trace. -/
def Session.tracing (session : Session) (level : Nat) : Session :=
  { session with setup := { session.setup with level } }

/-- The states differ at most in what has been told: the first one has left out lines, and none if
its level is the third or higher. -/
structure Told (low : Nat) (s t : State) : Prop where
  same : t = { s with trace := t.trace }
  lines : s.trace.toList.Sublist t.trace.toList
  all : 3 ≤ low → s.trace = t.trace

namespace Told

variable {low : Nat} {s t : State}

theorem env (told : Told low s t) : s.env = t.env := by
  rw [told.same]

theorem polls (told : Told low s t) : s.polls = t.polls := by
  rw [told.same]

theorem input (told : Told low s t) : s.input = t.input := by
  rw [told.same]

theorem output (told : Told low s t) : s.output = t.output := by
  rw [told.same]

/-- A change that leaves the traces aside. -/
theorem changed (told : Told low s t) (change : State → State)
    (aside : ∀ s trace, change { s with trace } = { change s with trace })
    (kept : ∀ s, (change s).trace = s.trace) : Told low (change s) (change t) := by
  refine ⟨?_, ?_, fun high => ?_⟩
  · rw [kept t]
    exact (congrArg change told.same).trans (aside s t.trace)
  · rw [kept, kept]
    exact told.lines
  · rw [kept, kept]
    exact told.all high

/-- Both runs add the same lines around what they have told. -/
theorem around (told : Told low s t) (before after : Array String) :
    Told low { s with trace := before ++ s.trace ++ after }
      { t with trace := before ++ t.trace ++ after } := by
  refine ⟨?_, ?_, fun high => ?_⟩
  · exact congrArg (fun u : State => { u with trace := before ++ t.trace ++ after }) told.same
  · simp only [Array.toList_append]
    exact ((List.Sublist.refl _).append told.lines).append_right _
  · simp only [told.all high]

/-- Only the second run adds lines, which it does at a higher level than that of the first. -/
theorem more (told : Told low s t) (before after : Array String) (less : low < 3) :
    Told low s { t with trace := before ++ t.trace ++ after } := by
  refine ⟨?_, ?_, fun high => absurd high (Nat.not_le.2 less)⟩
  · exact congrArg (fun u : State => { u with trace := before ++ t.trace ++ after }) told.same
  · simp only [Array.toList_append]
    exact told.lines.trans ((List.sublist_append_right _ _).trans (List.sublist_append_left _ _))

end Told

/-! ## Lockstep -/

/-- Two runs at two levels of the trace. -/
def Setup.levels (setup : Setup) (low high : Nat) : Pairing where
  left := { setup with level := low }
  right := { setup with level := high }
  lines := Eq
  states := Told low
  short := fun _ _ _ _ => False
  onward := fun never _ _ => never

section Levels

open Machine Execution Pairing

variable {setup : Setup} {low high : Nat}

/-- A line goes to the trace of the run that shows more, and to that of the other one if its level
is shown there, too. -/
theorem lockstep_trace (le : low ≤ high) {level : Nat} (shown : level ≤ 3) (text : Unit → String) :
    (setup.levels low high).Lockstep Eq (trace level text) (trace level text) := by
  refine lockstep_read ?_
  by_cases quiet : level ≤ low
  · rw [if_pos (show level ≤ (setup.levels low high).left.level from quiet),
      if_pos (show level ≤ (setup.levels low high).right.level from Nat.le_trans quiet le)]
    refine lockstep_modify (fun _ => List.prefix_rfl) fun s t told => ?_
    have told' := told.around #[] #[text ()]
    rw [Array.empty_append, Array.empty_append, ← Array.push_eq_append,
      ← Array.push_eq_append] at told'
    exact told'
  · rw [if_neg (show ¬ level ≤ (setup.levels low high).left.level from quiet)]
    split
    · refine ⟨fun _ => List.prefix_rfl, fun s t told => ?_⟩
      have told' := told.more #[] #[text ()] (Nat.lt_of_lt_of_le (Nat.lt_of_not_le quiet) shown)
      rw [Array.empty_append, ← Array.push_eq_append] at told'
      exact .ok rfl told'
    · exact lockstep_pure rfl

/-- Tracing more is a relation that two runs can keep. -/
theorem lawful_levels (le : low ≤ high) : (setup.levels low high).Lawful where
  signal := rfl
  patience := rfl
  env := Told.env
  polls := Told.polls
  asked := by
    intro s t told
    exact told.changed (fun s => { s with polls := s.polls + 1 }) (fun _ _ => rfl) fun _ => rfl
  written := by
    intro s t line told
    exact told.changed (fun s => { s with output := s.output.push line }) (fun _ _ => rfl)
      fun _ => rfl
  updated := by
    intro s t env told
    exact told.changed (fun s => { s with env, writes := s.writes + 1 }) (fun _ _ => rfl)
      fun _ => rfl
  step := by
    rintro line _ what rfl
    exact lockstep_trace le (Nat.le_refl 3) _
  binding := fun _ _ _ => lockstep_trace le (by decide) _

theorem reading_levels : (setup.levels low high).Reading where
  timed := rfl
  renewals := rfl
  input := Told.input
  consumed := by
    intro s t input told
    exact told.changed (fun s => { s with input }) (fun _ _ => rfl) fun _ => rfl

/-- A statement is executed in lockstep at any two levels of tracing. -/
theorem lockstep_execute_levels (le : low ≤ high) (room : Nat) (t : Tree) :
    (setup.levels low high).Lockstep (setup.levels low high).Flows (execute room t)
      (execute room t) := by
  have lawful : (setup.levels low high).Lawful := lawful_levels le
  have same : ∀ line, (setup.levels low high).lines line line := fun _ => rfl
  induction room generalizing t with
  | zero => exact lockstep_throw (.refl same _)
  | succ room ih =>
    refine lockstep_step lawful same ih t ?_
    rintro name line rfl
    exact lockstep_ask lawful reading_levels (same line) fun _ _ => .refl same _

theorem lockstep_runProgram_levels (setup : Setup) (le : low ≤ high) (statements : List Tree) :
    (setup.levels low high).Lockstep Eq (runProgram statements) (runProgram statements) := by
  have lawful : (setup.levels low high).Lawful := lawful_levels le
  refine lockstep_runProgram lawful.toSteady (List.forall₂_same.2 fun t _ => ?_)
  exact .refl (fun _ => rfl) (lockstep_execute_levels le _ t)

end Levels

/-! ## Runs -/

/-- The run with the lower level ends as the other one does and has left out lines. -/
theorem told_runTraced (setup : Setup) (state : State) (statements : List Tree) {low high : Nat}
    (le : low ≤ high) :
    Told low (runTraced { setup with level := low } state statements).1
        (runTraced { setup with level := high } state statements).1 ∧
      (runTraced { setup with level := low } state statements).2 =
        (runTraced { setup with level := high } state statements).2 := by
  have start : Told low { state with trace := #[] } { state with trace := #[] } :=
    ⟨rfl, List.Sublist.refl _, fun _ => rfl⟩
  have paired := (lockstep_runProgram_levels setup le statements).paired _ _ start
  generalize quiet : Execution.runProgram statements (setup.levels low high).left _ = x,
    loud : Execution.runProgram statements (setup.levels low high).right _ = y at paired
  have ends : Told low (endState x) (endState y) ∧ failureOf x = failureOf y := by
    cases paired with
    | ok _ told => exact ⟨told, rfl⟩
    | error failures told => exact ⟨told, congrArg some (failures.eq fun _ _ same => same)⟩
    | short never => exact never.elim
  obtain ⟨told, failure⟩ := ends
  rw [runTraced_eq { setup with level := low } state statements quiet,
    runTraced_eq { setup with level := high } state statements loud, failure, told.output]
  refine ⟨?_, rfl⟩
  dsimp only
  split_ifs with some some' some'
  · exact told.around _ _
  · exact absurd (Nat.le_trans some le) some'
  · exact told.more _ _ (by omega)
  · exact told

/-- What a run leaves behind at two levels, the lower one first. -/
theorem Session.told_run (session : Session) (program : Tree) {low high : Nat} (le : low ≤ high) :
    let quiet := (session.tracing low).run program
    let loud := (session.tracing high).run program
    Told low quiet.1.state loud.1.state ∧ quiet.2.failure = loud.2.failure ∧
      quiet.1.record.toList.Sublist loud.1.record.toList ∧
      quiet.2.unrecorded.toList.Sublist loud.2.unrecorded.toList ∧
      (3 ≤ low → quiet.1.record = loud.1.record ∧ quiet.2.unrecorded = loud.2.unrecorded) := by
  intro quiet loud
  cases top : program.topLevel with
  | error failure =>
    have quietRun : quiet = _ := (session.tracing low).run_of_error top
    have loudRun : loud = _ := (session.tracing high).run_of_error top
    rw [quietRun, loudRun]
    refine ⟨⟨rfl, List.Sublist.refl _, fun _ => rfl⟩, rfl, ?_, ?_, fun _ => ⟨rfl, rfl⟩⟩
    · exact List.Sublist.refl _
    · exact List.Sublist.refl _
  | ok statements =>
    obtain ⟨told, failure⟩ := told_runTraced session.setup session.state statements le
    have quietRun : quiet = _ := (session.tracing low).run_of_ok top
    have loudRun : loud = _ := (session.tracing high).run_of_ok top
    by_cases recording : session.recording = true
    · rw [quietRun.trans (if_pos recording), loudRun.trans (if_pos recording)]
      refine ⟨told, failure, ?_, List.Sublist.refl _, fun high => ⟨?_, rfl⟩⟩
      · simp only [Array.toList_append]
        exact told.lines.append_left _
      · exact congrArg (session.record ++ ·) (told.all high)
    · rw [quietRun.trans (if_neg recording), loudRun.trans (if_neg recording)]
      exact ⟨told, failure, List.Sublist.refl _, told.lines, fun high => ⟨rfl, told.all high⟩⟩

/-- Tracing does not interfere.  At any two levels a run ends in the same state apart from the
trace, and with the same failure.  What it tells at the lower level is some of what it tells at the
higher one, be it recorded or not, and from the third level on it is the same. -/
theorem Session.tracing_does_not_interfere (session : Session) (program : Tree) (m n : Nat) :
    let quiet := (session.tracing m).run program
    let loud := (session.tracing n).run program
    loud.1.state = { quiet.1.state with trace := loud.1.state.trace } ∧
      quiet.2.failure = loud.2.failure ∧
      (m ≤ n → quiet.1.record.toList.Sublist loud.1.record.toList ∧
        quiet.2.unrecorded.toList.Sublist loud.2.unrecorded.toList) ∧
      (3 ≤ m → 3 ≤ n →
        quiet.1.record = loud.1.record ∧ quiet.2.unrecorded = loud.2.unrecorded) := by
  intro quiet loud
  rcases Nat.le_total m n with le | le
  · obtain ⟨told, failure, recorded, unrecorded, all⟩ := session.told_run program le
    exact ⟨told.same, failure, fun _ => ⟨recorded, unrecorded⟩, fun high _ => all high⟩
  · obtain ⟨told, failure, recorded, unrecorded, all⟩ := session.told_run program le
    refine ⟨?_, failure.symm, fun le' => ?_, fun _ high => ?_⟩
    · have same := congrArg (fun s : State => { s with trace := loud.1.state.trace }) told.same
      exact same.symm
    · cases Nat.le_antisymm le' le
      exact ⟨recorded, unrecorded⟩
    · exact ⟨(all high).1.symm, (all high).2.symm⟩

/-- A branch that is taken and declares a name: the second level tells of the name, the third one of
the branch too. -/
theorem tracing_of_branch :
    let session : Session := { setup := {}, state := {} }
    let name : Tree := .declare (.text "x") (.textLit (.text "a") (lineTree 2)) (.flag true)
      (lineTree 2)
    let program : Tree := .program (.list [.choose (.list [.branch
      (.flagLit (.flag true) (lineTree 1)) (.block (.list [name])) (lineTree 1)]) .null
      (lineTree 1)])
    ((session.tracing 2).run program).1.record.toList =
        ["run: 1 top-level statements", "keep x: text = a", "run: finished, 0 output lines"] ∧
      ((session.tracing 2).run program).1.record.toList.Sublist
        ((session.tracing 3).run program).1.record.toList ∧
      ((session.tracing 7).run program).1.record.toList =
        ["run: 1 top-level statements", "line 1: branch taken", "keep x: text = a",
          "run: finished, 0 output lines"] := by
  intro session name program
  have third : ((session.tracing 3).run program).1.record.toList =
      ["run: 1 top-level statements", "line 1: branch taken", "keep x: text = a",
        "run: finished, 0 output lines"] := by
    decide +kernel
  refine ⟨by decide +kernel, ?_, ?_⟩
  · exact ((session.tracing_does_not_interfere program 2 3).2.2.1 (by decide)).1
  · rw [((session.tracing_does_not_interfere program 7 3).2.2.2 (by decide) (by decide)).1, third]

end Parlance
