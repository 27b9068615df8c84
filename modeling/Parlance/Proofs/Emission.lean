import Mathlib
import Parlance.CommandLine.Invocation
import Parlance.Proofs.Calls
import Parlance.Proofs.CodecRoundTrip
import Parlance.Proofs.DiskWrites
import Parlance.Proofs.JsonRoundTrip

/-!
# A program run from its tree

A command that writes the tree of a program to a file reads the source in the same way as a command
that runs it, so they reject the same sources (`emit_of_rejected`).  If the tree was written, its
file is found again (`Emitted.look_after`), the text of the file is read as the tree
(`Emitted.executeTree_eq`), and what the run does besides depends on the options for tracing and for
input only (`execute_congr`).
-/

namespace Parlance

/-- The text of a value needs no more room than the value itself as a tree. -/
theorem Json.nesting_le_depth (value : Json) : value.nesting ≤ value.depth := by
  induction value using Json.parts_induction with
  | list items ih =>
    have inside : itemsNesting items ≤ itemsDepth items :=
      itemsNesting_le_iff.2 fun item mem =>
        Nat.le_trans (ih item mem) (itemsDepth_le_iff.1 (Nat.le_refl _) item mem)
    exact Nat.le_succ_of_le (Nat.succ_le_succ inside)
  | record fields ih =>
    have inside : fieldsNesting fields ≤ fieldsDepth fields :=
      fieldsNesting_le_iff.2 fun field mem =>
        Nat.le_trans (ih field mem) (fieldsDepth_le_iff.1 (Nat.le_refl _) field mem)
    exact Nat.succ_le_succ inside
  | _ => exact Nat.zero_le _

namespace CommandLine

/-- The world of a command that works on a disk. -/
def Disk.world (disk : Disk) (stdin : String) : World :=
  { look := disk.look, stdin }

/-- Two calls, each on its disk, have the same answers for the program: no input file, or files with
the same content. -/
def SameInput (call : Call) (disk : Disk) (other : Call) (otherDisk : Disk) : Prop :=
  (given? call.input).map disk.look = (given? other.input).map otherDisk.look

@[simp]
theorem Disk.look_world (disk : Disk) (stdin : String) : (disk.world stdin).look = disk.look :=
  rfl

/-! ## What a run depends on -/

theorem readText_congr {world other : World} {name otherName : String}
    (same : world.look name = other.look otherName) :
    readText world name = readText other otherName := by
  unfold readText
  rw [same]

/-- The answers come from the input file that is given, or from standard input. -/
theorem answers_of_given (options : Options) (world : World) :
    options.answers world =
      match given? options.input with
      | some name => (readText world name).map Input.ofText
      | none => .ok (Options.answers.standard world) := by
  unfold Options.answers given?
  cases options.input with
  | none => rfl
  | some name => cases empty : name.isEmpty <;> simp [Option.filter, empty]

/-- The answers are the same where standard input and the input file are. -/
theorem answers_congr {options other : Options} {world otherWorld : World}
    (stdin : world.stdin = otherWorld.stdin)
    (input : (given? options.input).map world.look =
      (given? other.input).map otherWorld.look) :
    options.answers world = other.answers otherWorld := by
  rw [answers_of_given, answers_of_given]
  cases named : given? options.input with
  | none =>
    rw [named] at input
    have unnamed : given? other.input = none := by simpa using input.symm
    simp only [unnamed, Options.answers.standard, stdin]
  | some name =>
    rw [named] at input
    obtain ⟨otherName, otherNamed, same⟩ := Option.map_eq_some_iff.1 input.symm
    simp only [otherNamed, readText_congr same]

/-- A run depends on its options for tracing and for the time, on the answers and on whether the
trace can be written. -/
theorem execute_congr {options other : Options} {world otherWorld : World}
    (verbosity : options.verbosity = other.verbosity)
    (untimed : options.timeout = none) (otherUntimed : other.timeout = none)
    (answers : options.answers world = other.answers otherWorld)
    (trace : world.look traceFile = otherWorld.look traceFile) (program : Tree) :
    execute options world program = execute other otherWorld program := by
  have obstacle : obstacle? world traceFile = obstacle? otherWorld traceFile := by
    unfold obstacle?
    rw [trace]
  simp only [execute, runWith, Options.signal, verbosity, untimed, otherUntimed, answers, obstacle]

/-! ## What is written -/

/-- A file that is there is read, with its line ends made plain. -/
theorem readSubject_of_file {world : World} {name text : String}
    (found : world.look (Path.ofText name).normalize.text = .file text) :
    readSubject world name = .ok (String.ofList (Text.unifyNewlines text.toList)) := by
  simp only [readSubject, readText, found]

/-- A file whose text the front end accepts is read as its program. -/
theorem readProgram_of_parsed {options : Options} {world : World} {name text : String}
    {program : Program} (found : world.look (Path.ofText name).normalize.text = .file text)
    (parsed : options.frontEnd.parse (String.ofList (Text.unifyNewlines text.toList)) =
      .ok program) :
    readProgram options world name = .ok program := by
  unfold readProgram
  simp only [readSubject_of_file found, bind, Except.bind, parsed]
  rfl

/-- A file that cannot be read is never a success. -/
theorem ending_of_readSubject {world : World} {name : String} {outcome : Outcome}
    (failed : readSubject world name = .error outcome) : outcome.ending ≠ .status 0 := by
  unfold readSubject at failed
  dsimp only at failed
  split at failed
  · cases failed
  all_goals
    cases failed
    simp [reported]

/-- A program that cannot be read is never a success. -/
theorem ending_of_readProgram {options : Options} {world : World} {name : String}
    {outcome : Outcome} (failed : readProgram options world name = .error outcome) :
    outcome.ending ≠ .status 0 := by
  unfold readProgram at failed
  cases read : readSubject world name with
  | error error =>
    rw [read] at failed
    cases failed
    exact ending_of_readSubject read
  | ok source =>
    rw [read] at failed
    simp only [bind, Except.bind] at failed
    split at failed
    · cases failed
    · cases failed
      simp [reported]

/-- A program that has been read was in a file, and the front end accepts the text of it. -/
theorem exists_content_of_readProgram {options : Options} {world : World} {name : String}
    {program : Program} (read : readProgram options world name = .ok program) :
    ∃ content, world.look (Path.ofText name).normalize.text = .file content ∧
      options.frontEnd.parse (String.ofList (Text.unifyNewlines content.toList)) =
        .ok program := by
  unfold readProgram readSubject readText at read
  dsimp only at read
  cases found : world.look (Path.ofText name).normalize.text with
  | file content =>
    simp only [found, bind, Except.bind] at read
    refine ⟨content, rfl, ?_⟩
    split at read
    case h_1 parsed =>
      cases read
      exact parsed
    case h_2 => cases read
  | directory | missing | throughFile | nameTooLong | nameBroken =>
    rw [found] at read
    cases read

/-- What a command has found and written that wrote the tree of a program. -/
structure Emitted (options : Options) (world : World) (name : String) (program : Program)
    (content : String) : Prop where
  found : world.look (Path.ofText name).normalize.text = .file content
  parsed : options.frontEnd.parse (String.ofList (Text.unifyNewlines content.toList)) = .ok program
  free : obstacle? world (treeFile name) = none
  fits : program.toTree.form.depth ≤ Tree.room
  writable : program.toTree.form.isWritable = true
  writes : (emit options world name).writes =
    [(treeFile name, program.toTree.form.indented)]

/-- A successful emission has found a program and has written its tree. -/
theorem exists_emitted {options : Options} {world : World} {name : String}
    (succeeded : (emit options world name).ending = .status 0) :
    ∃ program content, Emitted options world name program content := by
  unfold emit at succeeded
  cases read : readProgram options world name with
  | error outcome =>
    rw [read] at succeeded
    exact absurd succeeded (ending_of_readProgram read)
  | ok program =>
    simp only [read] at succeeded
    cases written : program.toTree.toJson Tree.room with
    | error error =>
      rw [written] at succeeded
      cases succeeded
    | ok json =>
      obtain ⟨fits, rfl⟩ := Tree.toJson_eq_ok_iff.1 written
      simp only [written] at succeeded
      split at succeeded
      case h_1 => cases succeeded
      case h_2 free =>
        split at succeeded
        case isFalse => cases succeeded
        case isTrue writable =>
          obtain ⟨content, found, parsed⟩ := exists_content_of_readProgram read
          refine ⟨program, content, found, parsed, free, fits, writable, ?_⟩
          simp only [emit, read, written, free, writable, if_true]

/-! ## Reading it back -/

/-- The ending of the file that a tree is written to. -/
def treeEnding : String := ".ast.json"

namespace Emitted

variable {options other : Options} {disk : Disk} {stdin name content : String} {program : Program}

/-- Either disk gives the program again, as long as the source is found with its content. -/
theorem readProgram_eq {world : World}
    (emitted : Emitted options (disk.world stdin) name program content)
    (found : world.look (Path.ofText name).normalize.text = .file content)
    (frontEnd : options.contextual = other.contextual) :
    readProgram other world name = .ok program := by
  have parsed := emitted.parsed
  unfold Options.frontEnd at parsed
  rw [frontEnd] at parsed
  exact readProgram_of_parsed found parsed

/-- The tree is found under the name of the source with its ending, the source is still there, and
so is whatever the trace is written to. -/
theorem look_after (emitted : Emitted options (disk.world stdin) name program content)
    (proper : (Path.ofText name).NamesLast = true) :
    let after := disk.apply (emit options (disk.world stdin) name)
    after.look (Path.ofText (name ++ treeEnding)).normalize.text =
        .file program.toTree.form.indented ∧
      after.look (Path.ofText name).normalize.text = .file content ∧
      after.look traceFile = disk.look traceFile := by
  intro after
  have within : '/' ∉ treeEnding.toList := by decide
  have grown : 2 < treeEnding.length := by decide
  have found := emitted.found
  rw [Disk.look_world] at found
  obtain ⟨parts, directory, last, beside⟩ := Disk.exists_beside proper within grown found
  have target : treeFile name = (Path.ofText (name ++ treeEnding)).normalize.text := by
    rw [treeFile, beside.source, beside.target]
    simp [Path.extend, treeEnding]
  have written : after = disk.write (treeFile name) program.toTree.form.indented := by
    simp only [after, Disk.apply, emitted.writes, List.foldl_cons, List.foldl_nil]
  have free := emitted.free
  rw [target] at written free
  have open_ : disk.look (Path.ofText (name ++ treeEnding)).normalize.text ≠ .directory := by
    intro taken
    simp [obstacle?, Disk.world, taken] at free
  have fits : disk.look (Path.ofText (name ++ treeEnding)).normalize.text ≠ .nameTooLong := by
    intro long
    simp [obstacle?, Disk.world, long] at free
  obtain ⟨_, rfl, tree, source, others⟩ := beside.look_write (by decide) open_ fits
    program.toTree.form.indented
  rw [written]
  exact ⟨tree, source, others traceFile (by decide) (by decide) (by decide) (by decide)⟩

/-- The file is read as the tree that was written to it. -/
theorem executeTree_eq {world : World} {target : String}
    (emitted : Emitted options (disk.world stdin) name program content)
    (found : world.look (Path.ofText target).normalize.text =
      .file program.toTree.form.indented) :
    executeTree other world target = execute other world program.toTree := by
  have plain : Text.unifyNewlines program.toTree.form.indented.toList =
      program.toTree.form.indented.toList := by
    apply Text.unifyNewlines_eq_self
    rw [Json.indented, String.toList_ofList]
    exact Json.return_notMem_write _ _ _
  have read : readSubject world target = .ok program.toTree.form.indented := by
    rw [readSubject_of_file found, plain, String.ofList_toList]
  have json := Json.read_indented emitted.writable
    (Nat.le_trans (Json.nesting_le_depth program.toTree.form) emitted.fits)
  have tree : Tree.ofJson Tree.room program.toTree.form = .ok program.toTree :=
    program.ofJson_of_toJson (Tree.toJson_eq_ok_iff.2 ⟨emitted.fits, rfl⟩)
  simp only [executeTree, read, json, tree]

end Emitted

/-! ## Commands -/

theorem given?_of_namesLast {name : String} (proper : (Path.ofText name).NamesLast = true) :
    given? (some name) = some name := by
  have filled : name ≠ "" := by
    rintro rfl
    exact absurd proper (by decide)
  simpa [given?] using filled

/-- An ending does not make a name look like an option. -/
theorem head?_append_ending {name : String} (proper : (Path.ofText name).NamesLast = true)
    (plain : name.toList.head? ≠ some '-') (ending : String) :
    (name ++ ending).toList.head? ≠ some '-' := by
  have filled : name.toList ≠ [] := by
    intro empty
    rw [String.toList_eq_nil_iff.1 empty] at proper
    exact absurd proper (by decide)
  rw [String.toList_append, List.head?_append_of_ne_nil _ filled]
  exact plain

section Invoke

variable {name : String} {world : World}

theorem invoke_emit (plain : name.toList.head? ≠ some '-')
    (proper : (Path.ofText name).NamesLast = true) (call : Call) :
    invoke (call.args ["--emit-ast", name]) world =
      emit { call.options with emit := some name } world name := by
  simp only [invoke, call.parse_emit plain, perform, given?_of_namesLast proper]

theorem invoke_tree {target : String} (plain : target.toList.head? ≠ some '-')
    (proper : given? (some target) = some target) (call : Call) :
    invoke (call.args ["--ast", target]) world =
      executeTree { call.options with tree := some target } world target := by
  have unasked : given? call.options.emit = none := rfl
  simp only [invoke, call.parse_tree plain, perform, proper, unasked]

/-- A call with a source reads it and runs its program. -/
theorem invoke_program (plain : name.toList.head? ≠ some '-')
    (proper : (Path.ofText name).NamesLast = true) (call : Call) :
    invoke (call.args [name]) world =
      match readProgram { call.options with program := some name } world name with
      | .error outcome => outcome
      | .ok program => execute { call.options with program := some name } world program.toTree := by
  have unasked : given? call.options.emit = none := rfl
  have treeless : given? call.options.tree = none := rfl
  cases read : readProgram { call.options with program := some name } world name with
  | error outcome | ok program =>
    simp only [invoke, call.parse_program (classify_of_head plain), perform,
      given?_of_namesLast proper, unasked, treeless, read]

end Invoke

/-- Where the source is rejected, the command that runs it says so with the same words. -/
theorem emit_of_rejected {options other : Options} {world : World} {name : String}
    (frontEnd : options.contextual = other.contextual)
    (rejected : (emit options world name).ending = .status 1) :
    readProgram other world name = .error (emit options world name) := by
  have same : readProgram other world name = readProgram options world name := by
    simp only [readProgram, Options.frontEnd, frontEnd]
  unfold emit at rejected ⊢
  rw [same]
  cases read : readProgram options world name with
  | error outcome => rfl
  | ok program =>
    simp only [read] at rejected
    split at rejected
    case h_1 => cases rejected
    case h_2 =>
      split at rejected
      case h_1 => cases rejected
      case h_2 => split at rejected <;> cases rejected

/-- A program that is run from its tree does what it does when it is run from its source, if both
files are there. -/
theorem Emitted.invoke_tree_eq {options : Options} {disk after now : Disk}
    {stdin name content : String} {program : Program} {fromTree direct : Call}
    (emitted : Emitted options (disk.world stdin) name program content)
    (plain : name.toList.head? ≠ some '-') (proper : (Path.ofText name).NamesLast = true)
    (frontEnd : options.contextual = direct.contextual)
    (verbosity : fromTree.verbosity = direct.verbosity)
    (tree : after.look (Path.ofText (name ++ treeEnding)).normalize.text =
      .file program.toTree.form.indented)
    (source : now.look (Path.ofText name).normalize.text = .file content)
    (trace : after.look traceFile = now.look traceFile)
    (input : SameInput fromTree after direct now) :
    invoke (fromTree.args ["--ast", name ++ treeEnding]) (after.world stdin) =
      invoke (direct.args [name]) (now.world stdin) := by
  have target := head?_append_ending proper plain treeEnding
  have filled : given? (some (name ++ treeEnding)) = some (name ++ treeEnding) := by
    simp [given?, treeEnding]
  rw [← Disk.look_world after stdin] at tree trace
  rw [← Disk.look_world now stdin] at source trace
  have sameFrontEnd : options.contextual =
      ({ direct.options with program := some name } : Options).contextual := frontEnd
  rw [invoke_program plain proper, emitted.readProgram_eq source sameFrontEnd,
    invoke_tree target filled, emitted.executeTree_eq tree]
  have sameStdin : (after.world stdin).stdin = (now.world stdin).stdin := rfl
  exact execute_congr verbosity rfl rfl (answers_congr sameStdin (by exact input)) trace
    program.toTree

/-- A program that is run from the tree that a command has written does everything that it does when
it is run from its source, before or after the tree was written: with the same front end for reading
the source, the same tracing and the same answers, the outcomes are the same.  Where the command
that writes the tree reports a mistake instead, the run from the source is that report. -/
theorem invoke_emitted_tree (disk : Disk) (stdin : String) {name : String}
    (emitting fromTree direct : Call) (plain : name.toList.head? ≠ some '-')
    (proper : (Path.ofText name).NamesLast = true)
    (frontEnd : emitting.contextual = direct.contextual)
    (verbosity : fromTree.verbosity = direct.verbosity) :
    let emitted := invoke (emitting.args ["--emit-ast", name]) (disk.world stdin)
    let after := disk.apply emitted
    (emitted.ending = .status 0 → ∀ now, now = disk ∨ now = after →
      SameInput fromTree after direct now →
        invoke (fromTree.args ["--ast", name ++ ".ast.json"]) (after.world stdin) =
          invoke (direct.args [name]) (now.world stdin)) ∧
    (emitted.ending = .status 1 →
      invoke (direct.args [name]) (disk.world stdin) = emitted) := by
  rw [invoke_emit plain proper]
  intro emitted after
  have sameFrontEnd : ({ emitting.options with emit := some name } : Options).contextual =
      ({ direct.options with program := some name } : Options).contextual := frontEnd
  refine ⟨fun succeeded now when input => ?_, fun rejected => ?_⟩
  · obtain ⟨program, content, found⟩ := exists_emitted succeeded
    obtain ⟨tree, source, trace⟩ := found.look_after proper
    have before := found.found
    rw [Disk.look_world] at before
    rcases when with same | same
    · rw [same] at input ⊢
      exact found.invoke_tree_eq plain proper frontEnd verbosity tree before trace input
    · rw [same] at input ⊢
      exact found.invoke_tree_eq plain proper frontEnd verbosity tree source rfl input
  · rw [invoke_program plain proper, emit_of_rejected sameFrontEnd rejected]

/-- The contextual front end reads a source outside of the working directory that says a backslash;
its tree is written and run with the trace at level two, as the source is. -/
theorem invoke_emitted_backslash :
    let disk : Disk := { files := [(["tmp", "a.eng"], "say \"\\\"")], here := ["home"] }
    let emitting : Call := { before := [.contextual] }
    let fromTree : Call := { after := [.trace 1] }
    let direct : Call := { before := [.trace 0, .contextual], after := [.trace 0] }
    let after := disk.apply (invoke (emitting.args ["--emit-ast", "/tmp/a.eng"]) (disk.world ""))
    invoke (fromTree.args ["--ast", "/tmp/a.eng.ast.json"]) (after.world "") =
      invoke (direct.args ["/tmp/a.eng"]) (disk.world "") := by
  intro disk emitting fromTree direct after
  have plain : "/tmp/a.eng".toList.head? ≠ some '-' := by decide
  have proper : (Path.ofText "/tmp/a.eng").NamesLast = true := by decide
  have found : disk.look "/tmp/a.eng" = .file "say \"\\\"" := by decide
  have read : readProgram { emitting.options with emit := some "/tmp/a.eng" } (disk.world "")
      "/tmp/a.eng" = .ok ⟨[.say (.text "\\" 1) 1]⟩ := by
    have path : (Path.ofText "/tmp/a.eng").normalize.text = "/tmp/a.eng" := by decide
    have look : (disk.world "").look (Path.ofText "/tmp/a.eng").normalize.text =
        .file "say \"\\\"" := by
      rw [path, Disk.look_world, found]
    exact readProgram_of_parsed look (by cbv)
  have succeeded :
      (invoke (emitting.args ["--emit-ast", "/tmp/a.eng"]) (disk.world "")).ending = .status 0 := by
    have target : treeFile "/tmp/a.eng" = "/tmp/a.eng.ast.json" := by decide
    have missing : disk.look "/tmp/a.eng.ast.json" = .missing := by decide
    have free : obstacle? (disk.world "") (treeFile "/tmp/a.eng") = none := by
      rw [target, obstacle?, Disk.look_world, missing]
    have written : (Program.toTree ⟨[.say (.text "\\" 1) 1]⟩).toJson Tree.room =
        .ok (Program.toTree ⟨[.say (.text "\\" 1) 1]⟩).form := by rfl
    have writable : (Program.toTree ⟨[.say (.text "\\" 1) 1]⟩).form.isWritable = true := by cbv
    rw [invoke_emit plain proper]
    simp only [emit, read, written, free, writable, if_true]
  exact (invoke_emitted_tree disk "" emitting fromTree direct plain proper rfl rfl).1 succeeded disk
    (.inl rfl) rfl

end CommandLine

end Parlance
