import Mathlib
import Parlance.Proofs.Emission

/-!
# Answers from a file

A call may name a file to answer from instead of standard input.  Both are read with plain line
ends, but they are not cut in the same way: a file is cut at every line boundary of Unicode,
standard input at line feeds.  So a file stands for a standard input that has line feeds in the
place of all line boundaries (`Text.lineFeeds`).  For a standard input of the same text it stands
only where the text has no other boundaries than line feeds and carriage returns.
-/

namespace Parlance

/-! ## Lines -/

namespace Text

/-- A text whose lines all end in line feeds, whatever they ended in. -/
def lineFeeds (text : String) : String :=
  String.ofList ((unifyNewlines text.toList).map fun c => if isLineBreak c then '\n' else c)

/-- To cut at every boundary is to cut at line feeds once all boundaries are. -/
theorem splitLinesFrom_eq_newlineLinesFrom (current : List Char) {cs : List Char}
    (unified : '\r' ∉ cs) :
    splitLinesFrom current cs =
      newlineLinesFrom current (cs.map fun c => if isLineBreak c then '\n' else c) := by
  fun_induction splitLinesFrom current cs with
  | case1 current empty => rw [List.map_nil, newlineLinesFrom, if_pos empty]
  | case2 current filled => rw [List.map_nil, newlineLinesFrom, if_neg filled]
  | case3 current cs ih => simp at unified
  | case4 current c cs _ breaks ih =>
    rw [ih (List.not_mem_of_not_mem_cons unified), List.map_cons, if_pos breaks, newlineLinesFrom]
  | case5 current c cs _ inner ih =>
    have other : c ≠ '\n' := by
      rintro rfl
      exact inner rfl
    rw [ih (List.not_mem_of_not_mem_cons unified), List.map_cons, if_neg inner, newlineLinesFrom]
    exact other

/-- A text with line feeds only has plain line ends already. -/
theorem unifyNewlines_lineFeeds (text : String) :
    unifyNewlines (lineFeeds text).toList = (lineFeeds text).toList := by
  apply unifyNewlines_eq_self
  rw [lineFeeds, String.toList_ofList]
  intro member
  obtain ⟨c, _, same⟩ := List.mem_map.1 member
  split at same
  · cases same
  · next inner =>
    subst same
    exact inner rfl

theorem splitLines_unified (text : String) :
    splitLines (String.ofList (unifyNewlines text.toList)) = newlineLines (lineFeeds text) := by
  rw [splitLines, newlineLines, lineFeeds, String.toList_ofList, String.toList_ofList,
    splitLinesFrom_eq_newlineLinesFrom [] (unifyNewlines_noReturn _)]

/-- A character of the text with plain line ends is a line feed or was in the text before. -/
theorem mem_of_mem_unifyNewlines {c : Char} {cs : List Char} (member : c ∈ unifyNewlines cs) :
    c = '\n' ∨ c ∈ cs := by
  fun_induction unifyNewlines cs with
  | case1 => cases member
  | case2 cs ih | case3 cs _ ih | case4 d cs _ _ ih =>
    rcases List.mem_cons.1 member with same | later
    · simp [same]
    · rcases ih later with same | inside
      · exact .inl same
      · simp [inside]

/-- Without other boundaries there is nothing to put line feeds for. -/
theorem lineFeeds_of_plain {text : String}
    (plain : ∀ c ∈ text.toList, isLineBreak c = true → c = '\n' ∨ c = '\r') :
    lineFeeds text = String.ofList (unifyNewlines text.toList) := by
  have kept : ∀ c ∈ unifyNewlines text.toList, (if isLineBreak c then '\n' else c) = id c := by
    intro c member
    split
    · next breaks =>
      rcases mem_of_mem_unifyNewlines member with rfl | inside
      · rfl
      · rcases plain c inside breaks with rfl | rfl
        · rfl
        · exact absurd member (unifyNewlines_noReturn _)
    · rfl
  rw [lineFeeds, List.map_congr_left kept, List.map_id]

end Text

/-! ## Calls -/

namespace CommandLine

/-- No file has a name without characters. -/
theorem ne_empty_of_look {disk : Disk} {name text : String} (found : disk.look name = .file text) :
    name ≠ "" := by
  rintro rfl
  have walked : disk.look "" = (disk.walk disk.here [""]).1 := rfl
  rw [walked] at found
  rcases disk.entry_here with inside | ⟨content, file⟩
  · rw [Disk.walk_directory_cons inside, if_pos (by decide), Disk.walk_nil, inside] at found
    cases found
  · rw [Disk.walk, file] at found
    cases found

theorem answers_of_file {options : Options} {world : World} {file text : String}
    (named : options.input = some file) (filled : file ≠ "")
    (found : world.look file = .file text) :
    options.answers world = .ok (.lines ((Text.newlineLines (Text.lineFeeds text)).map some)) := by
  have given : given? options.input = some file := by
    simpa [given?, named] using filled
  simp only [answers_of_given, given, readText, found, Except.map, Input.ofText,
    Text.splitLines_unified]

theorem answers_of_stdin {options : Options} (world : World) (unnamed : options.input = none) :
    options.answers world = .ok (.lines ((Text.newlineLines
      (String.ofList (Text.unifyNewlines world.stdin.toList))).map some)) := by
  simp only [Options.answers, unnamed, Options.answers.standard]

/-- A command that works on the source of a program depends on where its answers come from through
the answers only. -/
theorem perform_congr_answers {options other : Options} {world otherWorld : World}
    (untimed : options.timeout = none) (unasked : options.emit = none)
    (treeless : options.tree = none) (same : other = { options with input := other.input })
    (look : otherWorld.look = world.look)
    (answers : other.answers otherWorld = options.answers world) :
    perform other otherWorld = perform options world := by
  have read (name : String) :
      readProgram other otherWorld name = readProgram options world name := by
    rw [same]
    simp only [readProgram, readSubject, readText, Options.frontEnd, look]
  have run (program : Tree) : execute other otherWorld program = execute options world program := by
    refine execute_congr ?_ ?_ untimed answers (by rw [look]) program
    · rw [same]
    · rw [same]
      exact untimed
  have subject : other.emit = none ∧ other.tree = none ∧ other.program = options.program := by
    rw [same]
    exact ⟨unasked, treeless, rfl⟩
  have absent : given? none = none := rfl
  unfold perform
  rw [subject.1, subject.2.1, subject.2.2, unasked, treeless, absent]
  cases given? options.program with
  | none => rfl
  | some name => simp only [read, run]

/-- The call with an input file besides. -/
def Call.fedFrom (call : Call) (file : String) (plain : classify file = .ok (.plain file)) : Call :=
  { call with before := .input file plain :: call.before }

section Calls

variable {disk : Disk} {file name text : String} {call : Call}

theorem input_fedFrom (plain : classify file = .ok (.plain file)) (unfed : call.input = none) :
    (call.fedFrom file plain).input = some file := by
  have others := List.getLast?_eq_none_iff.1 unfed
  simp only [Call.input, Call.fedFrom, List.cons_append, List.filterMap_cons, Extra.input?, others]
  rfl

theorem options_fedFrom (plain : classify file = .ok (.plain file)) :
    (call.fedFrom file plain).options =
      { call.options with input := (call.fedFrom file plain).input } := by
  simp [Call.options, Call.verbosity, Call.contextual, Call.fedFrom, Extra.traces,
    Extra.isContextual]

/-- A call with an input file does what it does without, if standard input has the same lines. -/
theorem invoke_input_of_lines (plain : classify file = .ok (.plain file))
    (subject : classify name = .ok (.plain name)) (found : disk.look file = .file text)
    (unfed : call.input = none) (stdin : String) {other : String}
    (lines : String.ofList (Text.unifyNewlines other.toList) = Text.lineFeeds text) :
    invoke ("--input" :: file :: call.args [name]) (disk.world stdin) =
      invoke (call.args [name]) (disk.world other) := by
  have fed : "--input" :: file :: call.args [name] = (call.fedFrom file plain).args [name] := rfl
  rw [fed]
  simp only [invoke, Call.parse_program _ subject]
  refine perform_congr_answers rfl rfl rfl ?_ rfl ?_
  · rw [options_fedFrom]
  · have filled := ne_empty_of_look found
    rw [answers_of_file (input_fedFrom plain unfed) filled found, answers_of_stdin _ unfed]
    simp only [Disk.world, lines]

/-- A call that answers from a file does what it does with a standard input that holds the text of
the file with line feeds for all its line boundaries; and with one that holds the text itself, if
this has no boundaries but line feeds and carriage returns. -/
theorem invoke_input_file (disk : Disk) (stdin : String) (call : Call)
    (plain : classify file = .ok (.plain file)) (subject : classify name = .ok (.plain name))
    (found : disk.look file = .file text) (unfed : call.input = none) :
    let answered := invoke ("--input" :: file :: call.args [name]) (disk.world stdin)
    answered = invoke (call.args [name]) (disk.world (Text.lineFeeds text)) ∧
      ((∀ c ∈ text.toList, Text.isLineBreak c = true → c = '\n' ∨ c = '\r') →
        answered = invoke (call.args [name]) (disk.world text)) := by
  intro answered
  refine ⟨?_, fun ordinary => ?_⟩
  · refine invoke_input_of_lines plain subject found unfed stdin ?_
    rw [Text.unifyNewlines_lineFeeds, String.ofList_toList]
  · refine invoke_input_of_lines plain subject found unfed stdin ?_
    rw [Text.lineFeeds_of_plain ordinary]

end Calls

/-- A line with a vertical tab in it is one answer on standard input and two in a file. -/
theorem invoke_input_file_vertical_tab :
    let text := "x\x0by"
    let disk : Disk := { files := [(["a"], text), (["p"], "ask n\nsay n")] }
    disk.look "a" = .file text ∧
      (invoke ["--input", "a", "p"] (disk.world text)).stdout = "x\n" ∧
      (invoke ["p"] (disk.world text)).stdout = "x\x0by\n" := by
  intro text disk
  let options : Options := { Call.options {} with program := some "p" }
  let program : Program := ⟨[.ask "n" 1, .say (.name "n" 2) 2]⟩
  have found : disk.look "a" = .file text := by decide
  have direct (stdin : String) :
      invoke ["p"] (disk.world stdin) = execute options (disk.world stdin) program.toTree := by
    have read : readProgram options (disk.world stdin) "p" = .ok program := by cbv
    have args : ["p"] = Call.args {} ["p"] := rfl
    rw [args, invoke_program (by decide) (by decide), read]
  have lines : String.ofList (Text.unifyNewlines "x\ny".toList) = Text.lineFeeds text := by decide
  have fromFile : invoke ["--input", "a", "p"] (disk.world text) =
      invoke ["p"] (disk.world "x\ny") :=
    invoke_input_of_lines (classify_of_head (by decide)) (classify_of_head (by decide)) found
      (show Call.input {} = none from rfl) text lines
  refine ⟨found, ?_, ?_⟩
  · rw [fromFile, direct]
    cbv
  · rw [direct]
    cbv

/-- Two answers, one from a line that ends in a carriage return and one from a line without an
end.  The file with them lies outside of the working directory. -/
theorem invoke_input_file_two_answers :
    let text := "x\ry"
    let disk : Disk :=
      { files := [(["tmp", "a"], text), (["home", "p"], "ask n\nask m")], here := ["home"] }
    invoke ["--input", "/tmp/a", "p"] (disk.world "") = invoke ["p"] (disk.world text) := by
  intro text disk
  have found : disk.look "/tmp/a" = .file text := by decide
  have ordinary : ∀ c ∈ text.toList, Text.isLineBreak c = true → c = '\n' ∨ c = '\r' := by
    have shape : text.toList = ['x', '\r', 'y'] := by decide
    simp [shape, Text.isLineBreak]
  exact (invoke_input_file disk "" {} (classify_of_head (by decide)) (classify_of_head (by decide))
    found rfl).2 ordinary

end CommandLine

end Parlance
