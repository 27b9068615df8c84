import Mathlib
import Parlance.CommandLine.Options

/-!
# Calls

A call names what to work on, and options may stand before and after that: for tracing, for the
contextual front end, and for an input file.  Its arguments ask for what the options say together
(`Call.options`) and for the work on the subject, wherever the options stand (`Call.parse_emit`,
`Call.parse_tree`, `Call.parse_program`).

Arguments are read in two passes.  `LooksLike` says of some of them what the first pass makes of
them whatever follows, and the lemmas about `takeAll` say what the second pass takes from that.
-/

namespace Parlance.CommandLine

/-- An option beside what a call works on.  A tracing option has one `v` or more. -/
inductive Extra
  | trace (more : Nat)
  | contextual
  | input (name : String) (plain : classify name = .ok (.plain name))

namespace Extra

/-- The arguments that give the option. -/
def args : Extra → List String
  | trace more => [String.ofList ('-' :: 'v' :: List.replicate more 'v')]
  | contextual => ["--lark"]
  | input name _ => ["--input", name]

/-- How often the option asks for more tracing. -/
def traces : Extra → Nat
  | trace more => more + 1
  | _ => 0

/-- The option asks for the contextual front end. -/
def isContextual : Extra → Bool
  | contextual => true
  | _ => false

/-- The input file that the option names. -/
def input? : Extra → Option String
  | input name _ => some name
  | _ => none

/-- What the option changes. -/
def apply (options : Options) : Extra → Options
  | trace more => { options with verbosity := options.verbosity + (more + 1) }
  | contextual => { options with contextual := true }
  | input name _ => { options with input := some name }

/-- What the arguments of the option look like. -/
def pieces : Extra → List Piece
  | trace 0 => [.option .verbose "-v" none]
  | trace (more + 1) =>
    [.option .verbose "-v" (some (String.ofList (List.replicate (more + 1) 'v')))]
  | contextual => [.option .contextual "--lark" none]
  | input name _ => [.option .input "--input" none, .plain name]

end Extra

/-- The options beside what a call works on, by where they stand. -/
structure Call where
  before : List Extra := []
  after : List Extra := []

namespace Call

/-- The arguments of a call that works on a subject. -/
def args (call : Call) (subject : List String) : List String :=
  call.before.flatMap Extra.args ++ subject ++ call.after.flatMap Extra.args

/-- How many `v` there are. -/
def verbosity (call : Call) : Nat :=
  ((call.before ++ call.after).map Extra.traces).sum

/-- The contextual front end is asked for. -/
def contextual (call : Call) : Bool :=
  (call.before ++ call.after).any Extra.isContextual

/-- The input file, which the last option for it names. -/
def input (call : Call) : Option String :=
  ((call.before ++ call.after).filterMap Extra.input?).getLast?

/-- What a call asks for apart from its subject. -/
def options (call : Call) : Options :=
  { verbosity := call.verbosity, contextual := call.contextual, input := call.input }

end Call

/-! ## What arguments look like -/

/-- The arguments look like the pieces, whatever comes after them. -/
def LooksLike (args : List String) (pieces : List Piece) : Prop :=
  ∀ rest, classifyAll (args ++ rest) = (classifyAll rest).map (pieces ++ ·)

namespace LooksLike

theorem nil : LooksLike [] [] := by
  intro rest
  rw [List.nil_append]
  cases classifyAll rest <;> rfl

/-- Argument lists are looked at one argument after the other, so two of them can be joined. -/
theorem append {args more : List String} {pieces others : List Piece}
    (first : LooksLike args pieces) (second : LooksLike more others) :
    LooksLike (args ++ more) (pieces ++ others) := by
  intro rest
  rw [List.append_assoc, first, second]
  cases classifyAll rest with
  | error error => rfl
  | ok found => simp [Except.map]

theorem cons {arg : String} {piece : Piece} {args : List String} {pieces : List Piece}
    (inner : arg ≠ "--") (look : classify arg = .ok piece) (later : LooksLike args pieces) :
    LooksLike (arg :: args) (piece :: pieces) := by
  intro rest
  rw [List.cons_append, classifyAll, look, later]
  · cases classifyAll rest <;> rfl
  · exact inner

end LooksLike

theorem ne_separator_of_plain {arg : String} (plain : classify arg = .ok (.plain arg)) :
    arg ≠ "--" := by
  rintro rfl
  have unclear : classify "--" = .error (.ambiguous "--" _) := rfl
  cases plain.symm.trans unclear

theorem classify_of_head {arg : String} (plain : arg.toList.head? ≠ some '-') :
    classify arg = .ok (.plain arg) := by
  rw [classify]
  split
  case h_1 rest shape => simp [shape] at plain
  case h_2 => rfl

/-- A run of two or more `v` is one option with the others attached. -/
theorem classify_trace (more : Nat) :
    classify (String.ofList ('-' :: 'v' :: List.replicate (more + 1) 'v')) =
      .ok (.option .verbose "-v" (some (String.ofList (List.replicate (more + 1) 'v')))) := by
  have whole : splitEquals (String.ofList ('-' :: 'v' :: List.replicate (more + 1) 'v')) =
      (String.ofList ('-' :: 'v' :: List.replicate (more + 1) 'v'), none) := by
    rw [splitEquals, String.toList_ofList]
    simp
  have unknown : flagOf? (String.ofList ('-' :: 'v' :: List.replicate (more + 1) 'v')) = none := by
    rw [flagOf?, List.find?_eq_none.2, Option.map_none]
    intro spelling mem
    simp [spellings] at mem
    rcases mem with rfl | rfl | rfl | rfl | rfl | rfl | rfl | rfl <;>
      simp [← String.toList_inj, List.replicate_succ]
  have only : candidates (String.ofList ('-' :: 'v' :: List.replicate (more + 1) 'v')) =
      [(.verbose, "-v", some (String.ofList (List.replicate (more + 1) 'v')))] := by
    simp [candidates, spellings]
  rw [classify, String.toList_ofList]
  simp only [unknown, whole, only]

/-- An extra option is looked at as the pieces that it stands for. -/
theorem Extra.looksLike (extra : Extra) : LooksLike extra.args extra.pieces := by
  cases extra with
  | trace more =>
    cases more with
    | zero => exact .cons (by decide) rfl .nil
    | succ more =>
      refine .cons ?_ (classify_trace more) .nil
      intro same
      have second := congrArg String.toList same
      simp at second
  | contextual => exact .cons (by decide) rfl .nil
  | input name plain =>
    exact .cons (by decide) rfl (.cons (ne_separator_of_plain plain) plain .nil)

theorem looksLike_flatMap (extras : List Extra) :
    LooksLike (extras.flatMap Extra.args) (extras.flatMap Extra.pieces) := by
  induction extras with
  | nil => exact .nil
  | cons extra extras ih => exact extra.looksLike.append ih

/-! ## What pieces are taken for -/

/-- A cluster of `v` counts as so many requests for a longer trace. -/
theorem markShort_replicate (p : Progress) (more : Nat) :
    p.markShort .verbose (List.replicate more 'v') =
      .ok { p with options := Extra.apply p.options (.trace more) } := by
  induction more generalizing p with
  | zero => rfl
  | succ more ih =>
    have next : flagOf? (String.ofList ['-', 'v']) = some .verbose := rfl
    rw [List.replicate_succ, Progress.markShort, next]
    simp only [ih]
    simp [Progress.mark, Extra.apply, Nat.add_right_comm _ 1]
    omega

/-- An option without a value is marked, and the rest is taken from there. -/
theorem takeAll_mark {p q : Progress} {flag : Flag} {spelling : String} {attached : Option String}
    (alone : flag.takesValue = false) (taken : p.markWith flag spelling attached = .ok q)
    (unasked : q.help = false) (rest : List Piece) :
    takeAll p (.option flag spelling attached :: rest) = takeAll q rest := by
  rw [takeAll.eq_def]
  simp only [alone, taken, Bool.false_eq_true, if_false]
  change (if q.help then _ else _) = _
  rw [unasked, if_neg Bool.false_ne_true]

theorem takeAll_set {p q : Progress} {flag : Flag} {value : String}
    (valued : flag.takesValue = true) (taken : p.set flag value = .ok q) (spelling : String)
    (rest : List Piece) :
    takeAll p (.option flag spelling none :: .plain value :: rest) = takeAll q rest := by
  rw [takeAll.eq_def]
  simp only [valued, taken, if_true]
  rfl

theorem takeAll_plain {p : Progress} {rest : List Piece} (free : p.programTaken = false)
    (inner : ∀ more, rest ≠ .separator :: more) (name : String) :
    takeAll p (.plain name :: rest) = takeAll (p.withProgram (some name)) rest := by
  rw [takeAll.eq_def]
  simp only [free, Bool.false_eq_true, if_false]

/-- Taking the pieces of an extra option changes the options as the extra does. -/
theorem takeAll_extra {p : Progress} (unasked : p.help = false) (extra : Extra)
    (rest : List Piece) :
    takeAll p (extra.pieces ++ rest) =
      takeAll { p with options := extra.apply p.options } rest := by
  cases extra with
  | trace more =>
    cases more with
    | zero =>
      apply takeAll_mark
      · rfl
      · rfl
      · exact unasked
    | succ more =>
      apply takeAll_mark
      · rfl
      · rw [Progress.markWith, if_pos (by simp), String.toList_ofList]
        exact markShort_replicate p (more + 1)
      · exact unasked
  | contextual =>
    apply takeAll_mark
    · rfl
    · rfl
    · exact unasked
  | input name plain =>
    refine takeAll_set rfl ?_ _ _
    simp [Progress.set, ne_separator_of_plain plain, Extra.apply]

theorem extras_ne_separator (extras : List Extra) (more : List Piece) :
    extras.flatMap Extra.pieces ≠ .separator :: more := by
  intro same
  cases extras with
  | nil => cases same
  | cons extra extras =>
    fun_cases Extra.pieces extra <;> cases same

/-- Extras are taken one after the other. -/
theorem takeAll_extras {p : Progress} (unasked : p.help = false) (extras : List Extra)
    (rest : List Piece) :
    takeAll p (extras.flatMap Extra.pieces ++ rest) =
      takeAll { p with options := extras.foldl Extra.apply p.options } rest := by
  induction extras generalizing p with
  | nil => rfl
  | cons extra extras ih =>
    rw [List.flatMap_cons, List.append_assoc, takeAll_extra unasked, List.foldl_cons]
    exact ih unasked

/-- What extras do to options, said at once: they add up their requests for a longer trace, and the
last input file, time limit and front end count. -/
theorem foldl_apply (extras : List Extra) (options : Options) :
    extras.foldl Extra.apply options =
      { options with
        verbosity := options.verbosity + (extras.map Extra.traces).sum
        contextual := options.contextual || extras.any Extra.isContextual
        input := (extras.filterMap Extra.input?).getLast?.or options.input } := by
  induction extras generalizing options with
  | nil => simp
  | cons extra extras ih =>
    rw [List.foldl_cons, ih]
    cases extra with
    | trace more =>
      simp [Extra.apply, Extra.traces, Extra.isContextual, Extra.input?, Nat.add_assoc]
    | contextual => simp [Extra.apply, Extra.traces, Extra.isContextual, Extra.input?]
    | input name plain =>
      simp only [Extra.apply, List.map_cons, Extra.traces, List.sum_cons, Nat.zero_add,
        List.any_cons, Extra.isContextual, Bool.false_or, List.filterMap_cons, Extra.input?]
      cases extras.filterMap Extra.input? with
      | nil => rfl
      | cons last others => simp [List.getLast?_cons]

namespace Call

/-- A call is parsed into its extras and its subject, wherever among the extras the subject
stands. -/
theorem parse_args {subject : List String} {pieces : List Piece} {p : Progress} (call : Call)
    (looks : LooksLike subject pieces)
    (takes : takeAll { options := call.before.foldl Extra.apply {} }
      (pieces ++ call.after.flatMap Extra.pieces) = takeAll p (call.after.flatMap Extra.pieces))
    (unasked : p.help = false) (wanted : p.extras = []) :
    Options.parse (call.args subject) = .ok (some (call.after.foldl Extra.apply p.options)) := by
  have looked := ((looksLike_flatMap call.before).append looks).append
    (looksLike_flatMap call.after) []
  have taken := takeAll_extras unasked call.after []
  rw [takeAll] at taken
  simp only [List.append_nil] at looked taken
  have all : takeAll {} (call.before.flatMap Extra.pieces ++ pieces ++
      call.after.flatMap Extra.pieces) =
        .ok { p with options := call.after.foldl Extra.apply p.options } := by
    rw [List.append_assoc, takeAll_extras rfl, takes, taken]
  rw [Options.parse, args, looked]
  simp only [classifyAll, Except.map, Except.bind, bind, List.append_nil, all, unasked, wanted]
  rfl

theorem foldl_after (call : Call) (emit tree program : Option String) :
    call.after.foldl Extra.apply
        { call.before.foldl Extra.apply {} with emit := emit, tree := tree, program := program } =
      { call.options with emit := emit, tree := tree, program := program } := by
  simp [foldl_apply, options, verbosity, contextual, input, List.getLast?_append]

/-- A call with `--emit-ast` is parsed into its options and the file to be emitted. -/
theorem parse_emit (call : Call) {name : String} (plain : name.toList.head? ≠ some '-') :
    Options.parse (call.args ["--emit-ast", name]) =
      .ok (some { call.options with emit := some name }) := by
  have look := classify_of_head plain
  have inner := ne_separator_of_plain look
  have looks : LooksLike ["--emit-ast", name] [.option .emit "--emit-ast" none, .plain name] :=
    .cons (by decide) rfl (.cons inner look .nil)
  have taken : Progress.set { options := call.before.foldl Extra.apply {} } .emit name =
      .ok { options := { call.before.foldl Extra.apply {} with
        emit := some name, tree := none, program := none } } := by
    simp [Progress.set, inner, foldl_apply]
  rw [call.parse_args looks (takeAll_set rfl taken "--emit-ast" _) rfl rfl, foldl_after]
  rfl

/-- A call with `--ast` is parsed into its options and the file of the tree. -/
theorem parse_tree (call : Call) {name : String} (plain : name.toList.head? ≠ some '-') :
    Options.parse (call.args ["--ast", name]) =
      .ok (some { call.options with tree := some name }) := by
  have look := classify_of_head plain
  have inner := ne_separator_of_plain look
  have looks : LooksLike ["--ast", name] [.option .tree "--ast" none, .plain name] :=
    .cons (by decide) rfl (.cons inner look .nil)
  have taken : Progress.set { options := call.before.foldl Extra.apply {} } .tree name =
      .ok { options := { call.before.foldl Extra.apply {} with
        emit := none, tree := some name, program := none } } := by
    simp [Progress.set, inner, foldl_apply]
  rw [call.parse_args looks (takeAll_set rfl taken "--ast" _) rfl rfl, foldl_after]
  rfl

/-- A call with a plain argument is parsed into its options and the program. -/
theorem parse_program (call : Call) {name : String} (look : classify name = .ok (.plain name)) :
    Options.parse (call.args [name]) = .ok (some { call.options with program := some name }) := by
  have looks : LooksLike [name] [.plain name] := .cons (ne_separator_of_plain look) look .nil
  have taken : takeAll { options := call.before.foldl Extra.apply {} }
      (.plain name :: call.after.flatMap Extra.pieces) =
        takeAll { options := { call.before.foldl Extra.apply {} with
          emit := none, tree := none, program := some name }, programTaken := true }
          (call.after.flatMap Extra.pieces) := by
    rw [takeAll_plain rfl (extras_ne_separator call.after), Progress.withProgram, foldl_apply]
  rw [call.parse_args looks taken rfl rfl, foldl_after]
  rfl

end Call

end Parlance.CommandLine
