import Mathlib
import Parlance.Proofs.Covering
import Parlance.Proofs.StatementForesight

/-!
# The first impossible word

The descent parser reports the first word that no program can have there.  What stands before it
begins some program, and nothing that goes on with it is one.

Programs are those of the grammar, however deep they are nested, and they are told apart by their
words alone: a source can be laid out in many ways.
-/

namespace Parlance.Descent

/-- The words of a source that is a program, with the one that stands for its end. -/
def ProgramWords (ws : List Word) : Prop :=
  ∃ source scan p, Scan.ofSource source = .ok scan ∧ Program.DerivedFrom p scan.tokens ∧
    ws = scan.toList.map Token.word

theorem words_toList (scan : Scan) :
    scan.toList.map Token.word = scan.tokens.map Token.word ++ [.finish] := by
  simp [Scan.toList]

/-- Well-formed words can be spelled out, with a blank before each of them. -/
theorem exists_ofSource {ws : List Word} (formed : ∀ w ∈ ws, w.WellFormed) :
    ∃ source scan, Scan.ofSource source = .ok scan ∧ scan.tokens.map Token.word = ws := by
  have blank : Gap [' '] := .blank (by decide) .nothing
  have covers : Covers [] (ws.map fun w => ⟨[' '], w⟩) := by
    refine covers_of_separated ?_ ?_ ?_ .nothing
    · simpa using formed
    · simpa using fun _ _ => blank
    · intro piece listed
      obtain ⟨w, _, rfl⟩ := List.mem_map.1 (List.mem_of_mem_tail listed)
      simp
  refine ⟨String.ofList (spellOut (ws.map fun w => ⟨[' '], w⟩)), _,
    Scan.ofSource_of_covers (by simp) covers (.gap .nothing), ?_⟩
  simp [words_tokensAfter, Function.comp_def]

/-- Tokens of a program have the words of one. -/
theorem programWords_of_derives {ts : List Token} {ss : List Stmt}
    (formed : ∀ t ∈ ts, t.word.WellFormed) (derived : Derives ts (.body ss)) :
    ProgramWords (ts.map Token.word ++ [.finish]) := by
  have spelled : ∀ w ∈ ts.map Token.word, w.WellFormed := by simpa using formed
  obtain ⟨source, scan, scanned, words⟩ := exists_ofSource spelled
  have program : Program.DerivedFrom ⟨ss⟩ ts := derived
  obtain ⟨p, accepted⟩ :=
    program_of_sameWords (program_of_derivedFrom program (Nat.lt_succ_self _)) words.symm
  exact ⟨source, scan, p, scanned, derivedFrom_of_program accepted, by rw [words_toList, words]⟩

/-- The word that comes next, at the end the one that stands for it. -/
def nextWord (ts : List Token) : Word :=
  (ts.head?.map Token.word).getD .finish

/-- Sources with the same next word have tokens with the same next word. -/
theorem sameNext_of_nextWord {ts us : List Token} (formed : ∀ t ∈ ts, t.word.WellFormed)
    (formed' : ∀ u ∈ us, u.word.WellFormed) (same : nextWord ts = nextWord us) :
    SameNext ts us := by
  cases ts with
  | nil =>
    cases us with
    | nil => rfl
    | cons u us =>
      have ended : u.word = .finish := same.symm
      have := formed' u (.head _)
      rw [ended] at this
      exact this.elim
  | cons t ts =>
    cases us with
    | nil =>
      have ended : t.word = .finish := same
      have := formed t (.head _)
      rw [ended] at this
      exact this.elim
    | cons u us => exact congrArg some same

/-- Tokens that begin with the given words, and the end after them. -/
theorem exists_sameWords_of_prefix {used us : List Token} {w : Word}
    (begins : used.map Token.word ++ [w] <+: us.map Token.word ++ [.finish]) :
    ∃ used' left', us = used' ++ left' ∧ SameWords used used' ∧ nextWord left' = w := by
  have few : used.length ≤ us.length := by simpa using begins.length_le
  obtain ⟨rest, whole⟩ := begins
  have parts : used.map Token.word ++ w :: rest = (us.take used.length).map Token.word ++
      ((us.drop used.length).map Token.word ++ [.finish]) := by
    rw [← List.append_assoc ((us.take _).map _), ← List.map_append, List.take_append_drop, ← whole]
    simp
  obtain ⟨words, next⟩ := List.append_inj parts (by simp [few])
  refine ⟨us.take used.length, us.drop used.length, (List.take_append_drop _ _).symm, words, ?_⟩
  cases left : us.drop used.length with
  | nil =>
    rw [left] at next
    exact (List.cons.inj next).1.symm
  | cons t left' =>
    rw [left] at next
    exact (List.cons.inj next).1.symm

/-- The report of a refusal is about the word that comes next. -/
theorem report_eq {r : Refusal} {scan : Scan} {used left : List Token}
    (split : scan.tokens = used ++ left) (found : r.found = left.head?) :
    ∃ t, scan.toList[used.length]? = some t ∧ t.word = nextWord left ∧
      (r.report scan.finish).line = t.line ∧ (r.report scan.finish).lexeme = t.word.value := by
  have whole : scan.toList =
      used ++ (left ++ [⟨.finish, scan.finish.line, scan.finish.column⟩]) := by
    rw [Scan.toList, split, List.append_assoc]
  rw [whole, List.getElem?_append_right (Nat.le_refl _), Nat.sub_self]
  unfold Refusal.report
  rw [found]
  cases left with
  | nil => exact ⟨_, rfl, rfl, rfl, rfl⟩
  | cons t left => exact ⟨t, rfl, rfl, rfl, rfl⟩

theorem report_complaint (finish : Position) (r : Refusal) :
    (r.report finish).complaint = r.complaint := by
  unfold Refusal.report
  split <;> rfl

/-- A grammatical mistake reports the refusal of the program's tokens. -/
theorem parseWithin_eq_error {room : Nat} {source : String} {e : SyntaxError}
    (refused : parseWithin room source = .error (.grammatical e)) :
    ∃ scan r, Scan.ofSource source = .ok scan ∧ program room scan.tokens = .error r ∧
      e = r.report scan.finish := by
  unfold parseWithin at refused
  split at refused
  · cases refused
  · next scan scanned =>
    split at refused
    · cases refused
    · next r stopped =>
      cases refused
      exact ⟨scan, r, scanned, stopped, rfl⟩

/-- No program begins with the words up to a refused one. -/
theorem not_programWords_of_refusal {room : Nat} {used left : List Token} {complaint : Complaint}
    (formed : ∀ t ∈ left, t.word.WellFormed) (shallow : complaint ≠ .tooDeep)
    (refuses : ∀ used' left', SameWords used used' → SameNext left left' →
      program room (used' ++ left') = refuse left' complaint) {ws : List Word}
    (program : ProgramWords ws) : ¬ used.map Token.word ++ [nextWord left] <+: ws := by
  intro begins
  obtain ⟨source, scan, p, scanned, derived, rfl⟩ := program
  rw [words_toList] at begins
  obtain ⟨used', left', split, words, next⟩ := exists_sameWords_of_prefix begins
  have formed' : ∀ t ∈ left', t.word.WellFormed := fun t listed =>
    Scan.wellFormed_of_mem scanned t (split ▸ List.mem_append_right used' listed)
  have refused := refuses used' left' words (sameNext_of_nextWord formed formed' next.symm)
  rw [← split] at refused
  rcases settles_program derived with accepted | ⟨_, found, deep⟩
  · exact refuse_ne_ok (refused.symm.trans accepted)
  · exact shallow (congrArg Refusal.complaint (Except.error.inj (refused.symm.trans deep)))

/-- A source that is refused for its grammar, in whatever room, is refused at its first impossible
word.  The words before it begin a program, and no program begins with them and this one; at the end
of the source its words are no program. -/
theorem parse_refuses_first_impossible {room : Nat} {source : String} {e : SyntaxError}
    (refused : parseWithin room source = .error (.grammatical e))
    (shallow : e.complaint ≠ .tooDeep) :
    ∃ scan k t, Scan.ofSource source = .ok scan ∧ scan.toList[k]? = some t ∧ e.line = t.line ∧
      e.lexeme = t.word.value ∧
      (∃ ws, ProgramWords ws ∧ (scan.toList.take k).map Token.word <+: ws) ∧
      (∀ ws, ProgramWords ws → ¬ (scan.toList.take (k + 1)).map Token.word <+: ws) ∧
      (k = scan.tokens.length → ¬ ProgramWords (scan.toList.map Token.word)) := by
  obtain ⟨scan, r, scanned, stopped, rfl⟩ := parseWithin_eq_error refused
  rw [report_complaint] at shallow
  obtain ⟨used, left, split, found, ⟨more, formed, ss, derived⟩, refuses⟩ :=
    program_refusal stopped shallow
  obtain ⟨t, here, next, line, lexeme⟩ := report_eq split found
  have tokens : ∀ t ∈ used ++ left, t.word.WellFormed := split ▸ Scan.wellFormed_of_mem scanned
  obtain ⟨usedFormed, leftFormed⟩ := List.forall_mem_append.1 tokens
  have before : scan.toList.take used.length = used := by
    rw [Scan.toList, split, List.append_assoc, List.take_left]
  have impossible : ∀ ws, ProgramWords ws →
      ¬ (scan.toList.take (used.length + 1)).map Token.word <+: ws := by
    intro ws program
    rw [List.take_add_one, before, here, List.map_append]
    simpa [next] using not_programWords_of_refusal leftFormed shallow refuses program
  refine ⟨scan, used.length, t, scanned, here, line, lexeme, ?_, impossible, ?_⟩
  · have program := programWords_of_derives (List.forall_mem_append.2 ⟨usedFormed, formed⟩) derived
    refine ⟨_, program, ?_⟩
    rw [before, List.map_append, List.append_assoc]
    exact List.prefix_append _ _
  · intro _ program
    exact impossible _ program ((List.take_prefix _ _).map _)

/-- An argument is missing where the block goes on. -/
theorem refuses_end_for_argument :
    let source := "when a do\nsay f(b,\nend"
    let e : SyntaxError := ⟨3, "end", "'end'", .notAnOperand⟩
    parse source = .error (.grammatical e) ∧ e.complaint ≠ .tooDeep ∧
      ∃ scan k t, Scan.ofSource source = .ok scan ∧ scan.toList[k]? = some t ∧ e.line = t.line ∧
        e.lexeme = t.word.value ∧
        (∃ ws, ProgramWords ws ∧ (scan.toList.take k).map Token.word <+: ws) ∧
        (∀ ws, ProgramWords ws → ¬ (scan.toList.take (k + 1)).map Token.word <+: ws) ∧
        (k = scan.tokens.length → ¬ ProgramWords (scan.toList.map Token.word)) := by
  intro source e
  have refused : parse source = .error (.grammatical e) := by cbv
  have shallow : e.complaint ≠ .tooDeep := by decide
  exact ⟨refused, shallow, parse_refuses_first_impossible refused shallow⟩

end Parlance.Descent
