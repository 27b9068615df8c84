import Mathlib
import Parlance.Proofs.LineShift
import Parlance.Proofs.Spelling

/-!
# A source is words and gaps

A source that is cut into tokens is covered by them: it is the spellings of their words in their
order with gaps between them, and every token stands at the place of its first character
(`Scan.ofSource_covered`).  A source is not cut exactly if such a cover leads up to a character that
cannot be read (`Scan.ofSource_error_iff`).  And well-formed words that are spelled out with gaps
between them, whatever the gaps are, are cut into these words again (`Scan.ofSource_spellOut`).

All three rest on one correspondence: to cut off tokens (`Cuts`) is to cover the text with them
(`Covers`).
-/

namespace Parlance

open Text

/-! ## Places -/

/-- The place after some characters from the start of a source.  The line is one more than the line
breaks, the column one more than the characters since the last of them. -/
def Position.after (before : List Char) : Position :=
  ⟨1 + before.count '\n', 1 + (before.rtakeWhile (· ≠ '\n')).length⟩

theorem Position.step_after (before : List Char) (c : Char) :
    (after before).step c = after (before ++ [c]) := by
  by_cases newline : c = '\n'
  · simp [step, after, newline, Nat.add_assoc]
  · simp [step, after, newline, Nat.add_assoc]

/-- A position advances through a text as through its pieces. -/
theorem Position.advance_after (before cs : List Char) :
    (after before).advance cs = after (before ++ cs) := by
  induction cs generalizing before with
  | nil => simp [advance]
  | cons c cs ih =>
    have later := ih (before ++ [c])
    rw [← step_after, List.append_assoc, List.singleton_append] at later
    exact later

/-- A word at a place. -/
def Position.token (p : Position) (w : Word) : Token :=
  ⟨w, p.line, p.column⟩

/-! ## Gaps -/

/-- Blanks and comments, each comment with the line feed that ends it. -/
inductive Gap : List Char → Prop
  | nothing : Gap []
  | blank {c cs} (white : isBlank c = true) (more : Gap cs) : Gap (c :: cs)
  | comment {inside cs} (oneLine : '\n' ∉ inside) (more : Gap cs) :
    Gap ('#' :: inside ++ '\n' :: cs)

/-- A gap at the end of a source, where a last comment may go without a line feed. -/
inductive FinalGap : List Char → Prop
  | gap {cs} (shape : Gap cs) : FinalGap cs
  | comment {cs inside} (shape : Gap cs) (oneLine : '\n' ∉ inside) :
    FinalGap (cs ++ '#' :: inside)

theorem front_blank {c : Char} (white : isBlank c = true) (cs : List Char) :
    front c cs = .gap [c] cs := by
  simp [front, white]

/-- A comment reaches to the end of its line. -/
theorem front_comment {inside : List Char} (oneLine : '\n' ∉ inside) (rest : List Char)
    (ends : ∀ c ∈ rest.head?, c = '\n') :
    front '#' (inside ++ rest) = .gap ('#' :: inside) rest := by
  have holds : ∀ c ∈ inside, decide (c ≠ '\n') = true :=
    fun c listed => decide_eq_true fun same => oneLine (same ▸ listed)
  have stops : ∀ c ∈ rest.head?, decide (c ≠ '\n') = false :=
    fun c first => by simp [ends c first]
  obtain ⟨taken, dropped⟩ := span_of_head holds stops
  unfold front
  rw [if_neg (by decide), if_pos rfl, taken, dropped]

/-- A comment goes in front of a gap that begins with its line feed. -/
theorem Gap.after_comment {inside gap : List Char} (oneLine : '\n' ∉ inside) (shape : Gap gap)
    (ends : gap.head? = some '\n') : Gap ('#' :: inside ++ gap) := by
  cases shape with
  | nothing => cases ends
  | blank _ more =>
    cases ends
    exact .comment oneLine more
  | comment => cases ends

/-- A comment with its line end may stand in front of a last gap. -/
theorem FinalGap.after_comment {inside gap : List Char} (oneLine : '\n' ∉ inside)
    (shape : FinalGap gap) (ends : gap.head? = some '\n') : FinalGap ('#' :: inside ++ gap) := by
  cases shape with
  | gap shape => exact .gap (shape.after_comment oneLine ends)
  | @comment cs later shape oneLine' =>
    have first : cs.head? = some '\n' := by
      cases cs with
      | nil => cases ends
      | cons c cs => exact ends
    have joined := FinalGap.comment (shape.after_comment oneLine first) oneLine'
    rwa [List.append_assoc] at joined

/-- A gap begins with a blank or a comment. -/
theorem Gap.head {gap : List Char} (shape : Gap gap) :
    ∀ c ∈ gap.head?, isBlank c = true ∨ c = '#' := by
  intro c first
  cases shape with
  | nothing => cases first
  | blank white =>
    cases first
    exact .inl white
  | comment =>
    cases first
    exact .inr rfl

/-- A gap is cut into no tokens. -/
theorem Gap.cuts {gap : List Char} (shape : Gap gap) (before rest : List Char) :
    Cuts (.after before) (gap ++ rest) [] (.after (before ++ gap)) rest := by
  induction shape generalizing before with
  | nothing =>
    rw [List.append_nil]
    exact .stop
  | @blank c cs white _ ih =>
    have later := ih (before ++ [c])
    rw [← Position.advance_after, List.append_assoc] at later
    exact .gap (front_blank white _) later
  | @comment inside cs oneLine _ ih =>
    -- The comment is one gap and its line feed another.
    have later := ih (before ++ '#' :: inside ++ ['\n'])
    have whole : before ++ '#' :: inside ++ ['\n'] ++ cs =
        before ++ ('#' :: inside ++ '\n' :: cs) := by simp
    rw [whole, ← Position.advance_after _ ['\n'], ← Position.advance_after _ ('#' :: inside)]
      at later
    have ended := Cuts.gap (front_blank (by decide) _) later
    have opened := front_comment oneLine ('\n' :: (cs ++ rest)) (by rintro c ⟨⟩; rfl)
    rw [List.append_assoc, List.cons_append, List.cons_append]
    exact .gap opened ended

/-- The last gap is cut into no tokens and leaves nothing. -/
theorem FinalGap.cuts {gap : List Char} (shape : FinalGap gap) (before : List Char) :
    Cuts (.after before) gap [] (.after (before ++ gap)) [] := by
  cases shape with
  | gap shape => simpa using shape.cuts before []
  | @comment cs inside shape oneLine =>
    have opened := front_comment oneLine [] (by rintro c ⟨⟩)
    rw [List.append_nil] at opened
    have ended : Cuts (.after (before ++ cs)) ('#' :: inside) []
        ((Position.after (before ++ cs)).advance ('#' :: inside)) [] := .gap opened .stop
    rw [Position.advance_after, List.append_assoc] at ended
    exact (shape.cuts before _).trans ended

/-! ## Covers -/

/-- A word with the gap before it. -/
structure Piece where
  gap : List Char
  word : Word

/-- The text that the pieces make up. -/
def spellOut (pieces : List Piece) : List Char :=
  pieces.flatMap fun piece => piece.gap ++ piece.word.spelling

/-- The pieces stand before the rest: their gaps are gaps, their words are well-formed, and no word
goes on with what comes after it. -/
inductive Covers (rest : List Char) : List Piece → Prop
  | nothing : Covers rest []
  | piece {gap word pieces} (blank : Gap gap) (formed : word.WellFormed)
      (maximal : word.Maximal (spellOut pieces ++ rest)) (more : Covers rest pieces) :
    Covers rest (⟨gap, word⟩ :: pieces)

/-- The words of the pieces as tokens, each at the place after what stands before it. -/
def tokensAfter (before : List Char) : List Piece → List Token
  | [] => []
  | piece :: pieces =>
    (Position.after (before ++ piece.gap)).token piece.word ::
      tokensAfter (before ++ piece.gap ++ piece.word.spelling) pieces

theorem spellOut_cons (gap : List Char) (word : Word) (pieces : List Piece) :
    spellOut (⟨gap, word⟩ :: pieces) = gap ++ word.spelling ++ spellOut pieces := by
  simp [spellOut]

theorem words_tokensAfter (before : List Char) (pieces : List Piece) :
    (tokensAfter before pieces).map Token.word = pieces.map Piece.word := by
  induction pieces generalizing before with
  | nil => rfl
  | cons piece pieces ih =>
    simp only [tokensAfter, List.map_cons, ih]
    rfl

theorem Covers.wellFormed {rest : List Char} {pieces : List Piece} (covers : Covers rest pieces) :
    ∀ piece ∈ pieces, piece.word.WellFormed := by
  induction covers with
  | nothing => simp
  | piece _ formed _ _ ih => exact List.forall_mem_cons.2 ⟨formed, ih⟩

/-- A well-formed word has a character at least. -/
theorem Word.WellFormed.spelling_ne_nil {w : Word} (formed : w.WellFormed) : w.spelling ≠ [] := by
  cases w with
  | keyword k => cases k <;> decide
  | name s =>
    obtain ⟨c, cs, letters, _⟩ := formed
    simp [Word.spelling, letters]
  | number digits =>
    rcases formed with plain | ⟨whole, fraction, split, _⟩
    · exact plain.1
    · simp [Word.spelling, split]
  | text content => simp [Word.spelling]
  | symbol s => cases s <;> decide
  | finish => exact formed.elim

/-- What is covered is cut into the tokens of the cover. -/
theorem Covers.cuts {rest : List Char} {pieces : List Piece} (covers : Covers rest pieces)
    (before : List Char) :
    Cuts (.after before) (spellOut pieces ++ rest) (tokensAfter before pieces)
      (.after (before ++ spellOut pieces)) rest := by
  induction covers generalizing before with
  | nothing =>
    rw [spellOut, List.flatMap_nil, List.append_nil]
    exact .stop
  | @piece gap word pieces blank formed maximal _ ih =>
    have later := ih (before ++ gap ++ word.spelling)
    rw [← Position.advance_after] at later
    obtain ⟨c, cs, spelled⟩ := List.exists_cons_of_ne_nil formed.spelling_ne_nil
    have opened : front c (cs ++ (spellOut pieces ++ rest)) =
        .word word (spellOut pieces ++ rest) :=
      front_eq_word_iff.2 ⟨formed, maximal, by rw [spelled, List.cons_append]⟩
    have cut := Cuts.word opened later
    rw [← List.cons_append, ← spelled] at cut
    have whole := (blank.cuts before _).trans cut
    rw [spellOut_cons, tokensAfter]
    simpa only [List.append_assoc, List.nil_append, Position.token] using whole

/-! ## What is cut is covered -/

/-- The pieces cover a text up to a gap, which is a final one unless something comes after it. -/
structure CoversUpTo (text : List Char) (pieces : List Piece) (gap left : List Char) : Prop where
  whole : spellOut pieces ++ (gap ++ left) = text
  covers : Covers (gap ++ left) pieces
  final : FinalGap gap
  closed : left ≠ [] → Gap gap

/-- What has been skipped before a text joins the gap that the text begins with. -/
def Joins (skipped text : List Char) : Prop :=
  ∀ gap more, gap ++ more = text → (∀ c ∈ more.head?, c ≠ '\n') →
    (FinalGap gap → FinalGap (skipped ++ gap)) ∧ (more ≠ [] → Gap gap → Gap (skipped ++ gap))

/-- What is skipped at one go joins with any gap behind it. -/
theorem joins_of_frontGap {c : Char} {cs skipped rest : List Char}
    (found : FrontGap c cs skipped rest) : Joins skipped rest := by
  intro gap more split solid
  cases found with
  | blank white =>
    refine ⟨fun final => ?_, fun _ shape => .blank white shape⟩
    cases final with
    | gap shape => exact .gap (.blank white shape)
    | comment shape oneLine => exact .comment (.blank white shape) oneLine
  | comment hash =>
    subst hash
    have oneLine : '\n' ∉ cs.takeWhile (· ≠ '\n') := fun listed => by
      simpa using List.mem_takeWhile_imp listed
    cases gap with
    | nil =>
      -- Then the comment goes up to the end of the text.
      have ended : more = [] := by
        cases more with
        | nil => rfl
        | cons d more =>
          have stopped := eq_false_of_dropWhile_eq_cons split.symm
          exact absurd (by simpa using stopped) (solid d rfl)
      refine ⟨fun _ => ?_, fun some => absurd ended some⟩
      rw [List.append_nil]
      exact .comment .nothing oneLine
    | cons d gap =>
      have first : d = '\n' := by simpa using eq_false_of_dropWhile_eq_cons split.symm
      subst first
      exact ⟨fun final => final.after_comment oneLine rfl,
        fun _ shape => shape.after_comment oneLine rfl⟩

theorem Word.WellFormed.head_spelling {w : Word} (formed : w.WellFormed) :
    ∀ c ∈ w.spelling.head?, c ≠ '\n' := by
  rintro c first rfl
  obtain ⟨more, spelled⟩ := List.head?_eq_some_iff.1 first
  have wordless : ¬ w.spelling <+: '\n' :: more :=
    wordless_of_missed (by decide) (by decide) (by decide) rfl formed
  exact wordless ⟨[], by rw [List.append_nil, spelled]⟩

/-- A gap in front widens the first gap of the cover, or the last one if there is no word. -/
theorem CoversUpTo.skip {skipped text gap left : List Char} {pieces : List Piece}
    (joins : Joins skipped text) (solid : ∀ c ∈ left.head?, c ≠ '\n')
    (covered : CoversUpTo text pieces gap left) :
    ∃ pieces' gap', CoversUpTo (skipped ++ text) pieces' gap' left := by
  obtain ⟨whole, covers, final, closed⟩ := covered
  cases covers with
  | nothing =>
    obtain ⟨joinsFinal, joinsGap⟩ := joins gap left whole solid
    refine ⟨[], skipped ++ gap, ?_, .nothing, joinsFinal final, fun some => ?_⟩
    · rw [← whole]
      simp [spellOut]
    · exact joinsGap some (closed some)
  | @piece gap' word pieces shape formed maximal more =>
    have split : gap' ++ (word.spelling ++ (spellOut pieces ++ (gap ++ left))) = text := by
      rw [← whole, spellOut_cons]
      simp only [List.append_assoc]
    obtain ⟨c, cs, spelled⟩ := List.exists_cons_of_ne_nil formed.spelling_ne_nil
    have head := formed.head_spelling
    rw [spelled] at head split
    have joined := (joins gap' _ split head).2 (by simp) shape
    refine ⟨⟨skipped ++ gap', word⟩ :: pieces, gap, ?_, .piece joined formed maximal more, final,
      closed⟩
    rw [← split, spellOut_cons, spelled]
    simp only [List.append_assoc]

theorem CoversUpTo.word {text gap left : List Char} {pieces : List Piece} {w : Word}
    (formed : w.WellFormed) (maximal : w.Maximal text)
    (covered : CoversUpTo text pieces gap left) :
    CoversUpTo (w.spelling ++ text) (⟨[], w⟩ :: pieces) gap left := by
  obtain ⟨rfl, covers, final, closed⟩ := covered
  refine ⟨?_, .piece .nothing formed maximal covers, final, closed⟩
  rw [spellOut_cons, List.nil_append, List.append_assoc]

/-- A text that is cut into tokens up to some place is covered up to there. -/
theorem Cuts.exists_coversUpTo {p q : Position} {cs left : List Char} {ts : List Token}
    (cuts : Cuts p cs ts q left) (solid : ∀ c ∈ left.head?, c ≠ '\n') :
    ∃ pieces gap, CoversUpTo cs pieces gap left := by
  induction cuts with
  | stop => exact ⟨[], [], rfl, .nothing, .gap .nothing, fun _ => .nothing⟩
  | gap found _ ih =>
    obtain ⟨pieces, gap, covered⟩ := ih solid
    have skipped := frontGap_of_front found
    rw [← skipped.append_eq]
    exact covered.skip (joins_of_frontGap skipped) solid
  | word found _ ih =>
    obtain ⟨pieces, gap, covered⟩ := ih solid
    obtain ⟨formed, maximal, spelled⟩ := front_eq_word_iff.1 found
    rw [← spelled]
    exact ⟨_, gap, covered.word formed maximal⟩

/-! ## Whole sources -/

/-- A covered source is cut into the tokens of its cover. -/
theorem Scan.ofSource_of_covers {source : String} {pieces : List Piece} {last : List Char}
    (whole : source.toList = spellOut pieces ++ last) (covers : Covers last pieces)
    (final : FinalGap last) :
    Scan.ofSource source = .ok ⟨tokensAfter [] pieces, .after source.toList⟩ := by
  have cut := (covers.cuts []).trans (final.cuts (spellOut pieces))
  rw [List.append_nil, ← whole] at cut
  exact ofSource_of_cuts cut

/-- Words that are spelled alike are the same. -/
theorem Word.WellFormed.eq_of_spelling {v w : Word} (formed : v.WellFormed) (formed' : w.WellFormed)
    (spelled : v.spelling = w.spelling) : v = w := by
  have alone (u : Word) : u.Maximal [] := by cases u <;> simp [Word.Maximal]
  obtain ⟨c, cs, letters⟩ := List.exists_cons_of_ne_nil formed.spelling_ne_nil
  have first : front c cs = .word v [] :=
    front_eq_word_iff.2 ⟨formed, alone v, by rw [List.append_nil, letters]⟩
  have second : front c cs = .word w [] :=
    front_eq_word_iff.2 ⟨formed', alone w, by rw [List.append_nil, ← spelled, letters]⟩
  cases first.symm.trans second
  rfl

/-- The reserved words are the keywords and nothing else. -/
theorem Word.WellFormed.isKeyword_iff {w : Word} (formed : w.WellFormed) :
    (∃ k, w = .keyword k) ↔ ∃ k : Keyword, k.letters = w.spelling := by
  constructor
  · rintro ⟨k, rfl⟩
    exact ⟨k, rfl⟩
  · rintro ⟨k, spelled⟩
    have reserved : (Word.keyword k).WellFormed := trivial
    exact ⟨k, (reserved.eq_of_spelling formed spelled).symm⟩

/-- Every accepted source is covered by its words and gaps, and the tokens are these words with
their positions. -/
theorem Scan.exists_covers {source : String} {scan : Scan}
    (scanned : Scan.ofSource source = .ok scan) :
    ∃ pieces last, source.toList = spellOut pieces ++ last ∧ Covers last pieces ∧ FinalGap last ∧
      scan = ⟨tokensAfter [] pieces, .after source.toList⟩ := by
  obtain ⟨pieces, last, whole, covers, final, _⟩ :=
    (cuts_of_startingAt scanned).exists_coversUpTo (by rintro c ⟨⟩)
  rw [List.append_nil] at whole covers
  have again := ofSource_of_covers whole.symm covers final
  exact ⟨pieces, last, whole.symm, covers, final, Except.ok.inj (scanned.symm.trans again)⟩

/-- Every word of an accepted source is well-formed. -/
theorem Scan.wellFormed_of_mem {source : String} {scan : Scan}
    (scanned : Scan.ofSource source = .ok scan) : ∀ t ∈ scan.tokens, t.word.WellFormed := by
  obtain ⟨pieces, last, _, covers, _, rfl⟩ := exists_covers scanned
  intro t listed
  have word : t.word ∈ (tokensAfter [] pieces).map Token.word := List.mem_map_of_mem listed
  rw [words_tokensAfter] at word
  obtain ⟨piece, among, same⟩ := List.mem_map.1 word
  exact same ▸ covers.wellFormed piece among

/-- The tokens of a source cover it.  Between them are gaps, every token stands at the place of its
first character, every word is as long as it can be, and the keywords are the reserved words. -/
theorem Scan.ofSource_covered {source : String} {scan : Scan}
    (scanned : Scan.ofSource source = .ok scan) :
    ∃ pieces last, source.toList = spellOut pieces ++ last ∧ Covers last pieces ∧ FinalGap last ∧
      scan.toList = tokensAfter [] pieces ++ [(Position.after source.toList).token .finish] ∧
      ∀ piece ∈ pieces, (∃ k, piece.word = .keyword k) ↔
        ∃ k : Keyword, k.letters = piece.word.spelling := by
  obtain ⟨pieces, last, whole, covers, final, rfl⟩ := exists_covers scanned
  exact ⟨pieces, last, whole, covers, final, rfl,
    fun piece listed => (covers.wellFormed piece listed).isKeyword_iff⟩

/-- A text over two lines, without a gap on either side, and a comment that the source ends in. -/
theorem Scan.covered_text_over_lines :
    let source := "π_=\"a\nb\"<1.5 # end"
    let scan : Scan :=
      ⟨[⟨.name "π_", 1, 1⟩, ⟨.symbol .assign, 1, 3⟩, ⟨.text "a\nb", 1, 4⟩, ⟨.symbol .less, 2, 3⟩,
        ⟨.number "1.5", 2, 4⟩], ⟨2, 13⟩⟩
    Scan.ofSource source = .ok scan ∧
      ∃ pieces last, source.toList = spellOut pieces ++ last ∧ Covers last pieces ∧ FinalGap last ∧
        scan.toList = tokensAfter [] pieces ++ [(Position.after source.toList).token .finish] ∧
        ∀ piece ∈ pieces, (∃ k, piece.word = .keyword k) ↔
          ∃ k : Keyword, k.letters = piece.word.spelling := by
  intro source scan
  have scanned : Scan.ofSource source = .ok scan := by cbv
  exact ⟨scanned, ofSource_covered scanned⟩

/-! ## Sources that cannot be cut -/

/-- A text that cannot be cut is cut up to a place that is unreadable. -/
theorem Scan.exists_cuts_of_error {p : Position} {cs : List Char} {e : LexicalError}
    (failed : Scan.startingAt p cs = .error e) :
    ∃ ts q c rest, Cuts p cs ts q (c :: rest) ∧ Unreadable c rest e.cause := by
  fun_induction Scan.startingAt p cs with
  | case1 p => cases failed
  | case2 p c cs skipped rest found _ ih =>
    obtain ⟨ts, q, d, left, cuts, bad⟩ := ih failed
    exact ⟨ts, q, d, left, .gap found cuts, bad⟩
  | case3 p c cs w rest found _ ih =>
    obtain ⟨ts, q, d, left, cuts, bad⟩ := ih (eq_error_of_map failed)
    exact ⟨_, q, d, left, .word found cuts, bad⟩
  | case4 p c cs cause found =>
    cases failed
    exact ⟨[], p, c, cs, .stop, front_eq_bad_iff.1 found⟩

/-- What a cover up to an unreadable character says about the source. -/
theorem Scan.ofSource_of_unreadable {source : String} {pieces : List Piece} {gap rest : List Char}
    {c : Char} {cause : LexicalCause} (whole : source.toList = spellOut pieces ++ gap ++ c :: rest)
    (covers : Covers (gap ++ c :: rest) pieces) (shape : Gap gap)
    (unreadable : Unreadable c rest cause) :
    Scan.ofSource source = .error ⟨1 + (spellOut pieces ++ gap).count '\n', cause⟩ := by
  have cut := (covers.cuts []).trans (shape.cuts (spellOut pieces) (c :: rest))
  rw [← List.append_assoc, ← whole] at cut
  exact cut.startingAt_eq_error (front_eq_bad_iff.2 unreadable)

theorem Unreadable.ne_newline {c : Char} {rest : List Char} {cause : LexicalCause}
    (unreadable : Unreadable c rest cause) : c ≠ '\n' := by
  rintro rfl
  cases unreadable with
  | unclosed opens => cases opens
  | stray alone => cases alone.blank

/-- The reason is told by the message and the character of the report. -/
theorem LexicalError.unreadable_iff {e : LexicalError} {c : Char} {rest : List Char} :
    Unreadable c rest e.cause ↔
      (c = '"' ∧ '"' ∉ rest ∧ e.message = "unterminated text literal" ∨
        Stray c rest ∧ e.message = "unexpected character " ++ quotedChar c) ∧ e.char = c := by
  obtain ⟨line, cause⟩ := e
  constructor
  · intro unreadable
    cases unreadable with
    | unclosed opens never => exact ⟨.inl ⟨opens, never, rfl⟩, opens.symm⟩
    | stray alone => exact ⟨.inr ⟨alone, rfl⟩, rfl⟩
  · rintro ⟨⟨opens, never, message⟩ | ⟨alone, _⟩, same⟩
    · cases cause with
      | unterminatedText => exact .unclosed opens never
      | strayCharacter d =>
        cases same.trans opens
        have other : "unexpected character " ++ quotedChar '"' ≠ "unterminated text literal" := by
          decide
        exact absurd message other
    · cases cause with
      | unterminatedText => exact absurd same.symm alone.quote
      | strayCharacter d =>
        cases same
        exact .stray alone

/-- A source is not cut exactly if it is covered up to an unreadable character, and the report is
about that character and its line.  All other sources are cut into tokens, and only the last one
stands for the end. -/
theorem Scan.ofSource_error_iff (source : String) :
    (∀ e : LexicalError, Scan.ofSource source = .error e ↔
      ∃ pieces gap c rest, source.toList = spellOut pieces ++ gap ++ c :: rest ∧
        Covers (gap ++ c :: rest) pieces ∧ Gap gap ∧
        ((c = '"' ∧ '"' ∉ rest ∧ e.message = "unterminated text literal" ∨
          Stray c rest ∧ e.message = "unexpected character " ++ quotedChar c) ∧ e.char = c) ∧
        e.line = 1 + (spellOut pieces ++ gap).count '\n') ∧
    ((∃ e, Scan.ofSource source = .error e) ∨
      ∃ scan ts finish, Scan.ofSource source = .ok scan ∧ scan.toList = ts ++ [finish] ∧
        finish.word = .finish ∧ ∀ t ∈ ts, t.word ≠ .finish) := by
  constructor
  · intro e
    constructor
    · intro failed
      obtain ⟨ts, q, c, rest, cuts, unreadable⟩ := exists_cuts_of_error failed
      have solid : ∀ d ∈ (c :: rest).head?, d ≠ '\n' := by
        rintro d ⟨⟩
        exact unreadable.ne_newline
      obtain ⟨pieces, gap, whole, covers, _, closed⟩ := cuts.exists_coversUpTo solid
      have shape := closed (by simp)
      rw [← List.append_assoc] at whole
      have known := ofSource_of_unreadable whole.symm covers shape unreadable
      have line := congrArg LexicalError.line (Except.error.inj (failed.symm.trans known))
      exact ⟨pieces, gap, c, rest, whole.symm, covers, shape,
        LexicalError.unreadable_iff.1 unreadable, line⟩
    · rintro ⟨pieces, gap, c, rest, whole, covers, shape, reason, line⟩
      have unreadable := LexicalError.unreadable_iff.2 reason
      rw [ofSource_of_unreadable whole covers shape unreadable, ← line]
  · cases outcome : Scan.ofSource source with
    | error e => exact .inl ⟨e, rfl⟩
    | ok scan =>
      refine .inr ⟨scan, scan.tokens, _, rfl, rfl, rfl, fun t listed same => ?_⟩
      have formed := wellFormed_of_mem outcome t listed
      rw [same] at formed
      exact formed

/-! ## Words spelled out -/

/-- No word goes on with a blank or a comment. -/
theorem Word.maximal_of_head (w : Word) {rest : List Char}
    (gap : ∀ c ∈ rest.head?, isBlank c = true ∨ c = '#') : w.Maximal rest := by
  have outside : ∀ c ∈ rest.head?, isWordChar c = false := by
    intro c first
    rcases gap c first with white | rfl
    · exact not_isWordChar_of_isBlank white
    · decide
  have other {c : Char} (blank : isBlank c = false) (hash : c ≠ '#') : rest.head? ≠ some c := by
    intro first
    rcases gap c first with white | same
    · cases white.symm.trans blank
    · exact hash same
  cases w with
  | keyword k => exact outside
  | name s => exact outside
  | number digits =>
    constructor
    · intro c first
      rw [Bool.eq_false_iff]
      intro digit
      cases (isWordChar_of_isDigit digit).symm.trans (outside c first)
    · rintro _ d more rfl
      exact absurd rfl (other (by decide) (by decide))
  | text content => trivial
  | symbol s => exact fun _ => other (by decide) (by decide)
  | finish => trivial

/-- Words with gaps before them all begin with a blank or a comment. -/
theorem head_spellOut {pieces : List Piece} {last : List Char}
    (gaps : ∀ piece ∈ pieces, Gap piece.gap) (separated : ∀ piece ∈ pieces, piece.gap ≠ [])
    (ending : Gap last) : ∀ c ∈ (spellOut pieces ++ last).head?, isBlank c = true ∨ c = '#' := by
  cases pieces with
  | nil => exact ending.head
  | cons piece pieces =>
    obtain ⟨c, cs, opened⟩ := List.exists_cons_of_ne_nil (separated piece (.head _))
    have head := (gaps piece (.head _)).head
    simpa [spellOut, opened] using head

/-- Well-formed words with gaps between them cover what they spell. -/
theorem covers_of_separated {pieces : List Piece} {last : List Char}
    (formed : ∀ piece ∈ pieces, piece.word.WellFormed) (gaps : ∀ piece ∈ pieces, Gap piece.gap)
    (separated : ∀ piece ∈ pieces.tail, piece.gap ≠ []) (ending : Gap last) :
    Covers last pieces := by
  induction pieces with
  | nil => exact .nothing
  | cons piece pieces ih =>
    rw [List.forall_mem_cons] at formed gaps
    have more := ih formed.2 gaps.2
      fun piece' listed => separated piece' (List.mem_of_mem_tail listed)
    have maximal := piece.word.maximal_of_head (head_spellOut gaps.2 separated ending)
    exact .piece gaps.1 formed.1 maximal more

/-- Well-formed words that are spelled out with gaps between them are cut into these words again, so
the words of a source do not depend on its layout. -/
theorem Scan.ofSource_spellOut {pieces : List Piece} {last : List Char}
    (formed : ∀ piece ∈ pieces, piece.word.WellFormed) (gaps : ∀ piece ∈ pieces, Gap piece.gap)
    (separated : ∀ piece ∈ pieces.tail, piece.gap ≠ []) (ending : Gap last) :
    ∃ scan, Scan.ofSource (String.ofList (spellOut pieces ++ last)) = .ok scan ∧
      scan.toList.map Token.word = pieces.map Piece.word ++ [.finish] := by
  have covers := covers_of_separated formed gaps separated ending
  refine ⟨_, ofSource_of_covers (by rw [String.toList_ofList]) covers (.gap ending), ?_⟩
  simp [Scan.toList, words_tokensAfter]

/-- Comments directly after a name and after `=`, with words in them. -/
theorem Scan.spellOut_with_comments :
    let pieces : List Piece :=
      [⟨[], .name "x"⟩, ⟨"#= \"\n".toList, .symbol .assign⟩, ⟨"#=\n".toList, .symbol .assign⟩,
       ⟨" ".toList, .text "#\n"⟩]
    (∀ piece ∈ pieces, piece.word.WellFormed) ∧ (∀ piece ∈ pieces, Gap piece.gap) ∧
      (∀ piece ∈ pieces.tail, piece.gap ≠ []) ∧ Gap [] ∧
      ∃ scan, Scan.ofSource (String.ofList (spellOut pieces ++ [])) = .ok scan ∧
        scan.toList.map Token.word =
          [.name "x", .symbol .assign, .symbol .assign, .text "#\n", .finish] := by
  intro pieces
  have named : (Word.name "x").WellFormed :=
    ⟨'x', [], rfl, by decide, by simp, by intro k; cases k <;> decide⟩
  have text : (Word.text "#\n").WellFormed := by simp [Word.WellFormed]
  have formed : ∀ piece ∈ pieces, piece.word.WellFormed := by
    simp only [pieces, List.forall_mem_cons]
    exact ⟨named, trivial, trivial, text, by simp⟩
  have oneLine : '\n' ∉ "= \"".toList ∧ '\n' ∉ "=".toList := by decide
  have quoted : Gap "#= \"\n".toList := .comment oneLine.1 .nothing
  have doubled : Gap "#=\n".toList := .comment oneLine.2 .nothing
  have space : Gap " ".toList := .blank (by decide) .nothing
  have gaps : ∀ piece ∈ pieces, Gap piece.gap := by
    simp only [pieces, List.forall_mem_cons]
    exact ⟨.nothing, quoted, doubled, space, by simp⟩
  have separated : ∀ piece ∈ pieces.tail, piece.gap ≠ [] := by simp [pieces]
  exact ⟨formed, gaps, separated, .nothing, ofSource_spellOut formed gaps separated .nothing⟩

end Parlance
