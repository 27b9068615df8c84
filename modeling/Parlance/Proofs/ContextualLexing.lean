import Parlance.Proofs.ContextualRun
import Parlance.Proofs.Words

/-!
# Words cut ahead of time are found in context

The two front ends cut a source into words differently.  Here a word that `front` cuts off is shown
to be the one that the second front end finds, if it is looked for at all and does not belong to an
`otherwise when`.  The two also skip the same gaps, as long as the blanks of the source are plain
ones.
-/

namespace Parlance

open Text

/-- What a character of a source belongs to. -/
inductive Zone
  | code
  | comment
  | text

/-- Outside texts and comments the only blanks are spaces, tabs and line breaks.  The zone is that
of the first character. -/
def plainBlanks : Zone → List Char → Bool
  | _, [] => true
  | .code, c :: cs =>
    if c = '"' then plainBlanks .text cs
    else if c = '#' then plainBlanks .comment cs
    else (!isBlank c || [' ', '\t', '\r', '\n'].contains c) && plainBlanks .code cs
  | .comment, c :: cs => plainBlanks (if c = '\n' then .code else .comment) cs
  | .text, c :: cs => plainBlanks (if c = '"' then .code else .text) cs

/-- A comment may hold any blanks; what counts goes on at the end of its line. -/
theorem plainBlanks_comment (cs : List Char) :
    plainBlanks .comment cs = plainBlanks .code (cs.dropWhile (· ≠ '\n')) := by
  induction cs with
  | nil => rfl
  | cons c cs ih =>
    by_cases newline : c = '\n'
    · subst newline
      rfl
    · simpa [plainBlanks, newline] using ih

/-- A text may hold any blanks; what counts goes on behind its closing quote. -/
theorem plainBlanks_text {cs rest : List Char} {quote : Char}
    (closed : cs.dropWhile (· ≠ '"') = quote :: rest) :
    plainBlanks .text cs = plainBlanks .code rest := by
  induction cs with
  | nil => cases closed
  | cons c cs ih =>
    by_cases ends : c = '"'
    · subst ends
      simp only [List.dropWhile_cons, ne_eq, not_true_eq_false, decide_false] at closed
      cases closed
      rfl
    · have later : cs.dropWhile (· ≠ '"') = quote :: rest := by
        simpa [List.dropWhile_cons, ends] using closed
      simpa [plainBlanks, ends] using ih later

/-- Characters that open neither a text nor a comment can be taken off the front. -/
theorem plainBlanks_of_append {letters rest : List Char}
    (outside : ∀ c ∈ letters, c ≠ '"' ∧ c ≠ '#')
    (plain : plainBlanks .code (letters ++ rest) = true) : plainBlanks .code rest = true := by
  induction letters with
  | nil => exact plain
  | cons c letters ih =>
    obtain ⟨quote, hash⟩ := outside c (.head _)
    simp only [List.cons_append, plainBlanks, if_neg quote, if_neg hash, Bool.and_eq_true] at plain
    exact ih (fun d listed => outside d (.tail _ listed)) plain.2

theorem outside_of_isWordChar {c : Char} (inside : isWordChar c = true) : c ≠ '"' ∧ c ≠ '#' := by
  constructor
  · rintro rfl
    exact absurd inside (by decide)
  · rintro rfl
    exact absurd inside (by decide)

theorem isWordChar_of_opens {c : Char} (opens : (isLetter c || c == '_') = true) :
    isWordChar c = true := by
  unfold isWordChar
  rcases Bool.or_eq_true_iff.1 opens with letter | underscore
  · simp [letter]
  · simp [underscore]

/-- A number holds no quote and no `#`. -/
theorem outside_spanNumber {cs : List Char} :
    ∀ c ∈ (spanNumber cs).1, c ≠ '"' ∧ c ≠ '#' := by
  have outside : ∀ c : Char, c.isDigit = true ∨ c = '.' → c ≠ '"' ∧ c ≠ '#' := by
    rintro c (digit | rfl)
    · constructor <;> rintro rfl <;> exact absurd digit (by decide)
    · decide
  have whole : ∀ c ∈ cs.takeWhile Char.isDigit, c.isDigit = true :=
    fun c listed => List.mem_takeWhile_imp listed
  intro c listed
  apply outside
  unfold spanNumber at listed
  split at listed
  · next d rest found =>
    split at listed
    · rcases List.mem_append.1 listed with early | late
      · exact .inl (whole c early)
      · rcases List.mem_cons.1 late with point | fraction
        · exact .inr point
        · exact .inl (List.mem_takeWhile_imp fraction)
    · exact .inl (whole c listed)
  · exact .inl (whole c listed)

/-- What follows a word begins outside texts and comments. -/
theorem FrontWord.plainBlanks_rest {c : Char} {cs rest : List Char} {w : Word}
    (found : FrontWord c cs w rest) (plain : plainBlanks .code (c :: cs) = true) :
    plainBlanks .code rest = true := by
  have whole := found.append_eq
  cases found with
  | letters opens =>
    rw [← whole] at plain
    refine plainBlanks_of_append (fun d listed => ?_) plain
    rw [Word.spelling_ofLetters] at listed
    rcases List.mem_cons.1 listed with rfl | later
    · exact outside_of_isWordChar (isWordChar_of_opens opens)
    · exact outside_of_isWordChar (List.mem_takeWhile_imp later)
  | number digit =>
    rw [← whole] at plain
    refine plainBlanks_of_append (fun d listed => ?_) plain
    rw [Word.spelling, String.toList_ofList] at listed
    exact outside_spanNumber d listed
  | text opens closed =>
    subst opens
    rw [← plainBlanks_text closed]
    exact plain
  | @symbol s rest spanned =>
    rw [← whole] at plain
    refine plainBlanks_of_append (fun d listed => ?_) plain
    rw [Word.spelling] at listed
    cases s <;> simp only [Symbol.letters, List.mem_cons, List.not_mem_nil, or_false] at listed <;>
      rcases listed with rfl | rfl <;> decide

/-! ## Gaps -/

theorem outside_of_isBlank {c : Char} (blank : isBlank c = true) : c ≠ '"' ∧ c ≠ '#' := by
  constructor
  · rintro rfl
    exact absurd blank (by decide)
  · rintro rfl
    exact absurd blank (by decide)

/-- Behind a gap the blanks are still plain. -/
theorem FrontGap.plainBlanks_rest {c : Char} {cs skipped rest : List Char}
    (found : FrontGap c cs skipped rest) (plain : plainBlanks .code (c :: cs) = true) :
    plainBlanks .code rest = true := by
  cases found with
  | blank blank =>
    have whole : plainBlanks .code ([c] ++ cs) = true := plain
    refine plainBlanks_of_append (fun d listed => ?_) whole
    cases List.mem_singleton.1 listed
    exact outside_of_isBlank blank
  | comment hash =>
    subst hash
    rw [← plainBlanks_comment]
    exact plain

theorem plain_of_isBlank {c : Char} {cs : List Char} (blank : isBlank c = true)
    (plain : plainBlanks .code (c :: cs) = true) : c = ' ' ∨ c = '\t' ∨ c = '\r' ∨ c = '\n' := by
  obtain ⟨quote, hash⟩ := outside_of_isBlank blank
  simp only [plainBlanks, if_neg quote, if_neg hash, blank, Bool.and_eq_true] at plain
  simpa using plain.1

/-- Where no gap is, there is no blank and no comment. -/
theorem plain_of_no_gap {c : Char} {cs : List Char}
    (close : ∀ skipped rest, front c cs ≠ .gap skipped rest) : isBlank c = false ∧ c ≠ '#' := by
  constructor
  · rw [Bool.eq_false_iff]
    intro blank
    exact close [c] cs (by simp [front, blank])
  · rintro rfl
    exact close _ _ rfl

end Parlance

namespace Parlance.Contextual

open Text

/-- Skipping a comment is skipping to the end of its line and on from there. -/
theorem skipGap_comment (line : Nat) (cs : List Char) :
    skipGap true line cs = skipGap false line (cs.dropWhile (· ≠ '\n')) := by
  induction cs with
  | nil => rfl
  | cons c cs ih =>
    by_cases newline : c = '\n'
    · subst newline
      rfl
    · have past : skipGap true line (c :: cs) = skipGap true line cs := by
        rw [skipGap.eq_3]
        exact newline
      simpa [newline, past] using ih

/-- A comment that ends with its line is read as a part of the gap. -/
theorem spanGap?_comment {cs : List Char} (ends : cs.dropWhile (· ≠ '\n') ≠ []) :
    spanGap? true cs = (spanGap? false (cs.dropWhile (· ≠ '\n'))).map
      fun found => (cs.takeWhile (· ≠ '\n') ++ found.1, found.2) := by
  induction cs with
  | nil => exact absurd rfl ends
  | cons c cs ih =>
    by_cases newline : c = '\n'
    · subst newline
      simp [spanGap?, Function.comp_def]
    · have later : cs.dropWhile (· ≠ '\n') ≠ [] := by
        simpa [List.dropWhile_cons, newline] using ends
      have flag : (c != '\n') = true := by simpa using newline
      simp [spanGap?, flag, ih later, newline, Function.comp_def]

/-- A gap is skipped, line by line. -/
theorem skipGap_gap {c : Char} {cs skipped rest : List Char} (found : FrontGap c cs skipped rest)
    (plain : plainBlanks .code (c :: cs) = true) (p : Position) :
    skipGap false p.line (c :: cs) = skipGap false (p.advance skipped).line rest := by
  rw [Position.line_advance]
  cases found with
  | blank blank => rcases plain_of_isBlank blank plain with rfl | rfl | rfl | rfl <;> rfl
  | comment hash =>
    subst hash
    have noBreak : (cs.takeWhile (· ≠ '\n')).count '\n' = 0 := by
      refine List.count_eq_zero.2 fun listed => ?_
      simpa using List.mem_takeWhile_imp listed
    rw [List.count_cons_of_ne (by decide), noBreak]
    exact skipGap_comment p.line cs

/-- A gap that the tokenizer finds is read as a part of the gap, if anything follows it. -/
theorem spanGap?_gap {c : Char} {cs skipped rest : List Char} (found : FrontGap c cs skipped rest)
    (plain : plainBlanks .code (c :: cs) = true) (more : rest ≠ []) :
    spanGap? false (c :: cs) =
      (spanGap? false rest).map fun found => (skipped ++ found.1, found.2) := by
  cases found with
  | blank blank => rcases plain_of_isBlank blank plain with rfl | rfl | rfl | rfl <;> rfl
  | comment hash =>
    subst hash
    simp [spanGap?, spanGap?_comment more, Function.comp_def]

/-- Nothing is skipped where the tokenizer finds no gap. -/
theorem skipGap_eq_self {c : Char} {cs : List Char}
    (close : ∀ skipped rest, front c cs ≠ .gap skipped rest) (line : Nat) :
    skipGap false line (c :: cs) = (line, c :: cs) := by
  obtain ⟨blank, hash⟩ := plain_of_no_gap close
  have newline : c ≠ '\n' := by
    rintro rfl
    exact absurd blank (by decide)
  have space : isSpace c = false := by
    rw [Bool.eq_false_iff]
    intro space
    simp only [isSpace, Bool.or_eq_true, beq_iff_eq] at space
    rcases space with (((rfl | rfl) | rfl) | rfl) | rfl <;> exact absurd blank (by decide)
  rw [skipGap.eq_4 _ _ _ newline]
  simp [space, hash]

/-- The gap is empty where the tokenizer finds none. -/
theorem spanGap?_eq_self {c : Char} {cs : List Char}
    (close : ∀ skipped rest, front c cs ≠ .gap skipped rest) :
    spanGap? false (c :: cs) = some ([], c :: cs) := by
  obtain ⟨blank, hash⟩ := plain_of_no_gap close
  have plain : (c == ' ' || c == '\t' || c == '\r' || c == '\n') = false := by
    rw [Bool.eq_false_iff]
    intro plain
    simp only [Bool.or_eq_true, beq_iff_eq] at plain
    rcases plain with ((rfl | rfl) | rfl) | rfl <;> exact absurd blank (by decide)
  simp [spanGap?, plain, hash]

/-- The next token: the gap before it, and what follows it. -/
theorem exists_gap_of_cuts {p q : Position} {cs left : List Char} {t : Token} {ts : List Token}
    (cuts : Cuts p cs (t :: ts) q left) (plain : plainBlanks .code cs = true) :
    ∃ gap c rest after, spanGap? false cs = some (gap, c :: rest) ∧
      skipGap false p.line cs = (t.line, c :: rest) ∧ (p.advance gap).line = t.line ∧
      front c rest = .word t.word after ∧ plainBlanks .code after = true ∧
      Cuts ((p.advance gap).advance t.word.spelling) after ts q left := by
  generalize all : t :: ts = tokens at cuts
  induction cuts with
  | stop => cases all
  | @gap p c cs skipped rest tokens q left found more ih =>
    have gapFound := frontGap_of_front found
    obtain ⟨gap, d, word, after, spanned, skips, line, next, plain', cuts'⟩ :=
      ih (gapFound.plainBlanks_rest plain) all
    have nonempty : rest ≠ [] := by
      rintro rfl
      simp [spanGap?] at spanned
    refine ⟨skipped ++ gap, d, word, after, ?_, ?_, ?_, next, plain', ?_⟩
    · rw [spanGap?_gap gapFound plain nonempty, spanned]
      rfl
    · rw [skipGap_gap gapFound plain, skips]
    · rw [Position.advance_append, line]
    · rw [Position.advance_append]
      exact cuts'
  | @word p c cs w rest tokens q left found more ih =>
    cases all
    have close : ∀ skipped rest, front c cs ≠ .gap skipped rest := by
      rw [found]
      exact (by simp)
    exact ⟨[], c, cs, rest, spanGap?_eq_self close, skipGap_eq_self close p.line, rfl, found,
      (frontWord_of_front found).plainBlanks_rest plain, more⟩

/-- A text without tokens is a gap before its rest. -/
theorem skipGap_of_cuts {p q : Position} {cs left : List Char} (cuts : Cuts p cs [] q left)
    (plain : plainBlanks .code cs = true) :
    skipGap false p.line cs = skipGap false q.line left := by
  generalize none : [] = tokens at cuts
  induction cuts with
  | stop => rfl
  | gap found more ih =>
    have gapFound := frontGap_of_front found
    rw [skipGap_gap gapFound plain]
    exact ih (gapFound.plainBlanks_rest plain) none
  | word found more ih => cases none

/-- No more words can be cut off: the text ends, or it goes on with what is no word. -/
def Exhausted : List Char → Prop
  | [] => True
  | c :: cs => ∃ cause, front c cs = .bad cause

/-- A comment at the end of the source is no gap inside a word. -/
theorem spanGap?_open_comment {cs : List Char} (unended : cs.dropWhile (· ≠ '\n') = []) :
    spanGap? true cs = none := by
  induction cs with
  | nil => rfl
  | cons c cs ih =>
    have inside : c ≠ '\n' := by
      rintro rfl
      simp at unended
    have later : cs.dropWhile (· ≠ '\n') = [] := by
      simpa [List.dropWhile_cons, inside] using unended
    have flag : (c != '\n') = true := by simpa using inside
    simp [spanGap?, flag, ih later]

/-- After a gap up to the end of the text nothing is found. -/
theorem spanGap?_last_gap {c : Char} {cs skipped rest : List Char}
    (found : FrontGap c cs skipped rest) (plain : plainBlanks .code (c :: cs) = true)
    (ends : rest = []) (gap : List Char) (d : Char) (after : List Char) :
    spanGap? false (c :: cs) ≠ some (gap, d :: after) := by
  intro spanned
  cases found with
  | blank blank =>
    subst ends
    rcases plain_of_isBlank blank plain with rfl | rfl | rfl | rfl <;> cases spanned
  | comment hash =>
    subst hash
    simp [spanGap?, spanGap?_open_comment ends] at spanned

/-- A word after the gap at the front is the next token. -/
theorem next_word_of_cuts {p q : Position} {cs left gap rest last : List Char} {ts : List Token}
    {d : Char} {w : Word} (cuts : Cuts p cs ts q left) (exhausted : Exhausted left)
    (plain : plainBlanks .code cs = true) (spanned : spanGap? false cs = some (gap, d :: rest))
    (second : front d rest = .word w last) : ∃ t ∈ ts.head?, t.word = w := by
  induction cuts generalizing gap with
  | @stop p cs =>
    cases cs with
    | nil => cases spanned
    | cons c cs =>
      obtain ⟨cause, bad⟩ := exhausted
      rw [spanGap?_eq_self (by simp [bad])] at spanned
      cases spanned
      cases bad.symm.trans second
  | @gap p c cs skipped rest' tokens q left found more ih =>
    have gapFound := frontGap_of_front found
    have nonempty : rest' ≠ [] := fun ends => spanGap?_last_gap gapFound plain ends _ _ _ spanned
    rw [spanGap?_gap gapFound plain nonempty] at spanned
    obtain ⟨⟨gap', rest''⟩, spanned', same⟩ := Option.map_eq_some_iff.1 spanned
    cases same
    exact ih exhausted (gapFound.plainBlanks_rest plain) spanned'
  | @word p c cs w' rest' tokens q left found more ih =>
    rw [spanGap?_eq_self (by simp [found])] at spanned
    cases spanned
    cases found.symm.trans second
    exact ⟨_, rfl, rfl⟩

/-! ## Reserved words -/

@[simp] theorem strip?_append (letters rest : List Char) :
    strip? letters (letters ++ rest) = some rest := by
  induction letters with
  | nil => rfl
  | cons c letters ih => simpa [strip?] using ih

theorem plain_of_mem_letters {k : Keyword} {c : Char} (listed : c ∈ k.letters) :
    isLetter c = true ∧ isBlank c = false ∧ c ≠ '#' := by
  have checked : (Keyword.all.all fun k => k.letters.all fun c =>
      isLetter c && !isBlank c && c != '#') = true := by
    decide +kernel
  have plain := List.all_eq_true.1 (List.all_eq_true.1 checked k (Keyword.mem_all k)) c listed
  simpa [and_assoc] using plain

theorem isWordChar_of_mem_letters {k : Keyword} {c : Char} (listed : c ∈ k.letters) :
    isWordChar c = true :=
  isWordChar_of_opens (by simp [(plain_of_mem_letters listed).1])

theorem takeWhile_of_atBoundary {rest : List Char} (boundary : atBoundary rest = true) :
    rest.takeWhile isWordChar = [] ∧ rest.dropWhile isWordChar = rest := by
  cases rest with
  | nil => exact ⟨rfl, rfl⟩
  | cons c rest =>
    have outside : isWordChar c = false := by simpa [atBoundary] using boundary
    simp [outside]

theorem atBoundary_dropWhile (cs : List Char) : atBoundary (cs.dropWhile isWordChar) = true := by
  cases stopped : cs.dropWhile isWordChar with
  | nil => rfl
  | cons c rest => simp [atBoundary, eq_false_of_dropWhile_eq_cons stopped]

/-- A reserved word that stands by itself is cut off as such. -/
theorem front_of_strip? {k : Keyword} {c : Char} {cs rest : List Char}
    (stripped : strip? k.letters (c :: cs) = some rest) (boundary : atBoundary rest = true) :
    front c cs = .word (.keyword k) rest := by
  have whole := eq_append_of_strip? stripped
  cases letters : k.letters with
  | nil => cases k <;> cases letters
  | cons l ls =>
    rw [letters, List.cons_append] at whole
    cases whole
    have first : c ∈ k.letters := letters ▸ List.mem_cons_self
    obtain ⟨letter, blank, hash⟩ := plain_of_mem_letters first
    have inside : ∀ d ∈ ls, isWordChar d = true := by
      intro d listed
      have member : d ∈ k.letters := letters ▸ List.mem_cons_of_mem c listed
      exact isWordChar_of_mem_letters member
    obtain ⟨taken, dropped⟩ := takeWhile_of_atBoundary boundary
    have known : Keyword.ofLetters? (c :: ls) = some k := Keyword.ofLetters?_eq_some_iff.2 letters
    simp [front, blank, hash, letter, List.takeWhile_append_of_pos inside,
      List.dropWhile_append_of_pos inside, taken, dropped, Word.ofLetters, known]

/-- A reserved word that the tokenizer finds stands there in full and ends at a boundary. -/
theorem letters_of_front {k : Keyword} {c : Char} {cs rest : List Char}
    (found : front c cs = .word (.keyword k) rest) :
    c :: cs = k.letters ++ rest ∧ atBoundary rest = true := by
  have word := frontWord_of_front found
  refine ⟨word.append_eq.symm, ?_⟩
  generalize same : Word.keyword k = w at word
  cases word with
  | letters opens => exact atBoundary_dropWhile cs
  | _ => cases same

/-- A `when` or `check` that the tokenizer finds is found here as well. -/
theorem spanWhen?_of_front {k : Keyword} {c : Char} {cs rest : List Char} (opens : k.opensBranch)
    (found : front c cs = .word (.keyword k) rest) :
    spanWhen? (c :: cs) = some (k.letters, rest) := by
  obtain ⟨whole, boundary⟩ := letters_of_front found
  rw [whole]
  rcases opens with rfl | rfl
  · simp [spanWhen?, boundary]
  · simp [spanWhen?, boundary, strip?, Keyword.letters]

/-- A `when` or `check` that is found here is one for the tokenizer. -/
theorem front_of_spanWhen? {c : Char} {cs word rest : List Char}
    (spanned : spanWhen? (c :: cs) = some (word, rest)) :
    ∃ k : Keyword, k.opensBranch ∧ front c cs = .word (.keyword k) rest := by
  obtain ⟨k, listed, found⟩ := List.exists_of_findSome?_eq_some spanned
  have opens : k.opensBranch := by simpa [Keyword.opensBranch] using listed
  split at found
  · next rest' stripped =>
    split at found
    · next boundary =>
      cases found
      exact ⟨k, opens, front_of_strip? stripped boundary⟩
    · cases found
  · cases found

/-- A gap does not begin with a character of a word. -/
theorem atBoundary_of_spanGap? {cs gap rest : List Char}
    (spanned : spanGap? false cs = some (gap, rest)) (apart : gap ≠ []) : atBoundary cs = true := by
  cases cs with
  | nil => rfl
  | cons c cs =>
    have outside : isWordChar c = true → False := by
      intro inside
      have plain : (c == ' ' || c == '\t' || c == '\r' || c == '\n') = false := by
        rw [Bool.eq_false_iff]
        intro plain
        simp only [Bool.or_eq_true, beq_iff_eq] at plain
        rcases plain with ((rfl | rfl) | rfl) | rfl <;> exact absurd inside (by decide)
      have hash := (outside_of_isWordChar inside).2
      simp only [spanGap?, plain, hash] at spanned
      cases spanned
      exact apart rfl
    simpa [atBoundary] using outside

/-- `otherwise`, and `when` or `check` after it, are found as one word. -/
theorem spanOtherwiseWhen?_of_front {k : Keyword} {c d : Char} {cs after gap rest last : List Char}
    (opens : k.opensBranch) (first : front c cs = .word (.keyword .otherwiseWord) after)
    (spanned : spanGap? false after = some (gap, d :: rest))
    (second : front d rest = .word (.keyword k) last) :
    spanOtherwiseWhen? (c :: cs) =
      some (Keyword.otherwiseWord.letters ++ gap ++ k.letters, last) := by
  obtain ⟨whole, boundary⟩ := letters_of_front first
  have apart : gap ≠ [] := by
    rintro rfl
    have same : after = d :: rest := eq_append_of_spanGap? spanned
    have inside : d ∈ k.letters := by
      rcases opens with rfl | rfl <;> cases (letters_of_front second).1 <;> exact .head _
    rw [same] at boundary
    simp [atBoundary, isWordChar_of_mem_letters inside] at boundary
  rw [whole]
  simp [spanOtherwiseWhen?, spanned, apart, spanWhen?_of_front opens second]

/-- Nothing else is found as `otherwise when`. -/
theorem front_of_spanOtherwiseWhen? {c : Char} {cs letters last : List Char}
    (found : spanOtherwiseWhen? (c :: cs) = some (letters, last)) :
    ∃ after gap d rest, ∃ k : Keyword, front c cs = .word (.keyword .otherwiseWord) after ∧
      spanGap? false after = some (gap, d :: rest) ∧ k.opensBranch ∧
      front d rest = .word (.keyword k) last := by
  simp only [spanOtherwiseWhen?, Option.bind_eq_bind, Option.bind_eq_some_iff] at found
  obtain ⟨after, stripped, ⟨gap, rest⟩, spanned, found⟩ := found
  split at found
  · cases found
  · next apart =>
    obtain ⟨⟨word, last'⟩, whenFound, same⟩ := Option.bind_eq_some_iff.1 found
    cases same
    have boundary := atBoundary_of_spanGap? spanned (by simpa using apart)
    cases rest with
    | nil => cases whenFound
    | cons d rest =>
      obtain ⟨k, opens, second⟩ := front_of_spanWhen? whenFound
      exact ⟨after, gap, d, rest, k, front_of_strip? stripped boundary, spanned, opens, second⟩

/-! ## Symbols -/

/-- A word of fixed letters does not stand where another character is in front. -/
theorem strip?_eq_none_of_head {l : Char} {ls cs : List Char}
    (other : ∀ rest, cs = l :: rest → False) : strip? (l :: ls) cs = none := by
  cases cs with
  | nil => rfl
  | cons c cs =>
    have apart : l ≠ c := by
      rintro rfl
      exact other cs rfl
    simp [strip?, apart]

/-- The symbol cut off is the first in the list that fits. -/
theorem findSome?_of_span? {cs rest : List Char} {s : Symbol}
    (found : Symbol.span? cs = some (s, rest)) :
    fixedSymbols.findSome? (fun s => (strip? s.letters cs).map fun rest => (s, rest)) =
      some (s, rest) := by
  unfold Symbol.span? at found
  split at found <;> cases found
  case h_5 | h_6 | h_7 =>
    next longer =>
    simp [fixedSymbols, Symbol.letters, strip?, strip?_eq_none_of_head longer]
  all_goals simp [fixedSymbols, Symbol.letters, strip?]

theorem not_isWordChar_of_symbol {c : Char} {s : Symbol} {cs rest : List Char}
    (whole : c :: cs = s.letters ++ rest) : isWordChar c = false ∧ c.isDigit = false ∧ c ≠ '"' := by
  cases s <;> cases whole <;> decide

/-- No reserved word stands where no letter is in front. -/
theorem strip?_keyword_eq_none {k : Keyword} {c : Char} {cs : List Char}
    (other : isLetter c = false) : strip? k.letters (c :: cs) = none := by
  rw [Option.eq_none_iff_forall_ne_some]
  intro rest stripped
  have whole := eq_append_of_strip? stripped
  have inside : c ∈ k.letters := by
    cases k <;> cases whole <;> exact .head _
  rw [(plain_of_mem_letters inside).1] at other
  cases other

theorem not_isLetter_of_not_isWordChar {c : Char} (outside : isWordChar c = false) :
    isLetter c = false := by
  rw [Bool.eq_false_iff]
  intro letter
  rw [isWordChar_of_opens (by simp [letter])] at outside
  cases outside

/-- The symbol that the tokenizer finds is found here if it is acceptable: a longer one in its place
would have been found by the tokenizer, too. -/
theorem spanFixed?_symbol {accepts : Terminal → Bool} {c : Char} {cs rest : List Char} {s : Symbol}
    (found : Symbol.span? (c :: cs) = some (s, rest)) (accepted : accepts (.symbol s) = true) :
    spanFixed? accepts (c :: cs) = some (.symbol s, s.letters, rest) := by
  have outside := (not_isWordChar_of_symbol (Symbol.eq_append_of_span? found)).1
  obtain ⟨earlier, first, later, listed, stripped, others⟩ :=
    List.findSome?_eq_some_iff.1 (findSome?_of_span? found)
  obtain ⟨rest', stripped', same⟩ := Option.map_eq_some_iff.1 stripped
  cases same
  have missed : ∀ s' ∈ earlier, strip? s'.letters (c :: cs) = none :=
    fun s' member => Option.map_eq_none_iff.1 (others s' member)
  unfold spanFixed?
  rw [List.findSome?_append, Option.or_eq_some_iff]
  refine .inr ⟨?_, ?_⟩
  · split
    · rfl
    · simp [strip?_keyword_eq_none (not_isLetter_of_not_isWordChar outside)]
  · refine List.findSome?_eq_some_iff.2 ⟨earlier.map fun s => (.symbol s, s.letters),
      (.symbol s, s.letters), later.map fun s => (.symbol s, s.letters), by simp [listed], ?_, ?_⟩
    · simp [accepted, stripped']
    · intro word member
      obtain ⟨s', member', rfl⟩ := List.mem_map.1 member
      simp [missed s' member']

/-! ## Every word -/

/-- Letters that are acceptable as what they are keep their class. -/
theorem classify_of_terminal? {situation : Situation} {letters : List Char} {t : Terminal}
    (known : (Word.ofLetters letters).terminal? = some t) (accepted : situation.accepts t = true) :
    classify situation.accepts letters = t := by
  unfold classify
  unfold Word.ofLetters at known
  split
  · next k found =>
    rw [found] at known
    cases known
    rw [if_pos accepted]
  · next found =>
    rw [found] at known
    cases known
    rfl

/-- Where no name is looked for, a reserved word or a symbol is. -/
theorem cases_of_not_accepts_name {situation : Situation} {t : Terminal}
    (names : situation.accepts .name = false) (accepted : situation.accepts t = true) :
    situation = .assignDue ∧ t = .symbol .assign ∨ situation = .parenDue ∧ t = .symbol .openParen ∨
      situation = .doDue ∧ t = .keyword .doWord := by
  cases situation <;> simp_all [Situation.accepts, Terminal.startsStatement,
    Terminal.startsOperand, Terminal.followsOperand]

theorem terminal?_ofLetters_ne_symbol (letters : List Char) (s : Symbol) :
    (Word.ofLetters letters).terminal? ≠ some (.symbol s) := by
  unfold Word.ofLetters
  split <;> simp [Word.terminal?]

/-- Letters of the class of a reserved word are that word. -/
theorem letters_of_terminal? {letters : List Char} {k : Keyword}
    (known : (Word.ofLetters letters).terminal? = some (.keyword k)) : k.letters = letters := by
  unfold Word.ofLetters at known
  split at known
  · next k' found =>
    cases known
    exact Keyword.ofLetters?_eq_some_iff.1 found
  · cases known

theorem spanFixed?_do (rest : List Char) :
    spanFixed? Situation.doDue.accepts (Keyword.doWord.letters ++ rest) =
      some (.keyword .doWord, Keyword.doWord.letters, rest) :=
  rfl

theorem not_isDecimal_of_opens {c : Char} (opens : (isLetter c || c == '_') = true) :
    isDecimal c = false := by
  rcases Bool.or_eq_true_iff.1 opens with letter | underscore
  · exact not_isDecimal_of_isLetter letter
  · rw [eq_of_beq underscore]
    decide

theorem not_isDigit_of_opens {c : Char} (opens : (isLetter c || c == '_') = true) :
    c.isDigit = false := by
  rw [Bool.eq_false_iff]
  intro digit
  cases (not_isDecimal_of_opens opens).symm.trans (isDecimal_of_isDigit digit)

/-- A name or reserved word is read here as the tokenizer reads it, if it is acceptable as that.
Where names are not acceptable, the fixed letters of the word have to match, and the boundary after
it keeps longer words from matching. -/
theorem spanWord?_letters {situation : Situation} {c : Char} {cs : List Char} {t : Terminal}
    (opens : (isLetter c || c == '_') = true)
    (known : (Word.ofLetters (c :: cs.takeWhile isWordChar)).terminal? = some t)
    (accepted : situation.accepts t = true) :
    spanWord? situation.accepts c cs =
      some (t, c :: cs.takeWhile isWordChar, cs.dropWhile isWordChar) := by
  have inside := isWordChar_of_opens opens
  have decimal := not_isDecimal_of_opens opens
  have digit := not_isDigit_of_opens opens
  cases names : situation.accepts .name with
  | true =>
    simp [spanWord?, digit, names, inside, decimal, classify_of_terminal? known accepted]
  | false =>
    rcases cases_of_not_accepts_name names accepted with
      ⟨rfl, rfl⟩ | ⟨rfl, rfl⟩ | ⟨rfl, rfl⟩
    · exact absurd known (terminal?_ofLetters_ne_symbol _ _)
    · exact absurd known (terminal?_ofLetters_ne_symbol _ _)
    · have letters := letters_of_terminal? known
      have whole : c :: cs = Keyword.doWord.letters ++ cs.dropWhile isWordChar := by
        rw [letters, List.cons_append, List.takeWhile_append_dropWhile]
      have found := spanFixed?_do (cs.dropWhile isWordChar)
      rw [← whole] at found
      rw [← letters]
      exact found

/-- A text is read here as the tokenizer reads it. -/
theorem spanWord?_text {situation : Situation} {cs rest : List Char} {quote : Char}
    (closed : cs.dropWhile (· ≠ '"') = quote :: rest) (accepted : situation.accepts .text = true) :
    spanWord? situation.accepts '"' cs =
      some (.text, '"' :: cs.takeWhile (· ≠ '"') ++ ['"'], rest) := by
  have digit : ('"' : Char).isDigit = false := by decide
  have inside : isWordChar '"' = false := by decide
  unfold spanWord?
  simp only [digit, inside, accepted, Bool.and_false, Bool.false_and, beq_self_eq_true,
    Bool.and_self, Bool.false_eq_true, if_false, if_true, closed]

/-- A word cut off ahead of time is found where it is looked for. -/
theorem spanWord?_of_front {situation : Situation} {c : Char} {cs rest : List Char} {w : Word}
    {t : Terminal} (found : front c cs = .word w rest) (known : w.terminal? = some t)
    (accepted : situation.accepts t = true) :
    spanWord? situation.accepts c cs = some (t, w.spelling, rest) := by
  cases frontWord_of_front found with
  | letters opens =>
    rw [Word.spelling_ofLetters]
    exact spanWord?_letters opens known accepted
  | number digit =>
    cases known
    simp [spanWord?, accepted, digit, Word.spelling]
  | text opens closed =>
    cases known
    subst opens
    simpa [Word.spelling] using spanWord?_text closed accepted
  | symbol spanned =>
    cases known
    obtain ⟨outside, digit, quote⟩ := not_isWordChar_of_symbol (Symbol.eq_append_of_span? spanned)
    simpa [spanWord?, digit, outside, quote, Word.spelling] using spanFixed?_symbol spanned accepted

end Parlance.Contextual
