import Parlance.Proofs.ContextualLexing
import Parlance.Proofs.ContextualTracking

/-!
# The stack machine goes through a source

When the machine passes tokens, it finds each of them in the source where it was cut off, so it
comes to the same place as the tokens do (`parseFrom_of_passes`).  At a token that it is stuck at it
reports a grammatical mistake on the line of that token, whatever it takes the token for, and at a
character that begins no word a lexical one.
-/

namespace Parlance.Contextual

open Text

/-! ## Words that fit -/

/-- At the end of the source the program is what the state finishes with. -/
theorem parseFrom_finish {s : State} {line : Nat} {cs : List Char} {body : List Stmt}
    (skipped : (skipGap false line cs).2 = []) (finished : s.finish? = some body) :
    parseFrom s line cs = .ok ⟨body.reverse⟩ := by
  rw [parseFrom]
  split
  · rw [finished]
  · next skips =>
    rw [skips] at skipped
    cases skipped

/-- A word that is found and fits brings the machine to its next state. -/
theorem parseFrom_word {s s' : State} {line here : Nat} {c : Char}
    {cs rest letters after : List Char} {t : Terminal}
    (skipped : skipGap false line cs = (here, c :: rest))
    (found : span? s.situation.accepts c rest = some (t, letters, after))
    (stepped : s.step ⟨t, letters, here⟩ = some s') :
    parseFrom s line cs = parseFrom s' (here + letters.count '\n') after := by
  rw [parseFrom]
  split
  · next skips =>
    rw [skips] at skipped
    cases skipped
  · next skips =>
    cases skips.symm.trans skipped
    split
    · next missed =>
      rw [missed] at found
      cases found
    · next spanned =>
      cases spanned.symm.trans found
      split
      · next stuck =>
        rw [stuck] at stepped
        cases stepped
      · next moved =>
        cases moved.symm.trans stepped
        rfl

/-- A token that is no `otherwise` before a branch is found as it was cut. -/
theorem span?_of_front {situation : Situation} {c : Char} {cs after left : List Char} {w : Word}
    {t : Terminal} {p q : Position} {ts : List Token} (found : front c cs = .word w after)
    (known : w.terminal? = some t) (accepted : situation.accepts t = true)
    (plain : plainBlanks .code after = true) (cuts : Cuts p after ts q left)
    (exhausted : Exhausted left) (apart : w = .keyword .otherwiseWord → ¬ OpensBranch ts) :
    span? situation.accepts c cs = some (t, w.spelling, after) := by
  have single : spanOtherwiseWhen? (c :: cs) = none := by
    rw [Option.eq_none_iff_forall_ne_some]
    rintro ⟨letters, last⟩ together
    obtain ⟨after', gap, d, rest, k, first, spanned, opens, second⟩ :=
      front_of_spanOtherwiseWhen? together
    cases found.symm.trans first
    obtain ⟨next, head, same⟩ := next_word_of_cuts cuts exhausted plain spanned second
    refine apart rfl ?_
    cases ts with
    | nil => cases head
    | cons u ts =>
      cases head
      obtain ⟨word, line, column⟩ := next
      subst same
      exact opens
  unfold span?
  simp [single, spanWord?_of_front found known accepted]

/-- The machine comes through the source to where the tokens that it has passed end. -/
theorem parseFrom_of_passes {s s' : State} {ts us : List Token} (passes : Passes s ts s' us)
    {p q : Position} {cs left : List Char} (plain : plainBlanks .code cs = true)
    (cuts : Cuts p cs ts q left) (exhausted : Exhausted left) :
    ∃ p' cs', plainBlanks .code cs' = true ∧ Cuts p' cs' us q left ∧
      parseFrom s p.line cs = parseFrom s' p'.line cs' := by
  induction passes generalizing p cs with
  | refl => exact ⟨p, cs, plain, cuts, rfl⟩
  | @word s s' s'' t ts us terminal known accepted stepped apart more ih =>
    obtain ⟨gap, c, rest, after, _, skipped, line, found, plain', cuts'⟩ :=
      exists_gap_of_cuts cuts plain
    have spanned := span?_of_front found known accepted plain' cuts' exhausted apart
    obtain ⟨p', cs', plain'', cuts'', same⟩ := ih plain' cuts'
    refine ⟨p', cs', plain'', cuts'', ?_⟩
    rw [parseFrom_word skipped spanned stepped, ← same, Position.line_advance _ t.word.spelling,
      line]
  | @otherwiseWhen s s' s'' ts us k l c line column opens accepted stepped more ih =>
    -- The machine takes the gap and the second word together with the first.
    obtain ⟨_, d, rest, after, _, skipped, lineFirst, first, plain', cuts'⟩ :=
      exists_gap_of_cuts cuts plain
    obtain ⟨gap, d', rest', last, spanned, _, lineSecond, second, plain'', cuts''⟩ :=
      exists_gap_of_cuts cuts' plain'
    have together : span? s.situation.accepts d rest =
        some (.otherwiseWhen, Keyword.otherwiseWord.letters ++ gap ++ k.letters, last) := by
      unfold span?
      rw [if_pos accepted, spanOtherwiseWhen?_of_front opens first spanned second]
    have unbroken : k.letters.count '\n' = 0 := by
      rcases opens with rfl | rfl <;> decide
    rw [Position.line_advance, Position.line_advance, lineFirst] at lineSecond
    have lines : l + (Keyword.otherwiseWord.letters ++ gap ++ k.letters).count '\n' = line := by
      rw [List.count_append, List.count_append, unbroken, Nat.add_zero, ← Nat.add_assoc]
      exact lineSecond
    obtain ⟨p', cs', plain₃, cuts₃, same⟩ := ih plain'' cuts''
    refine ⟨p', cs', plain₃, cuts₃, ?_⟩
    rw [parseFrom_word skipped together (stepped _ lines), ← same,
      Position.line_advance, Position.line_advance, Position.line_advance, lineFirst]
    simp [List.count_append, Nat.add_assoc, Word.spelling]

/-! ## Words that do not fit -/

/-- Where no acceptable word can be read, the machine stops. -/
theorem parseFrom_unreadable {s : State} {line here : Nat} {c : Char} {cs rest : List Char}
    (skipped : skipGap false line cs = (here, c :: rest))
    (missed : span? s.situation.accepts c rest = none) :
    parseFrom s line cs = .error (unreadable here c rest) := by
  rw [parseFrom]
  split
  · next skips => cases skips.symm.trans skipped
  · next skips =>
    cases skips.symm.trans skipped
    split
    · rfl
    · next spanned => cases missed.symm.trans spanned

/-- At a word that is found and does not fit, the machine stops. -/
theorem parseFrom_unexpected {s : State} {line here : Nat} {c : Char}
    {cs rest letters after : List Char} {t : Terminal}
    (skipped : skipGap false line cs = (here, c :: rest))
    (found : span? s.situation.accepts c rest = some (t, letters, after))
    (stuck : s.step ⟨t, letters, here⟩ = none) :
    parseFrom s line cs = .error (unexpectedWord ⟨t, letters, here⟩) := by
  rw [parseFrom]
  split
  · next skips => cases skips.symm.trans skipped
  · next skips =>
    cases skips.symm.trans skipped
    split
    · next missed => cases missed.symm.trans found
    · next spanned =>
      cases spanned.symm.trans found
      split
      · rfl
      · next moved => cases stuck.symm.trans moved

/-- A source that ends in a state that cannot finish is refused. -/
theorem parseFrom_unexpectedEnd {s : State} {line here : Nat} {cs : List Char}
    (skipped : skipGap false line cs = (here, [])) (unfinished : s.finish? = none) :
    parseFrom s line cs = .error (unexpectedEnd here) := by
  rw [parseFrom]
  split
  · next skips =>
    cases skips.symm.trans skipped
    rw [unfinished]
  · next skips => cases skips.symm.trans skipped

/-- The source is refused for its grammar, on the line. -/
def RefusedOn (line : Nat) (result : Except Mistake Program) : Prop :=
  ∃ e : SyntaxError, result = .error (.grammatical e) ∧ e.line = line

theorem strip?_symbol_eq_none {c : Char} {cs : List Char} (symbol : Symbol)
    (other : isWordChar c = true ∨ c.isDigit = true ∨ c = '"') :
    strip? symbol.letters (c :: cs) = none := by
  rw [Option.eq_none_iff_forall_ne_some]
  intro rest stripped
  obtain ⟨outside, digit, quote⟩ := not_isWordChar_of_symbol (eq_append_of_strip? stripped)
  rcases other with inside | digit' | quote'
  · cases outside.symm.trans inside
  · cases digit.symm.trans digit'
  · exact quote quote'

/-- No word of fixed letters is found if none of the acceptable ones stands there. -/
theorem spanFixed?_eq_none {accepts : Terminal → Bool} {cs : List Char}
    (keywords : ∀ k : Keyword, accepts (.keyword k) = true → strip? k.letters cs = none)
    (symbols : ∀ s : Symbol, accepts (.symbol s) = true → strip? s.letters cs = none) :
    spanFixed? accepts cs = none := by
  unfold spanFixed?
  rw [List.findSome?_eq_none_iff]
  rintro ⟨t, letters⟩ listed
  dsimp only
  split
  · next accepted =>
    rw [Option.map_eq_none_iff]
    rcases List.mem_append.1 listed with listed | listed
    · split at listed
      · cases listed
      · obtain ⟨k, _, same⟩ := List.mem_map.1 listed
        cases same
        exact keywords k accepted
    · obtain ⟨s, _, same⟩ := List.mem_map.1 listed
      cases same
      exact symbols s accepted
  · rfl

/-- The symbol at the front is the longest, so another one that fits is a part of it. -/
theorem symbol_cases {symbol shorter : Symbol} {cs rest rest' : List Char}
    (found : Symbol.span? cs = some (symbol, rest))
    (stripped : strip? shorter.letters cs = some rest') :
    shorter = symbol ∨ symbol = .equal ∧ shorter = .assign ∨
      symbol = .lessEqual ∧ shorter = .less ∨ symbol = .greaterEqual ∧ shorter = .greater := by
  unfold Symbol.span? at found
  split at found <;> cases found <;> cases shorter <;> simp_all [strip?, Symbol.letters]
  all_goals
    next longer => exact longer _ (eq_append_of_strip? stripped)

/-- What is neither a number, a name nor a text is looked for among the words of fixed letters. -/
theorem spanWord?_eq_spanFixed? {accepts : Terminal → Bool} {c : Char} {cs : List Char}
    (number : (accepts .number && c.isDigit) = false)
    (name : (accepts .name && isWordChar c && !isDecimal c) = false)
    (text : (accepts .text && c == '"') = false) :
    spanWord? accepts c cs = spanFixed? accepts (c :: cs) := by
  unfold spanWord?
  rw [number, name, text]
  rfl

theorem situation_eq_of_assign {situation : Situation}
    (accepted : situation.accepts (.symbol .assign) = true) : situation = .assignDue := by
  cases situation with
  | assignDue => rfl
  | _ => cases accepted

/-- A symbol that is not looked for is not found; but where `=` is due it is found in `==`. -/
theorem spanWord?_symbol {situation : Situation} {c : Char} {cs rest : List Char} {symbol : Symbol}
    (found : Symbol.span? (c :: cs) = some (symbol, rest))
    (unseen : situation.accepts (.symbol symbol) = false) :
    spanWord? situation.accepts c cs = none ∨
      symbol = .equal ∧ situation = .assignDue ∧
        spanWord? situation.accepts c cs = some (.symbol .assign, ['='], '=' :: rest) := by
  obtain ⟨outside, digit, quote⟩ := not_isWordChar_of_symbol (Symbol.eq_append_of_span? found)
  rw [spanWord?_eq_spanFixed? (by simp [digit]) (by simp [outside]) (by simp [quote])]
  by_cases assigning : symbol = .equal ∧ situation = .assignDue
  · obtain ⟨rfl, rfl⟩ := assigning
    refine .inr ⟨rfl, rfl, ?_⟩
    rw [Symbol.eq_append_of_span? found]
    rfl
  · refine .inl (spanFixed?_eq_none (fun k _ => ?_) fun s accepted => ?_)
    · exact strip?_keyword_eq_none (not_isLetter_of_not_isWordChar outside)
    · rw [Option.eq_none_iff_forall_ne_some]
      intro rest' stripped
      rcases symbol_cases found stripped with rfl | ⟨rfl, rfl⟩ | ⟨rfl, rfl⟩ | ⟨rfl, rfl⟩
      · cases unseen.symm.trans accepted
      · exact assigning ⟨rfl, situation_eq_of_assign accepted⟩
      · cases situation <;> cases accepted <;> cases unseen
      · cases situation <;> cases accepted <;> cases unseen

/-- Letters of the class of names are that name. -/
theorem ofLetters_eq_name {letters : List Char}
    (known : (Word.ofLetters letters).terminal? = some .name) :
    Word.ofLetters letters = .name (String.ofList letters) := by
  unfold Word.ofLetters at known ⊢
  split
  · next reserved =>
    rw [reserved] at known
    cases known
  · rfl

/-- Letters that are not looked for are read as a name where one may stand, and nowhere else; but
where `do` is due it is found in a longer word. -/
theorem spanWord?_letters_unseen {situation : Situation} {c : Char} {cs : List Char} {t : Terminal}
    (opens : (isLetter c || c == '_') = true)
    (known : (Word.ofLetters (c :: cs.takeWhile isWordChar)).terminal? = some t)
    (unseen : situation.accepts t = false) :
    situation.accepts .name = true ∧ (∃ k, t = .keyword k) ∧
        spanWord? situation.accepts c cs =
          some (.name, c :: cs.takeWhile isWordChar, cs.dropWhile isWordChar) ∨
      situation = .doDue ∧ t = .name ∧
        Keyword.doWord.letters <+: c :: cs.takeWhile isWordChar ∨
      spanWord? situation.accepts c cs = none := by
  have inside := isWordChar_of_opens opens
  have decimal := not_isDecimal_of_opens opens
  have digit := not_isDigit_of_opens opens
  have quote := (outside_of_isWordChar inside).1
  cases names : situation.accepts .name with
  | true =>
    obtain ⟨k, rfl, reserved⟩ : ∃ k, t = .keyword k ∧
        Keyword.ofLetters? (c :: cs.takeWhile isWordChar) = some k := by
      unfold Word.ofLetters at known
      split at known
      · next k reserved =>
        cases known
        exact ⟨k, rfl, reserved⟩
      · cases known
        cases names.symm.trans unseen
    refine .inl ⟨rfl, ⟨k, rfl⟩, ?_⟩
    simp [spanWord?, digit, names, inside, decimal, classify, reserved, unseen]
  | false =>
    refine .inr ?_
    rw [spanWord?_eq_spanFixed? (by simp [digit]) (by simp [names]) (by simp [quote])]
    by_cases longer : situation = .doDue ∧ Keyword.doWord.letters <+: c :: cs.takeWhile isWordChar
    · obtain ⟨rfl, longer⟩ := longer
      refine .inl ⟨rfl, ?_, longer⟩
      unfold Word.ofLetters at known
      split at known
      · next k reserved =>
        cases known
        rw [← Keyword.ofLetters?_eq_some_iff.1 reserved] at longer
        have only : k = .doWord := by
          revert longer
          cases k <;> decide
        rw [only] at unseen
        cases unseen
      · cases known
        rfl
    · refine .inr (spanFixed?_eq_none (fun k accepted => ?_) fun s _ =>
        strip?_symbol_eq_none s (.inl inside))
      rcases cases_of_not_accepts_name names accepted with ⟨_, same⟩ | ⟨_, same⟩ | ⟨due, same⟩
      · cases same
      · cases same
      · cases same
        rw [Option.eq_none_iff_forall_ne_some]
        intro rest stripped
        refine longer ⟨due, ?_⟩
        cases eq_append_of_strip? stripped
        have second : isWordChar 'o' = true := by decide
        simp [second, Keyword.letters]

/-- A word that is not looked for. -/
theorem spanWord?_unseen {situation : Situation} {c : Char} {cs after : List Char} {w : Word}
    {t : Terminal} (found : front c cs = .word w after) (known : w.terminal? = some t)
    (unseen : situation.accepts t = false) :
    spanWord? situation.accepts c cs = none ∨
      (∃ k letters rest, w = .keyword k ∧ situation.accepts .name = true ∧
        spanWord? situation.accepts c cs = some (.name, letters, rest)) ∨
      (∃ name, w = .name name ∧ situation = .doDue ∧ Keyword.doWord.letters <+: name.toList) ∨
      w = .symbol .equal ∧ situation = .assignDue ∧
        spanWord? situation.accepts c cs = some (.symbol .assign, ['='], '=' :: after) := by
  cases frontWord_of_front found with
  | letters opens =>
    rcases spanWord?_letters_unseen opens known unseen with
      ⟨names, ⟨k, same⟩, some⟩ | ⟨due, same, longer⟩ | none
    · exact .inr (.inl ⟨k, _, _, unique_keyword (same ▸ known), names, some⟩)
    · refine .inr (.inr (.inl ⟨String.ofList (c :: cs.takeWhile isWordChar), ?_, due, ?_⟩))
      · subst same
        exact ofLetters_eq_name known
      · rwa [String.toList_ofList]
    · exact .inl none
  | number digit =>
    cases known
    left
    have decimal := isDecimal_of_isDigit digit
    have quote : c ≠ '"' := by
      rintro rfl
      cases digit
    rw [spanWord?_eq_spanFixed? (by simp [unseen]) (by simp [decimal]) (by simp [quote])]
    exact spanFixed?_eq_none (fun k _ => strip?_keyword_eq_none (not_isLetter_of_isDigit digit))
      fun s _ => strip?_symbol_eq_none s (.inr (.inl digit))
  | text opens closed =>
    cases known
    left
    subst opens
    have inside : isWordChar '"' = false := by decide
    have digit : ('"' : Char).isDigit = false := by decide
    rw [spanWord?_eq_spanFixed? (by simp [digit]) (by simp [inside]) (by simp [unseen])]
    exact spanFixed?_eq_none
      (fun k _ => strip?_keyword_eq_none (not_isLetter_of_not_isWordChar inside))
      fun s _ => strip?_symbol_eq_none s (.inr (.inr rfl))
  | symbol spanned =>
    cases known
    rcases spanWord?_symbol spanned unseen with none | ⟨rfl, due, some⟩
    · exact .inl none
    · exact .inr (.inr (.inr ⟨rfl, due, some⟩))

theorem terminal?_of_front {c : Char} {cs after : List Char} {w : Word}
    (found : front c cs = .word w after) : ∃ t, w.terminal? = some t := by
  cases frontWord_of_front found with
  | letters opens =>
    unfold Word.ofLetters
    split <;> exact ⟨_, rfl⟩
  | _ => exact ⟨_, rfl⟩

/-- Some word is found at every token if all words are looked for. -/
theorem spanWord?_all {c : Char} {cs after : List Char} {w : Word}
    (found : front c cs = .word w after) : spanWord? (fun _ => true) c cs ≠ none := by
  cases frontWord_of_front found with
  | letters opens =>
    have inside := isWordChar_of_opens opens
    have decimal := not_isDecimal_of_opens opens
    have digit := not_isDigit_of_opens opens
    simp [spanWord?, digit, inside, decimal]
  | number digit => simp [spanWord?, digit]
  | text opens closed =>
    subst opens
    have inside : isWordChar '"' = false := by decide
    have digit : ('"' : Char).isDigit = false := by decide
    simp only [spanWord?, digit, inside, closed]
    simp
  | symbol spanned =>
    obtain ⟨outside, digit, quote⟩ := not_isWordChar_of_symbol (Symbol.eq_append_of_span? spanned)
    rw [spanWord?_eq_spanFixed? (by simp [digit]) (by simp [outside]) (by simp [quote]),
      spanFixed?_symbol spanned rfl]
    simp

/-- What stands where a token is cut off is a word. -/
theorem refusedOn_unreadable {c : Char} {cs after : List Char} {w : Word}
    (found : front c cs = .word w after) (line : Nat) :
    RefusedOn line (.error (unreadable line c cs)) := by
  unfold unreadable
  split
  · exact ⟨_, rfl, rfl⟩
  · next missed =>
    unfold span? at missed
    split at missed
    · cases missed
    · exact absurd missed (spanWord?_all found)

/-- Where `=` is due but `==` stands, the second half of it is refused. -/
theorem refusedOn_second_assign {blocks : List Open} {done : List Stmt} {purpose : Purpose}
    (line : Nat) (cs : List Char) :
    RefusedOn line (parseFrom ⟨blocks, done, .operand purpose []⟩ line ('=' :: cs)) := by
  obtain ⟨symbol, rest, spanned, unseen⟩ : ∃ symbol rest,
      Symbol.span? ('=' :: cs) = some (symbol, rest) ∧
        Situation.operandDue.accepts (.symbol symbol) = false := by
    cases cs with
    | nil => exact ⟨.assign, [], rfl, rfl⟩
    | cons d cs =>
      by_cases more : d = '='
      · subst more
        exact ⟨.equal, cs, rfl, rfl⟩
      · exact ⟨.assign, d :: cs, by simp [Symbol.span?, more], rfl⟩
  have found : front '=' cs = .word (.symbol symbol) rest := by
    have blank : isBlank '=' = false := by decide
    have letter : isLetter '=' = false := by decide
    have digit : ('=' : Char).isDigit = false := by decide
    simp [front, blank, letter, digit, spanned]
  have missed : span? Situation.operandDue.accepts '=' cs = none := by
    rcases spanWord?_symbol spanned unseen with none | ⟨_, due, _⟩
    · exact none
    · cases due
  have read : parseFrom ⟨blocks, done, .operand purpose []⟩ line ('=' :: cs) =
      .error (unreadable line '=' cs) :=
    parseFrom_unreadable (skipGap_eq_self (by simp [found]) line) missed
  rw [read]
  exact refusedOn_unreadable found line

/-- At a token that it is stuck at, the machine refuses the source. -/
theorem refusedOn_of_stuck {s : State} {t : Token} {line : Nat} {c : Char}
    {cs rest after : List Char} (stuck : Stuck s t)
    (skipped : skipGap false line cs = (t.line, c :: rest))
    (found : front c rest = .word t.word after) : RefusedOn t.line (parseFrom s line cs) := by
  obtain ⟨terminal, known⟩ := terminal?_of_front found
  -- What the machine finds instead of the token does not fit either.
  have refused {terminal' : Terminal} {letters after' : List Char}
      (spans : span? s.situation.accepts c rest = some (terminal', letters, after'))
      (stops : s.step ⟨terminal', letters, t.line⟩ = none) :
      RefusedOn t.line (parseFrom s line cs) := by
    rw [parseFrom_unexpected skipped spans stops]
    exact ⟨_, rfl, rfl⟩
  cases spans : span? s.situation.accepts c rest with
  | none =>
    rw [parseFrom_unreadable skipped spans]
    exact refusedOn_unreadable found t.line
  | some word =>
    obtain ⟨terminal', letters, after'⟩ := word
    have spans' := spans
    unfold span? at spans'
    split at spans'
    · next together =>
      cases spans'
      split at together
      · next accepted =>
        obtain ⟨_, _, _, _, _, first, _⟩ := front_of_spanOtherwiseWhen? together
        have same : t.word = .keyword .otherwiseWord := by
          injection found.symm.trans first
        exact refused spans (stuck.joined same accepted _ _)
      · cases together
    · by_cases accepted : s.situation.accepts terminal = true
      · rw [spanWord?_of_front found known accepted] at spans'
        cases spans'
        exact refused spans (stuck.own _ known accepted _ _)
      · have unseen : s.situation.accepts terminal = false := by simpa using accepted
        rcases spanWord?_unseen found known unseen with
          none | ⟨k, letters', rest', same, names, some⟩ | ⟨name, same, due, longer⟩ |
            ⟨same, due, some⟩
        · cases none.symm.trans spans'
        · cases some.symm.trans spans'
          rw [same] at known
          cases known
          exact refused spans (stuck.renamed k same unseen names _ _)
        · exact absurd longer (stuck.partly due name same)
        · cases some.symm.trans spans'
          obtain ⟨blocks, done, point⟩ := s
          cases point with
          | assignment purpose =>
            rw [parseFrom_word skipped spans rfl]
            exact refusedOn_second_assign t.line after
          | statement situation => exact refused spans rfl
          | operand purpose pending =>
            rcases operandSituation_cases pending with other | other | other <;>
              cases due.symm.trans other
          | _ => cases due

/-! ## Characters that begin no word -/

/-- The character is taken for the first one of a name here, though it is no letter: it has a
numeric value, but is no digit. -/
def opensNameOnly (c : Char) : Bool :=
  isWordChar c && !isDecimal c

/-- Where the tokenizer finds no symbol, none stands there. -/
theorem strip?_of_span?_eq_none {cs : List Char} (missed : Symbol.span? cs = none)
    (symbol : Symbol) : strip? symbol.letters cs = none := by
  rw [Option.eq_none_iff_forall_ne_some]
  intro rest stripped
  have whole := eq_append_of_strip? stripped
  unfold Symbol.span? at missed
  split at missed
  case h_17 =>
    next equal unequal lessEqual greaterEqual assign less greater plus minus star slash percent
      openParen closeParen comma semicolon =>
    cases symbol with
    | equal => exact equal rest whole
    | unequal => exact unequal rest whole
    | lessEqual => exact lessEqual rest whole
    | greaterEqual => exact greaterEqual rest whole
    | assign => exact assign rest whole
    | less => exact less rest whole
    | greater => exact greater rest whole
    | plus => exact plus rest whole
    | minus => exact minus rest whole
    | star => exact star rest whole
    | slash => exact slash rest whole
    | percent => exact percent rest whole
    | openParen => exact openParen rest whole
    | closeParen => exact closeParen rest whole
    | comma => exact comma rest whole
    | semicolon => exact semicolon rest whole
  all_goals cases missed

/-- A character that is no part of any token is no part of a word in any situation, unless names may
begin with it here and not there. -/
theorem span?_bad {c : Char} {cs : List Char} {cause : LexicalCause} (accepts : Terminal → Bool)
    (bad : front c cs = .bad cause) (foreign : opensNameOnly c = false) :
    span? accepts c cs = none := by
  have single : spanOtherwiseWhen? (c :: cs) = none := by
    rw [Option.eq_none_iff_forall_ne_some]
    rintro ⟨letters, last⟩ together
    obtain ⟨_, _, _, _, _, first, _⟩ := front_of_spanOtherwiseWhen? together
    cases bad.symm.trans first
  have missed : spanWord? accepts c cs = none := by
    cases frontBad_of_front bad with
    | text opens unclosed =>
      subst opens
      have inside : isWordChar '"' = false := by decide
      have digit : ('"' : Char).isDigit = false := by decide
      cases texts : accepts .text with
      | true =>
        simp only [spanWord?, digit, inside, texts, unclosed]
        simp
      | false =>
        rw [spanWord?_eq_spanFixed? (by simp [digit]) (by simp [inside]) (by simp [texts])]
        exact spanFixed?_eq_none
          (fun k _ => strip?_keyword_eq_none (not_isLetter_of_not_isWordChar inside))
          fun s _ => strip?_symbol_eq_none s (.inr (.inr rfl))
    | stray quote letter digit missed =>
      rw [spanWord?_eq_spanFixed? (by simp [digit]) ?_ (by simp [quote])]
      · exact spanFixed?_eq_none (fun k _ => strip?_keyword_eq_none letter)
          fun s _ => strip?_of_span?_eq_none missed s
      · rw [Bool.and_assoc]
        unfold opensNameOnly at foreign
        rw [foreign, Bool.and_false]
  unfold span?
  rw [single, ite_self]
  exact missed

/-- There the machine reports the same mistake as the words do. -/
theorem parseFrom_bad {s : State} {line here : Nat} {c : Char} {cs rest : List Char}
    {cause : LexicalCause} (skipped : skipGap false line cs = (here, c :: rest))
    (bad : front c rest = .bad cause) (foreign : opensNameOnly c = false) :
    parseFrom s line cs = .error (.lexical ⟨here, cause⟩) := by
  rw [parseFrom_unreadable skipped (span?_bad _ bad foreign)]
  unfold unreadable
  rw [span?_bad _ bad foreign]
  cases frontBad_of_front bad with
  | text opens unclosed => simp [opens]
  | stray quote letter digit missed => simp [quote]

end Parlance.Contextual
