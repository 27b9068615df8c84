import Parlance.Program
import Parlance.Text.Digit
import Parlance.Token.Scan

/-!
# Words in context

Here words are not cut ahead of time.  What may come next depends on the situation, and only words
acceptable there are looked for: where a name may stand, a reserved word that may not stand there is
read as a name; where no name may stand, a fixed word is read even if more letters follow.
`otherwise` and the `when` or `check` after it are one word.
-/

namespace Parlance.Contextual

/-- The classes of words. -/
inductive Terminal
  | keyword (k : Keyword)
  | symbol (s : Symbol)
  | name
  | number
  | text
  | otherwiseWhen
  deriving DecidableEq, Repr

/-- What has just been read, as far as it decides what may come next.  In the LALR automaton of the
grammar every state has its own acceptable words; a situation stands for all states with the same
ones, and below each is given by the places in the rules where these states are.  Such an automaton
merges what stands around a construct, so a state does not know which blocks or parentheses are
open. -/
inductive Situation
  /-- Before the first word of a program. -/
  | start
  /-- After `set`, `keep`, `change`, `ask` or `loop`. -/
  | nameDue
  /-- After the name that an assignment begins with, and after the name of `set`, `keep`, `change`
  or `loop`. -/
  | assignDue
  /-- After `repeat`. -/
  | parenDue
  /-- After the parenthesis that closes the condition of `repeat`. -/
  | doDue
  /-- After the `do` of `loop` or `repeat`, and after an `otherwise` without a condition: only `end`
  closes these blocks. -/
  | blockStart
  /-- After the `do` of a branch, a semicolon, `break`, `continue`, `end` or the name of `ask`. -/
  | between
  /-- After the sign of an assignment, `say`, `show`, `when`, `check`, `otherwise when`, `to`,
  `and`, `or`, `not`, a comma, the parenthesis of `repeat` or one around an expression. -/
  | operandDue
  /-- After the opening parenthesis of a call. -/
  | argumentDue
  /-- After an operator that binds more tightly than `not`, the minus sign before an operand
  included. -/
  | tightDue
  /-- After a number, a text, a truth value, or the parenthesis that closes a group or a call. -/
  | operandDone
  /-- After a name in an expression. -/
  | nameDone
  deriving DecidableEq, Repr

namespace Terminal

/-- The word can begin a statement, or stand between two. -/
def startsStatement : Terminal → Bool
  | .keyword .setWord | .keyword .keepWord | .keyword .changeWord | .keyword .sayWord
  | .keyword .showWord | .keyword .askWord | .keyword .whenWord | .keyword .checkWord
  | .keyword .loopWord | .keyword .repeatWord | .keyword .breakWord | .keyword .continueWord => true
  | .name | .symbol .semicolon => true
  | _ => false

/-- The word can begin an operand of the tight operators. -/
def startsOperand : Terminal → Bool
  | .number | .text | .name | .keyword .trueWord | .keyword .falseWord => true
  | .symbol .minus | .symbol .openParen => true
  | _ => false

/-- The operator that a word is between two operands. -/
def operator? : Terminal → Option BinaryOp
  | .keyword .orWord => some .or
  | .keyword .andWord => some .and
  | .symbol .equal => some .equal
  | .symbol .unequal => some .unequal
  | .symbol .less => some .less
  | .symbol .lessEqual => some .lessEqual
  | .symbol .greater => some .greater
  | .symbol .greaterEqual => some .greaterEqual
  | .symbol .plus => some .add
  | .symbol .minus => some .subtract
  | .symbol .star => some .multiply
  | .symbol .slash => some .divide
  | .symbol .percent => some .remainder
  | _ => none

/-- The word can close a block or a branch. -/
def closesBlock : Terminal → Bool
  | .keyword .endWord | .keyword .otherwiseWord | .otherwiseWhen => true
  | _ => false

/-- The word can follow a complete operand. -/
def followsOperand (t : Terminal) : Bool :=
  t.startsStatement || t.operator?.isSome || t.closesBlock ||
    t == .keyword .doWord || t == .keyword .toWord || t == .symbol .comma ||
    t == .symbol .closeParen

end Terminal

/-- The words that are looked for in a situation: those for which the states that it stands for
have an action, to shift the word or to reduce before it.  After an operand these are all the words
that can follow an expression anywhere, whatever the expression is for. -/
def Situation.accepts : Situation → Terminal → Bool
  | .start, t => t.startsStatement
  | .nameDue, t => t == .name
  | .assignDue, t => t == .symbol .assign
  | .parenDue, t => t == .symbol .openParen
  | .doDue, t => t == .keyword .doWord
  | .blockStart, t => t.startsStatement || t == .keyword .endWord
  | .between, t => t.startsStatement || t.closesBlock
  | .operandDue, t => t.startsOperand || t == .keyword .notWord
  | .argumentDue, t => t.startsOperand || t == .keyword .notWord || t == .symbol .closeParen
  | .tightDue, t => t.startsOperand
  | .operandDone, t => t.followsOperand
  | .nameDone, t => t.followsOperand || t == .symbol .openParen

/-- A word as it was read. -/
structure Lexeme where
  terminal : Terminal
  letters : List Char
  line : Nat
  deriving DecidableEq, Repr

/-- The blanks that separate words. -/
def isSpace (c : Char) : Bool :=
  c == ' ' || c == '\t' || c == '\x0c' || c == '\r' || c == '\n'

/-- Skips blanks and comments.  The flag says whether a comment is being skipped; the line is that
of the first character. -/
def skipGap : Bool → Nat → List Char → Nat × List Char
  | _, line, [] => (line, [])
  | _, line, '\n' :: cs => skipGap false (line + 1) cs
  | true, line, _ :: cs => skipGap true line cs
  | false, line, c :: cs =>
    if isSpace c then skipGap false line cs
    else if c = '#' then skipGap true line cs
    else (line, c :: cs)

/-- The gap at the front of a text, where a comment has to end with its line.  The flag says whether
a comment is being read. -/
def spanGap? : Bool → List Char → Option (List Char × List Char)
  | true, [] => none
  | true, c :: cs => (spanGap? (c != '\n') cs).map fun (gap, rest) => (c :: gap, rest)
  | false, [] => some ([], [])
  | false, c :: cs =>
    if c == ' ' || c == '\t' || c == '\r' || c == '\n' then
      (spanGap? false cs).map fun (gap, rest) => (c :: gap, rest)
    else if c = '#' then (spanGap? true cs).map fun (gap, rest) => (c :: gap, rest)
    else some ([], c :: cs)

/-- Takes the letters off the front of a text. -/
def strip? : List Char → List Char → Option (List Char)
  | [], cs => some cs
  | l :: ls, c :: cs => if l = c then strip? ls cs else none
  | _ :: _, [] => none

/-- No character of a word is next. -/
def atBoundary : List Char → Bool
  | [] => true
  | c :: _ => !Text.isWordChar c

/-- The whole word `when` or `check` at the front of a text. -/
def spanWhen? (cs : List Char) : Option (List Char × List Char) :=
  [Keyword.whenWord, .checkWord].findSome? fun k =>
    match strip? k.letters cs with
    | some rest => if atBoundary rest then some (k.letters, rest) else none
    | none => none

/-- `otherwise`, a gap, and `when` or `check`, as one word. -/
def spanOtherwiseWhen? (cs : List Char) : Option (List Char × List Char) := do
  let rest ← strip? Keyword.otherwiseWord.letters cs
  let (gap, rest) ← spanGap? false rest
  if gap.isEmpty then none
  let (word, rest) ← spanWhen? rest
  return (Keyword.otherwiseWord.letters ++ gap ++ word, rest)

/-- The words of fixed letters that do not look like names, longer ones first. -/
def fixedSymbols : List Symbol :=
  [.equal, .unequal, .lessEqual, .greaterEqual, .assign, .less, .greater, .plus, .minus, .star,
   .slash, .percent, .openParen, .closeParen, .comma, .semicolon]

/-- The first acceptable word of fixed letters at the front of a text. -/
def spanFixed? (accepts : Terminal → Bool) (cs : List Char) :
    Option (Terminal × List Char × List Char) :=
  let keywords := if accepts .name then [] else Keyword.all.map fun k => (.keyword k, k.letters)
  let symbols := fixedSymbols.map fun s => (Terminal.symbol s, s.letters)
  (keywords ++ symbols).findSome? fun (t, letters) =>
    if accepts t then (strip? letters cs).map fun rest => (t, letters, rest) else none

/-- The class of a word that looks like a name. -/
def classify (accepts : Terminal → Bool) (letters : List Char) : Terminal :=
  match Keyword.ofLetters? letters with
  | some k => if accepts (.keyword k) then .keyword k else .name
  | none => .name

/-- The acceptable word at the front of `c :: cs`: its class, its letters and the rest. -/
def spanWord? (accepts : Terminal → Bool) (c : Char) (cs : List Char) :
    Option (Terminal × List Char × List Char) :=
  if accepts .number && c.isDigit then
    some (.number, spanNumber (c :: cs))
  else if accepts .name && Text.isWordChar c && !Text.isDecimal c then
    let letters := c :: cs.takeWhile Text.isWordChar
    some (classify accepts letters, letters, cs.dropWhile Text.isWordChar)
  else if accepts .text && c == '"' then
    match cs.dropWhile (· ≠ '"') with
    | _ :: rest => some (.text, '"' :: cs.takeWhile (· ≠ '"') ++ ['"'], rest)
    | [] => none
  else spanFixed? accepts (c :: cs)

/-- The acceptable word at the front of `c :: cs`; `otherwise when` goes first. -/
def span? (accepts : Terminal → Bool) (c : Char) (cs : List Char) :
    Option (Terminal × List Char × List Char) :=
  match if accepts .otherwiseWhen then spanOtherwiseWhen? (c :: cs) else none with
  | some found => some (.otherwiseWhen, found)
  | none => spanWord? accepts c cs

theorem eq_append_of_strip? {ls cs rest : List Char} (h : strip? ls cs = some rest) :
    cs = ls ++ rest := by
  fun_induction strip? ls cs with
  | case1 cs => simpa using h
  | case2 _ ls cs ih => simp [ih h]
  | case3 => simp at h
  | case4 => simp at h

/-- A gap is what it takes from the front of the text. -/
theorem eq_append_of_spanGap? {comment : Bool} {cs gap rest : List Char}
    (h : spanGap? comment cs = some (gap, rest)) : cs = gap ++ rest := by
  induction cs generalizing comment gap rest with
  | nil => cases comment <;> simp_all [spanGap?]
  | cons c cs ih =>
    cases comment with
    | true =>
      obtain ⟨⟨g, r⟩, found, eq⟩ := Option.map_eq_some_iff.1 h
      simp only [Prod.mk.injEq] at eq
      rw [← eq.1, ← eq.2, ih found]
      rfl
    | false =>
      rw [spanGap?] at h
      split at h
      · obtain ⟨⟨g, r⟩, found, eq⟩ := Option.map_eq_some_iff.1 h
        simp only [Prod.mk.injEq] at eq
        rw [← eq.1, ← eq.2, ih found]
        rfl
      · split at h
        · obtain ⟨⟨g, r⟩, found, eq⟩ := Option.map_eq_some_iff.1 h
          simp only [Prod.mk.injEq] at eq
          rw [← eq.1, ← eq.2, ih found]
          rfl
        · simp only [Option.some.injEq, Prod.mk.injEq] at h
          rw [← h.1, ← h.2]
          rfl

/-- The word is what it takes from the front of the text. -/
theorem eq_append_of_spanWhen? {cs word rest : List Char}
    (h : spanWhen? cs = some (word, rest)) : cs = word ++ rest := by
  obtain ⟨k, _, found⟩ := List.exists_of_findSome?_eq_some h
  split at found
  · next stripped =>
    split at found
    · simp only [Option.some.injEq, Prod.mk.injEq] at found
      rw [eq_append_of_strip? stripped, found.1, found.2]
    · simp at found
  · simp at found

/-- `otherwise when` leaves less than there was. -/
theorem length_of_spanOtherwiseWhen? {cs letters rest : List Char}
    (h : spanOtherwiseWhen? cs = some (letters, rest)) : rest.length < cs.length := by
  simp only [spanOtherwiseWhen?, Option.bind_eq_bind, Option.bind_eq_some_iff] at h
  obtain ⟨afterWord, stripped, ⟨gap, afterGap⟩, gapFound, h⟩ := h
  split at h
  · simp at h
  · obtain ⟨⟨word, final⟩, whenFound, h⟩ := Option.bind_eq_some_iff.1 h
    simp only [Option.pure_def, Option.some.injEq, Prod.mk.injEq] at h
    have split : afterGap = word ++ final := eq_append_of_spanWhen? whenFound
    have shape := eq_append_of_strip? stripped
    rw [eq_append_of_spanGap? gapFound, split] at shape
    rw [shape, ← h.2]
    simp only [List.length_append, Keyword.letters, List.length_cons]
    omega

theorem length_of_spanFixed? {accepts : Terminal → Bool} {cs letters rest : List Char}
    {t : Terminal} (h : spanFixed? accepts cs = some (t, letters, rest)) :
    rest.length < cs.length := by
  obtain ⟨⟨u, word⟩, listed, found⟩ := List.exists_of_findSome?_eq_some h
  dsimp only at found
  split at found
  · obtain ⟨after, stripped, eq⟩ := Option.map_eq_some_iff.1 found
    simp only [Prod.mk.injEq] at eq
    rw [eq_append_of_strip? stripped, ← eq.2.2, List.length_append]
    have : 0 < word.length := by
      rcases List.mem_append.1 listed with listed | listed
      · split at listed
        · simp at listed
        · obtain ⟨k, _, eq⟩ := List.mem_map.1 listed
          simp only [Prod.mk.injEq] at eq
          rw [← eq.2]
          cases k <;> simp [Keyword.letters]
      · obtain ⟨s, _, eq⟩ := List.mem_map.1 listed
        simp only [Prod.mk.injEq] at eq
        rw [← eq.2]
        cases s <;> simp [Symbol.letters]
    omega
  · simp at found

/-- Whatever word is found, it has at least the character in front. -/
theorem length_of_spanWord? {accepts : Terminal → Bool} {c : Char} {cs letters rest : List Char}
    {t : Terminal} (h : spanWord? accepts c cs = some (t, letters, rest)) :
    rest.length < (c :: cs).length := by
  unfold spanWord? at h
  split at h
  · next digit =>
    simp only [Option.some.injEq, Prod.mk.injEq] at h
    have := length_spanNumber_lt cs (Bool.and_eq_true_iff.1 digit).2
    rw [h.2] at this
    exact this
  · split at h
    · simp only [Option.some.injEq, Prod.mk.injEq] at h
      rw [← h.2.2]
      exact Nat.lt_succ_of_le (length_dropWhile_le _ _)
    · split at h
      · split at h
        · next found =>
          simp only [Option.some.injEq, Prod.mk.injEq] at h
          have := length_dropWhile_le (fun d => decide (d ≠ '"')) cs
          simp only [found, List.length_cons] at this
          rw [← h.2.2, List.length_cons]
          omega
        · simp at h
      · exact length_of_spanFixed? h

/-- A word leaves less than there was.  This is why the parser comes to an end. -/
theorem length_of_span? {accepts : Terminal → Bool} {c : Char} {cs letters rest : List Char}
    {t : Terminal} (h : span? accepts c cs = some (t, letters, rest)) :
    rest.length < (c :: cs).length := by
  unfold span? at h
  split at h
  · next found =>
    simp only [Option.some.injEq, Prod.mk.injEq] at h
    split at found
    · rw [h.2] at found
      exact length_of_spanOtherwiseWhen? found
    · simp at found
  · exact length_of_spanWord? h

/-- Skipping a gap leaves no more than there was. -/
theorem length_skipGap_le (comment : Bool) (line : Nat) (cs : List Char) :
    (skipGap comment line cs).2.length ≤ cs.length := by
  induction cs generalizing comment line with
  | nil => simp [skipGap]
  | cons c cs ih =>
    unfold skipGap
    split
    · simp
    · next same =>
      cases same
      exact Nat.le_succ_of_le (ih _ _)
    · next same =>
      cases same
      exact Nat.le_succ_of_le (ih _ _)
    · next same =>
      cases same
      split
      · exact Nat.le_succ_of_le (ih _ _)
      · split
        · exact Nat.le_succ_of_le (ih _ _)
        · simp

end Parlance.Contextual
