/-!
# Tokens

The words of the language and where they stand.  A token carries the word itself; `Word.value` is
the text that a report shows for it, and `Word.spelling` the characters that it is written with.
-/

namespace Parlance

/-- The reserved words. -/
inductive Keyword
  | setWord | changeWord | keepWord | sayWord | showWord | askWord | whenWord | checkWord
  | otherwiseWord | doWord | endWord | loopWord | repeatWord | toWord | breakWord | continueWord
  | trueWord | falseWord | andWord | orWord | notWord
  deriving DecidableEq, Repr

namespace Keyword

/-- All reserved words. -/
def all : List Keyword :=
  [.setWord, .changeWord, .keepWord, .sayWord, .showWord, .askWord, .whenWord, .checkWord,
   .otherwiseWord, .doWord, .endWord, .loopWord, .repeatWord, .toWord, .breakWord, .continueWord,
   .trueWord, .falseWord, .andWord, .orWord, .notWord]

/-- The letters of a reserved word. -/
def letters : Keyword → List Char
  | .setWord => ['s', 'e', 't']
  | .changeWord => ['c', 'h', 'a', 'n', 'g', 'e']
  | .keepWord => ['k', 'e', 'e', 'p']
  | .sayWord => ['s', 'a', 'y']
  | .showWord => ['s', 'h', 'o', 'w']
  | .askWord => ['a', 's', 'k']
  | .whenWord => ['w', 'h', 'e', 'n']
  | .checkWord => ['c', 'h', 'e', 'c', 'k']
  | .otherwiseWord => ['o', 't', 'h', 'e', 'r', 'w', 'i', 's', 'e']
  | .doWord => ['d', 'o']
  | .endWord => ['e', 'n', 'd']
  | .loopWord => ['l', 'o', 'o', 'p']
  | .repeatWord => ['r', 'e', 'p', 'e', 'a', 't']
  | .toWord => ['t', 'o']
  | .breakWord => ['b', 'r', 'e', 'a', 'k']
  | .continueWord => ['c', 'o', 'n', 't', 'i', 'n', 'u', 'e']
  | .trueWord => ['t', 'r', 'u', 'e']
  | .falseWord => ['f', 'a', 'l', 's', 'e']
  | .andWord => ['a', 'n', 'd']
  | .orWord => ['o', 'r']
  | .notWord => ['n', 'o', 't']

/-- The reserved word with the given letters. -/
def ofLetters? (word : List Char) : Option Keyword :=
  all.find? fun k => k.letters == word

theorem mem_all (k : Keyword) : k ∈ all := by
  cases k <;> decide

theorem ofLetters?_eq_some_iff {word : List Char} {k : Keyword} :
    ofLetters? word = some k ↔ k.letters = word := by
  constructor
  · intro h
    simpa using List.find?_some h
  · rintro rfl
    cases k <;> decide

end Keyword

/-- Operators and punctuation. -/
inductive Symbol
  | assign | equal | unequal | less | lessEqual | greater | greaterEqual
  | plus | minus | star | slash | percent | openParen | closeParen | comma | semicolon
  deriving DecidableEq, Repr

namespace Symbol

/-- The characters of a symbol. -/
def letters : Symbol → List Char
  | .assign => ['=']
  | .equal => ['=', '=']
  | .unequal => ['!', '=']
  | .less => ['<']
  | .lessEqual => ['<', '=']
  | .greater => ['>']
  | .greaterEqual => ['>', '=']
  | .plus => ['+']
  | .minus => ['-']
  | .star => ['*']
  | .slash => ['/']
  | .percent => ['%']
  | .openParen => ['(']
  | .closeParen => [')']
  | .comma => [',']
  | .semicolon => [';']

/-- Separators, as opposed to operators and parentheses. -/
def isPunctuation : Symbol → Bool
  | .comma | .semicolon => true
  | _ => false

/-- The symbol at the front of a text: the longest one that fits. -/
def span? : List Char → Option (Symbol × List Char)
  | '=' :: '=' :: cs => some (.equal, cs)
  | '!' :: '=' :: cs => some (.unequal, cs)
  | '<' :: '=' :: cs => some (.lessEqual, cs)
  | '>' :: '=' :: cs => some (.greaterEqual, cs)
  | '=' :: cs => some (.assign, cs)
  | '<' :: cs => some (.less, cs)
  | '>' :: cs => some (.greater, cs)
  | '+' :: cs => some (.plus, cs)
  | '-' :: cs => some (.minus, cs)
  | '*' :: cs => some (.star, cs)
  | '/' :: cs => some (.slash, cs)
  | '%' :: cs => some (.percent, cs)
  | '(' :: cs => some (.openParen, cs)
  | ')' :: cs => some (.closeParen, cs)
  | ',' :: cs => some (.comma, cs)
  | ';' :: cs => some (.semicolon, cs)
  | _ => none

theorem eq_append_of_span? {cs rest : List Char} {s : Symbol} (h : span? cs = some (s, rest)) :
    cs = s.letters ++ rest := by
  unfold span? at h
  split at h <;> simp at h <;> obtain ⟨rfl, rfl⟩ := h <;> rfl

end Symbol

/-- A word of the language.  `finish` stands for the end of the source. -/
inductive Word
  | keyword (k : Keyword)
  | name (s : String)
  | number (digits : String)
  | text (content : String)
  | symbol (s : Symbol)
  | finish
  deriving DecidableEq, Repr

namespace Word

/-- The text that reports show for a word; a text literal goes without its quotes. -/
def value : Word → String
  | .keyword k => String.ofList k.letters
  | .name s => s
  | .number digits => digits
  | .text content => content
  | .symbol s => String.ofList s.letters
  | .finish => ""

/-- The characters that a word is written with. -/
def spelling : Word → List Char
  | .keyword k => k.letters
  | .name s => s.toList
  | .number digits => digits.toList
  | .text content => '"' :: content.toList ++ ['"']
  | .symbol s => s.letters
  | .finish => []

/-- How a message names a word. -/
def describe : Word → String
  | .finish => "end of input"
  | .text content => "\"" ++ content ++ "\""
  | w => "'" ++ w.value ++ "'"

end Word

/-- A place in a source: line and column, both counted from one. -/
structure Position where
  line : Nat := 1
  column : Nat := 1
  deriving DecidableEq, Repr

namespace Position

/-- The place after one more character. -/
def step (p : Position) (c : Char) : Position :=
  if c = '\n' then ⟨p.line + 1, 1⟩ else ⟨p.line, p.column + 1⟩

/-- The place after more characters. -/
def advance (p : Position) (cs : List Char) : Position :=
  cs.foldl step p

theorem advance_append (p : Position) (a b : List Char) :
    p.advance (a ++ b) = (p.advance a).advance b := by
  simp [advance]

/-- A text moves a position down by as many lines as it has line feeds. -/
theorem line_advance (p : Position) (cs : List Char) :
    (p.advance cs).line = p.line + cs.count '\n' := by
  induction cs generalizing p with
  | nil => simp [advance]
  | cons c cs ih =>
    have step_line : (p.step c).line = p.line + if c = '\n' then 1 else 0 := by
      unfold step
      split <;> simp
    have := ih (p.step c)
    simp only [advance, List.foldl_cons] at this ⊢
    rw [this, step_line, List.count_cons]
    by_cases h : c = '\n'
    · simp only [h, if_true, beq_self_eq_true]
      omega
    · simp [h]

end Position

/-- A word and the place of its first character. -/
structure Token where
  word : Word
  line : Nat
  column : Nat
  deriving DecidableEq, Repr

end Parlance
