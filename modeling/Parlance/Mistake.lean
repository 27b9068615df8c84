import Parlance.Problem
import Parlance.Token.Scan

/-!
# Reports of mistakes

A source can fail to be cut into words, its words can fail to be a program, and a program can fail
while it runs.  All three are reported in one form: the kind, the line and the message.
-/

namespace Parlance

/-- What a front end had against a word. -/
inductive Complaint
  | expectedWord (word : Word)
  | expectedName
  | unexpected
  | notAnOperand
  | unclosed (closers : List Keyword)
  | tooDeep
  deriving DecidableEq, Repr

/-- A word that does not fit, or the end of the source.  `shown` is how the message names it. -/
structure SyntaxError where
  line : Nat
  lexeme : String
  shown : String
  complaint : Complaint
  deriving DecidableEq, Repr

/-- The wording of a complaint. -/
def SyntaxError.message (e : SyntaxError) : String :=
  match e.complaint with
  | .expectedWord word => "expected " ++ word.describe ++ ", got " ++ e.shown
  | .expectedName => "expected name, got " ++ e.shown
  | .unexpected => "unexpected token " ++ e.shown
  | .notAnOperand => "unexpected token " ++ e.shown ++ " in expression"
  | .unclosed closers =>
    "unexpected end of input, expected " ++
      " or ".intercalate (closers.map fun k => (Word.keyword k).describe)
  | .tooDeep => Problem.tooDeep.message

/-- The character that a lexical error is about. -/
def LexicalError.char (e : LexicalError) : Char :=
  match e.cause with
  | .unterminatedText => '"'
  | .strayCharacter c => c

/-- The wording of a lexical error. -/
def LexicalError.message (e : LexicalError) : String :=
  match e.cause with
  | .unterminatedText => "unterminated text literal"
  | .strayCharacter c => "unexpected character " ++ Text.quotedChar c

/-- A mistake in a source or in a run. -/
inductive Mistake
  | lexical (error : LexicalError)
  | grammatical (error : SyntaxError)
  | runtime (line : Tree) (problem : Problem)

namespace Mistake

/-- The kind of a mistake. -/
def kind : Mistake → String
  | .lexical _ => "LexError"
  | .grammatical _ => "ParseError"
  | .runtime .. => "RuntimeError"

/-- The line of a mistake. -/
def line : Mistake → Tree
  | .lexical e => lineTree e.line
  | .grammatical e => lineTree e.line
  | .runtime line _ => line

/-- What is wrong. -/
def message : Mistake → String
  | .lexical e => e.message
  | .grammatical e => e.message
  | .runtime _ problem => problem.message

/-- The report of a mistake in one line. -/
def text (m : Mistake) : String :=
  m.kind ++ " at line " ++ m.line.plain ++ ": " ++ m.message

end Mistake

end Parlance
