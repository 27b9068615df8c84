import Parlance.Text.Blank
import Parlance.Text.Numeral
import Parlance.Token

/-!
# Cutting a source into tokens

`front` looks at what stands at the front of a text: a gap (a blank or a comment), a word, or
something that is neither.  `Scan.ofSource` repeats it to the end of the source.  Words are as long
as they can be.
-/

namespace Parlance

/-- Why a source cannot be cut into tokens. -/
inductive LexicalCause
  | unterminatedText
  | strayCharacter (c : Char)
  deriving DecidableEq, Repr

/-- A place that cannot be cut into tokens. -/
structure LexicalError where
  line : Nat
  cause : LexicalCause
  deriving DecidableEq, Repr

/-- What stands at the front of a text. -/
inductive Front
  | gap (skipped rest : List Char)
  | word (word : Word) (rest : List Char)
  | bad (cause : LexicalCause)

/-- The digits at the front of a text with their fraction: a point counts only before a digit. -/
def spanNumber (cs : List Char) : List Char × List Char :=
  let whole := cs.takeWhile Char.isDigit
  match cs.dropWhile Char.isDigit with
  | '.' :: d :: rest =>
    if d.isDigit then
      (whole ++ '.' :: (d :: rest).takeWhile Char.isDigit, (d :: rest).dropWhile Char.isDigit)
    else (whole, '.' :: d :: rest)
  | rest => (whole, rest)

/-- The word made of the given letters, reserved or not. -/
def Word.ofLetters (letters : List Char) : Word :=
  match Keyword.ofLetters? letters with
  | some k => .keyword k
  | none => .name (String.ofList letters)

/-- What stands at the front of `c :: cs`. -/
def front (c : Char) (cs : List Char) : Front :=
  if Text.isBlank c then .gap [c] cs
  else if c = '#' then
    .gap (c :: cs.takeWhile (· ≠ '\n')) (cs.dropWhile (· ≠ '\n'))
  else if Text.isLetter c || c == '_' then
    .word (Word.ofLetters (c :: cs.takeWhile Text.isWordChar)) (cs.dropWhile Text.isWordChar)
  else if c.isDigit then
    .word (.number (String.ofList (spanNumber (c :: cs)).1)) (spanNumber (c :: cs)).2
  else if c = '"' then
    match cs.dropWhile (· ≠ '"') with
    | _ :: rest => .word (.text (String.ofList (cs.takeWhile (· ≠ '"')))) rest
    | [] => .bad .unterminatedText
  else
    match Symbol.span? (c :: cs) with
    | some (s, rest) => .word (.symbol s) rest
    | none => .bad (.strayCharacter c)

theorem length_dropWhile_le {α : Type} (p : α → Bool) (l : List α) :
    (l.dropWhile p).length ≤ l.length :=
  (List.dropWhile_sublist p).length_le

/-- A number takes its first digit at least. -/
theorem length_spanNumber_lt {c : Char} (cs : List Char) (h : c.isDigit = true) :
    (spanNumber (c :: cs)).2.length < (c :: cs).length := by
  have whole := length_dropWhile_le Char.isDigit cs
  unfold spanNumber
  simp only [List.dropWhile_cons, h, if_true, List.length_cons]
  split
  · next d rest found =>
    rw [found] at whole
    have fraction := length_dropWhile_le Char.isDigit rest
    simp only [List.length_cons] at whole
    split
    · dsimp only
      omega
    · simp only [List.length_cons]
      omega
  · simp only
    omega

/-- A word leaves less than there was.  This is why the scan comes to an end. -/
theorem length_of_front_word {c : Char} {cs rest : List Char} {w : Word}
    (h : front c cs = .word w rest) : rest.length < (c :: cs).length := by
  unfold front at h
  repeat' split at h
  all_goals try contradiction
  · cases h
    exact Nat.lt_succ_of_le (length_dropWhile_le _ _)
  · next digit =>
    cases h
    exact length_spanNumber_lt cs digit
  · next found =>
    cases h
    have := length_dropWhile_le (fun d => decide (d ≠ '"')) cs
    simp only [found, List.length_cons] at this
    simp only [List.length_cons]
    omega
  · next s _ found =>
    cases h
    rw [Symbol.eq_append_of_span? found, List.length_append]
    have : 0 < s.letters.length := by cases s <;> decide
    omega

/-- A gap leaves less than there was. -/
theorem length_of_front_gap {c : Char} {cs skipped rest : List Char}
    (h : front c cs = .gap skipped rest) : rest.length < (c :: cs).length := by
  unfold front at h
  repeat' split at h
  all_goals try contradiction
  all_goals cases h
  · exact Nat.lt_succ_self _
  · exact Nat.lt_succ_of_le (length_dropWhile_le _ _)

/-- The tokens of a source and the place where it ends. -/
structure Scan where
  tokens : List Token
  finish : Position
  deriving DecidableEq, Repr

namespace Scan

/-- The tokens of a text that starts at the given place. -/
def startingAt (p : Position) : List Char → Except LexicalError Scan
  | [] => .ok ⟨[], p⟩
  | c :: cs =>
    match h : front c cs with
    | .gap skipped rest =>
      have := length_of_front_gap h
      startingAt (p.advance skipped) rest
    | .word w rest =>
      have := length_of_front_word h
      (startingAt (p.advance w.spelling) rest).map fun scan =>
        { scan with tokens := ⟨w, p.line, p.column⟩ :: scan.tokens }
    | .bad cause => .error ⟨p.line, cause⟩
termination_by cs => cs.length
decreasing_by all_goals exact this

/-- The tokens of a source. -/
def ofSource (source : String) : Except LexicalError Scan :=
  startingAt {} source.toList

/-- The tokens with the one that stands for the end of the source. -/
def toList (scan : Scan) : List Token :=
  scan.tokens ++ [⟨.finish, scan.finish.line, scan.finish.column⟩]

end Scan

end Parlance
