/-!
# Lines of a text

Three ways of cutting a text into lines are in use: `splitLines` breaks at every line boundary of
Unicode, `newlineLines` at the line feed alone, and `unifyNewlines` first turns the carriage return
forms into line feeds, as a file opened in text mode does.
-/

namespace Parlance.Text

/-- The character ends a line. -/
def isLineBreak (c : Char) : Bool :=
  c == '\n' || c == '\r' || c == '\x0b' || c == '\x0c' || c == '\x1c' || c == '\x1d' ||
    c == '\x1e' || c == '\u0085' || c == '\u2028' || c == '\u2029'

/-- The lines of `current.reverse ++ cs`, where `current` holds no boundary. -/
def splitLinesFrom (current : List Char) : List Char → List (List Char)
  | [] => if current.isEmpty then [] else [current.reverse]
  | '\r' :: '\n' :: cs => current.reverse :: splitLinesFrom [] cs
  | c :: cs =>
    if isLineBreak c then current.reverse :: splitLinesFrom [] cs
    else splitLinesFrom (c :: current) cs

/-- The lines of a text, cut at every line boundary; a boundary at the very end opens no line. -/
def splitLines (text : String) : List String :=
  (splitLinesFrom [] text.toList).map String.ofList

/-- The lines of `current.reverse ++ cs`, where `current` holds no line feed. -/
def newlineLinesFrom (current : List Char) : List Char → List (List Char)
  | [] => if current.isEmpty then [] else [current.reverse]
  | '\n' :: cs => current.reverse :: newlineLinesFrom [] cs
  | c :: cs => newlineLinesFrom (c :: current) cs

/-- The lines of a text, cut at line feeds only. -/
def newlineLines (text : String) : List String :=
  (newlineLinesFrom [] text.toList).map String.ofList

/-- Every `\r\n` and every other `\r` becomes `\n`. -/
def unifyNewlines : List Char → List Char
  | [] => []
  | '\r' :: '\n' :: cs => '\n' :: unifyNewlines cs
  | '\r' :: cs => '\n' :: unifyNewlines cs
  | c :: cs => c :: unifyNewlines cs

/-- A line without the carriage returns and line feeds at its end. -/
def chopLineEnd (line : String) : String :=
  String.ofList (line.toList.reverse.dropWhile fun c => c == '\r' || c == '\n').reverse

/-- Plain line ends have no carriage return. -/
theorem unifyNewlines_noReturn (cs : List Char) : '\r' ∉ unifyNewlines cs := by
  fun_induction unifyNewlines cs with
  | case1 => simp
  | case2 cs ih => simp [ih]
  | case3 cs _ ih => simp [ih]
  | case4 c cs _ h ih =>
    simp only [List.mem_cons, ih, or_false]
    exact fun e => h e.symm

theorem unifyNewlines_eq_self {cs : List Char} (plain : '\r' ∉ cs) : unifyNewlines cs = cs := by
  fun_induction unifyNewlines cs with
  | case1 => rfl
  | case2 cs ih => simp at plain
  | case3 cs _ ih => simp at plain
  | case4 c cs _ _ ih => rw [ih fun mem => plain (List.mem_cons_of_mem c mem)]

end Parlance.Text
