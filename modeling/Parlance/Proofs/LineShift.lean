import Parlance.Proofs.SourceLines

/-!
# Sources under one another

Moving a program down by some lines adds their number to all its lines.  A text after which a line
break stands is cut into tokens as it is alone: no gap and no word goes on past the break, for a
text literal is closed before it.  So the tokens of two sources under one another are those of the
first and then those of the second, moved down.
-/

namespace Parlance

/-! ## Moving down -/

/-- The place so many lines further down. -/
def Position.moved (k : Nat) (p : Position) : Position :=
  ⟨p.line + k, p.column⟩

/-- The token so many lines further down. -/
def Token.moved (k : Nat) (t : Token) : Token :=
  ⟨t.word, t.line + k, t.column⟩

mutual

/-- The expression so many lines further down. -/
def Expr.moved (k : Nat) : Expr → Expr
  | .number value line => .number value (line + k)
  | .text content line => .text content (line + k)
  | .flag value line => .flag value (line + k)
  | .name id line => .name id (line + k)
  | .unary op operand line => .unary op (operand.moved k) (line + k)
  | .binary op left right line => .binary op (left.moved k) (right.moved k) (line + k)
  | .call id args line => .call id (Expr.allMoved k args) (line + k)

/-- The expressions so many lines further down. -/
def Expr.allMoved (k : Nat) : List Expr → List Expr
  | [] => []
  | e :: es => e.moved k :: Expr.allMoved k es

end

mutual

/-- The statement so many lines further down. -/
def Stmt.moved (k : Nat) : Stmt → Stmt
  | .declare name value fixed line => .declare name (value.moved k) fixed (line + k)
  | .assign name value line => .assign name (value.moved k) (line + k)
  | .say value line => .say (value.moved k) (line + k)
  | .display value line => .display (value.moved k) (line + k)
  | .ask name line => .ask name (line + k)
  | .choose branches none line => .choose (Branch.allMoved k branches) none (line + k)
  | .choose branches (some body) line =>
    .choose (Branch.allMoved k branches) (some (Stmt.allMoved k body)) (line + k)
  | .range name first last body line =>
    .range name (first.moved k) (last.moved k) (Stmt.allMoved k body) (line + k)
  | .whilst condition body line =>
    .whilst (condition.moved k) (Stmt.allMoved k body) (line + k)
  | .leave line => .leave (line + k)
  | .next line => .next (line + k)

/-- The branch so many lines further down. -/
def Branch.moved (k : Nat) : Branch → Branch
  | .mk condition body line => .mk (condition.moved k) (Stmt.allMoved k body) (line + k)

/-- The statements so many lines further down. -/
def Stmt.allMoved (k : Nat) : List Stmt → List Stmt
  | [] => []
  | s :: ss => s.moved k :: Stmt.allMoved k ss

/-- The branches so many lines further down. -/
def Branch.allMoved (k : Nat) : List Branch → List Branch
  | [] => []
  | b :: bs => b.moved k :: Branch.allMoved k bs

end

/-- The program so many lines further down. -/
def Program.moved (k : Nat) (p : Program) : Program :=
  ⟨Stmt.allMoved k p.body⟩

theorem Expr.line_moved (k : Nat) (e : Expr) : (e.moved k).line = e.line + k := by
  cases e <;> rfl

theorem Expr.moved_join (k : Nat) (op : BinaryOp) (left right : Expr) :
    (Expr.join op left right).moved k = Expr.join op (left.moved k) (right.moved k) := by
  rw [Expr.join, Expr.join, Expr.moved, Expr.line_moved]

theorem Stmt.moved_choose (k : Nat) (branches : List Branch) (last : Option (List Stmt))
    (line : Nat) :
    (Stmt.choose branches last line).moved k =
      .choose (Branch.allMoved k branches) (last.map (Stmt.allMoved k)) (line + k) := by
  cases last <;> rfl

/-! ### Not moving at all -/

mutual

theorem Expr.moved_zero : (e : Expr) → e.moved 0 = e
  | .number .. | .text .. | .flag .. | .name .. => rfl
  | .unary op operand line => by rw [moved, operand.moved_zero, Nat.add_zero]
  | .binary op left right line => by
    rw [moved, left.moved_zero, right.moved_zero, Nat.add_zero]
  | .call id args line => by rw [moved, Expr.allMoved_zero args, Nat.add_zero]

theorem Expr.allMoved_zero : (es : List Expr) → Expr.allMoved 0 es = es
  | [] => rfl
  | e :: es => by rw [allMoved, e.moved_zero, Expr.allMoved_zero es]

end

mutual

/-- Moving by no lines moves nothing. -/
theorem Stmt.moved_zero : (s : Stmt) → s.moved 0 = s
  | .declare name value fixed line => by rw [Stmt.moved, value.moved_zero, Nat.add_zero]
  | .assign name value line => by rw [Stmt.moved, value.moved_zero, Nat.add_zero]
  | .say value line => by rw [Stmt.moved, value.moved_zero, Nat.add_zero]
  | .display value line => by rw [Stmt.moved, value.moved_zero, Nat.add_zero]
  | .ask .. => rfl
  | .choose branches none line => by rw [Stmt.moved, Branch.allMoved_zero branches, Nat.add_zero]
  | .choose branches (some body) line => by
    rw [Stmt.moved, Branch.allMoved_zero branches, Stmt.allMoved_zero body, Nat.add_zero]
  | .range name first last body line => by
    rw [Stmt.moved, first.moved_zero, last.moved_zero, Stmt.allMoved_zero body, Nat.add_zero]
  | .whilst condition body line => by
    rw [Stmt.moved, condition.moved_zero, Stmt.allMoved_zero body, Nat.add_zero]
  | .leave .. | .next .. => rfl

theorem Branch.moved_zero : (b : Branch) → b.moved 0 = b
  | .mk condition body line => by
    rw [Branch.moved, condition.moved_zero, Stmt.allMoved_zero body, Nat.add_zero]

theorem Stmt.allMoved_zero : (ss : List Stmt) → Stmt.allMoved 0 ss = ss
  | [] => rfl
  | s :: ss => by rw [Stmt.allMoved, s.moved_zero, Stmt.allMoved_zero ss]

theorem Branch.allMoved_zero : (bs : List Branch) → Branch.allMoved 0 bs = bs
  | [] => rfl
  | b :: bs => by rw [Branch.allMoved, b.moved_zero, Branch.allMoved_zero bs]

end

/-! ## The seam -/

section Seam

variable {c : Char} {cs skipped rest : List Char} {w : Word}

theorem takeWhile_append_break {p : Char → Bool} (stops : p '\n' = false) (cs more : List Char) :
    (cs ++ '\n' :: more).takeWhile p = cs.takeWhile p := by
  induction cs with
  | nil => simp [stops]
  | cons c cs ih => simp only [List.cons_append, List.takeWhile_cons, ih]

theorem dropWhile_append_break {p : Char → Bool} (stops : p '\n' = false) (cs more : List Char) :
    (cs ++ '\n' :: more).dropWhile p = cs.dropWhile p ++ '\n' :: more := by
  induction cs with
  | nil => simp [stops]
  | cons c cs ih =>
    simp only [List.cons_append, List.dropWhile_cons, ih]
    split <;> rfl

theorem dropWhile_append_of_cons {p : Char → Bool} {c : Char} (stopped : cs.dropWhile p = c :: rest)
    (more : List Char) : (cs ++ more).dropWhile p = c :: rest ++ more := by
  rw [List.dropWhile_append, stopped]
  rfl

theorem takeWhile_append_of_cons {p : Char → Bool} {c : Char} (stopped : cs.dropWhile p = c :: rest)
    (more : List Char) : (cs ++ more).takeWhile p = cs.takeWhile p := by
  have whole := congrArg List.length (List.takeWhile_append_dropWhile (p := p) (l := cs))
  rw [stopped, List.length_append, List.length_cons] at whole
  rw [List.takeWhile_append, if_neg (by omega)]

/-- A line break ends a number, whatever comes behind it. -/
theorem spanNumber_append_break (cs more : List Char) :
    spanNumber (cs ++ '\n' :: more) = ((spanNumber cs).1, (spanNumber cs).2 ++ '\n' :: more) := by
  have stops : Char.isDigit '\n' = false := by decide
  unfold spanNumber
  rw [takeWhile_append_break stops, dropWhile_append_break stops]
  rcases cs.dropWhile Char.isDigit with _ | ⟨c, _ | ⟨d, rest⟩⟩
  · rfl
  · by_cases point : c = '.'
    · subst point
      rfl
    · simp [point]
  · by_cases point : c = '.'
    · subst point
      by_cases digit : d.isDigit = true
      · have tail := takeWhile_append_break stops (d :: rest) more
        have tail' := dropWhile_append_break stops (d :: rest) more
        simp only [List.cons_append] at tail tail'
        simp [digit, tail, tail']
      · simp [digit]
    · simp [point]

/-- A line break makes no symbol longer. -/
theorem span?_append_break {s : Symbol} (found : Symbol.span? cs = some (s, rest))
    (more : List Char) :
    Symbol.span? (cs ++ '\n' :: more) = some (s, rest ++ '\n' :: more) := by
  -- A symbol that `=` could go on with is not followed by it.
  have apart {rest : List Char} (other : ∀ cs, rest = '=' :: cs → False) :
      ∀ cs, rest ++ '\n' :: more = '=' :: cs → False := by
    intro cs same
    cases rest with
    | nil => cases same
    | cons d rest =>
      cases same
      exact other rest rfl
  unfold Symbol.span? at found
  split at found
  all_goals cases found
  all_goals first
    | rfl
    | rw [List.cons_append, Symbol.span?]
      exact apart ‹_›

/-- A gap that ends before a line break. -/
theorem front_gap_append_break (found : front c cs = .gap skipped rest) (more : List Char) :
    front c (cs ++ '\n' :: more) = .gap skipped (rest ++ '\n' :: more) := by
  unfold front at found ⊢
  split_ifs at found ⊢ with blank hash letter digit quote
  · cases found
    rfl
  · cases found
    rw [takeWhile_append_break (by decide), dropWhile_append_break (by decide)]
  all_goals first
    | cases found
    | split at found <;> cases found

/-- A word that ends before a line break. -/
theorem front_word_append_break (found : front c cs = .word w rest) (more : List Char) :
    front c (cs ++ '\n' :: more) = .word w (rest ++ '\n' :: more) := by
  unfold front at found ⊢
  split_ifs at found ⊢ with blank hash letter digit quote
  · cases found
    have stops : Text.isWordChar '\n' = false := by decide
    rw [takeWhile_append_break stops, dropWhile_append_break stops]
  · cases found
    rw [← List.cons_append, spanNumber_append_break]
  · split at found
    · next closing after closed =>
      cases found
      rw [dropWhile_append_of_cons closed, takeWhile_append_of_cons closed]
      rfl
    · cases found
  · split at found
    · next spanned =>
      cases found
      rw [← List.cons_append, span?_append_break spanned]
    · cases found

/-- A moved position advances as the position does. -/
theorem Position.advance_moved (k : Nat) (p : Position) (cs : List Char) :
    (p.moved k).advance cs = (p.advance cs).moved k := by
  induction cs generalizing p with
  | nil => rfl
  | cons c cs ih =>
    have step : (p.moved k).step c = (p.step c).moved k := by
      unfold Position.step Position.moved
      split <;> simp only [Nat.add_right_comm]
    have later := ih (p.step c)
    simp only [Position.advance, List.foldl_cons] at later ⊢
    rw [step, later]

/-- A text is cut in the same way wherever it starts. -/
theorem Cuts.moved {p q : Position} {left : List Char} {ts : List Token}
    (cuts : Cuts p cs ts q left) (k : Nat) :
    Cuts (p.moved k) cs (ts.map (Token.moved k)) (q.moved k) left := by
  induction cuts with
  | stop => exact .stop
  | gap found _ ih =>
    rw [← Position.advance_moved] at ih
    exact .gap found ih
  | word found _ ih =>
    rw [← Position.advance_moved] at ih
    exact .word found ih

/-- A text is cut in the same way before a line break. -/
theorem Cuts.append_break {p q : Position} {ts : List Token} (cuts : Cuts p cs ts q [])
    (more : List Char) : Cuts p (cs ++ '\n' :: more) ts q ('\n' :: more) := by
  generalize none : [] = left at cuts
  induction cuts with
  | stop =>
    subst none
    exact .stop
  | gap found _ ih => exact .gap (front_gap_append_break found more) (ih none)
  | word found _ ih => exact .word (front_word_append_break found more) (ih none)

theorem Cuts.trans {p q r : Position} {middle left : List Char} {ts us : List Token}
    (first : Cuts p cs ts q middle) (second : Cuts q middle us r left) :
    Cuts p cs (ts ++ us) r left := by
  induction first with
  | stop => exact second
  | gap found _ ih => exact .gap found (ih second)
  | word found _ ih => exact .word found (ih second)

/-- The tokens of two sources under one another. -/
theorem Scan.ofSource_joined {upper lower : String} {first second : Scan}
    (firstScanned : Scan.ofSource upper = .ok first)
    (secondScanned : Scan.ofSource lower = .ok second) :
    let k := upper.toList.count '\n' + 1
    Scan.ofSource (upper ++ "\n" ++ lower) =
      .ok ⟨first.tokens ++ second.tokens.map (Token.moved k), second.finish.moved k⟩ := by
  intro k
  have above := (cuts_of_startingAt firstScanned).append_break lower.toList
  have below := (cuts_of_startingAt secondScanned).moved k
  have seam : first.finish.advance ['\n'] = Position.moved k {} := by
    have last : first.finish.line = 1 + upper.toList.count '\n' :=
      (Scan.lines_of_startingAt firstScanned).2
    simp only [Position.advance, List.foldl_cons, List.foldl_nil, Position.step, Position.moved,
      if_true, last, k, Nat.add_assoc]
  rw [← seam] at below
  have whole := above.trans (.gap (by rfl) below)
  have joined : (upper ++ "\n" ++ lower).toList = upper.toList ++ '\n' :: lower.toList := by
    simp [String.toList_append]
  rw [Scan.ofSource, joined, whole.startingAt_eq, Scan.startingAt, Except.map, List.append_nil]

end Seam

end Parlance
