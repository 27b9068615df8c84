import Parlance.Proofs.DescentRoom
import Parlance.Proofs.Words

/-!
# The lines of a source

Every line that recursive descent puts into a program or a report is a line of the source: the line
of one of its tokens, or the one where the source ends.
-/

namespace Parlance

/-! ## The lines of a program -/

mutual

/-- Every line in an expression has a property. -/
def Expr.OnLines (P : Nat → Prop) : Expr → Prop
  | .number _ line | .text _ line | .flag _ line | .name _ line => P line
  | .unary _ operand line => P line ∧ operand.OnLines P
  | .binary _ left right line => P line ∧ left.OnLines P ∧ right.OnLines P
  | .call _ args line => P line ∧ Expr.AllOnLines P args

/-- Every line in some expressions has a property. -/
def Expr.AllOnLines (P : Nat → Prop) : List Expr → Prop
  | [] => True
  | e :: es => e.OnLines P ∧ Expr.AllOnLines P es

end

mutual

/-- Every line in a statement has a property. -/
def Stmt.OnLines (P : Nat → Prop) : Stmt → Prop
  | .declare _ value _ line | .assign _ value line => P line ∧ value.OnLines P
  | .say value line | .display value line => P line ∧ value.OnLines P
  | .ask _ line | .leave line | .next line => P line
  | .choose branches none line => P line ∧ Branch.AllOnLines P branches
  | .choose branches (some body) line =>
    P line ∧ Branch.AllOnLines P branches ∧ Stmt.AllOnLines P body
  | .range _ first last body line =>
    P line ∧ first.OnLines P ∧ last.OnLines P ∧ Stmt.AllOnLines P body
  | .whilst condition body line => P line ∧ condition.OnLines P ∧ Stmt.AllOnLines P body

/-- Every line in a branch has a property. -/
def Branch.OnLines (P : Nat → Prop) : Branch → Prop
  | .mk condition body line => P line ∧ condition.OnLines P ∧ Stmt.AllOnLines P body

/-- Every line in some statements has a property. -/
def Stmt.AllOnLines (P : Nat → Prop) : List Stmt → Prop
  | [] => True
  | s :: ss => s.OnLines P ∧ Stmt.AllOnLines P ss

/-- Every line in some branches has a property. -/
def Branch.AllOnLines (P : Nat → Prop) : List Branch → Prop
  | [] => True
  | b :: bs => b.OnLines P ∧ Branch.AllOnLines P bs

end

section OnLines

variable {P : Nat → Prop}

@[simp] theorem Expr.allOnLines_iff {es : List Expr} :
    Expr.AllOnLines P es ↔ ∀ e ∈ es, e.OnLines P := by
  induction es with
  | nil => simp [Expr.AllOnLines]
  | cons e es ih => simp [Expr.AllOnLines, ih]

@[simp] theorem Stmt.allOnLines_iff {ss : List Stmt} :
    Stmt.AllOnLines P ss ↔ ∀ s ∈ ss, s.OnLines P := by
  induction ss with
  | nil => simp [Stmt.AllOnLines]
  | cons s ss ih => simp [Stmt.AllOnLines, ih]

@[simp] theorem Branch.allOnLines_iff {bs : List Branch} :
    Branch.AllOnLines P bs ↔ ∀ b ∈ bs, b.OnLines P := by
  induction bs with
  | nil => simp [Branch.AllOnLines]
  | cons b bs ih => simp [Branch.AllOnLines, ih]

/-- A choice has the lines of its branches and of its last alternative. -/
theorem Stmt.onLines_choose {branches : List Branch} {last : Option (List Stmt)} {line : Nat} :
    (Stmt.choose branches last line).OnLines P ↔
      P line ∧ (∀ b ∈ branches, b.OnLines P) ∧ ∀ body ∈ last, ∀ s ∈ body, s.OnLines P := by
  cases last with
  | none => simp [Stmt.OnLines]
  | some body => simp [Stmt.OnLines]

theorem Expr.OnLines.line {e : Expr} (lines : e.OnLines P) : P e.line := by
  cases e with
  | number | text | flag | name => exact lines
  | unary | binary | call => exact lines.1

theorem Expr.OnLines.join (op : BinaryOp) {left right : Expr} (leftLines : left.OnLines P)
    (rightLines : right.OnLines P) : (Expr.join op left right).OnLines P :=
  ⟨leftLines.line, leftLines, rightLines⟩

/-- Every line in a phrase has a property. -/
def Phrase.OnLines (P : Nat → Prop) : Phrase → Prop
  | .expr _ e => e.OnLines P
  | .args es => ∀ e ∈ es, e.OnLines P
  | .stmt s => s.OnLines P
  | .body ss => ∀ s ∈ ss, s.OnLines P
  | .tail bs last => (∀ b ∈ bs, b.OnLines P) ∧ ∀ body ∈ last, ∀ s ∈ body, s.OnLines P

/-- The lines in a phrase are lines of its tokens. -/
theorem Derives.onLines {ts : List Token} {phrase : Phrase} (derived : Derives ts phrase)
    (lines : ∀ t ∈ ts, P t.line) : phrase.OnLines P := by
  induction derived with
  | @binary op _ _ _ _ _ _ _ own first second ihFirst ihSecond =>
    simp only [List.forall_mem_append, List.forall_mem_cons] at lines
    exact .join op (ihFirst lines.1) (ihSecond lines.2.2)
  | tighter loose inner ih => exact ih lines
  | choose opens test inside others ihTest ihInside ihOthers =>
    simp only [List.forall_mem_append, List.forall_mem_cons] at lines
    obtain ⟨⟨⟨line, inTest⟩, _, inBody⟩, inOthers⟩ := lines
    obtain ⟨branches, last⟩ := ihOthers inOthers
    refine Stmt.onLines_choose.2 ⟨line, List.forall_mem_cons.2 ⟨?_, branches⟩, last⟩
    exact ⟨line, ihTest inTest, Stmt.allOnLines_iff.2 (ihInside inBody)⟩
  | branch opens test inside others ihTest ihInside ihOthers =>
    simp only [List.forall_mem_append, List.forall_mem_cons] at lines
    obtain ⟨⟨⟨_, line, inTest⟩, _, inBody⟩, inOthers⟩ := lines
    obtain ⟨branches, last⟩ := ihOthers inOthers
    refine ⟨List.forall_mem_cons.2 ⟨?_, branches⟩, last⟩
    exact ⟨line, ihTest inTest, Stmt.allOnLines_iff.2 (ihInside inBody)⟩
  | _ =>
    simp_all only [List.forall_mem_append, List.forall_mem_cons, List.cons_append,
      Phrase.OnLines, Expr.OnLines, Stmt.OnLines, Expr.allOnLines_iff, Stmt.allOnLines_iff,
      List.not_mem_nil, and_self, implies_true, forall_const, IsEmpty.forall_iff,
      Option.mem_some_iff, Option.not_mem_none]

end OnLines

/-! ## The lines of tokens -/

namespace Scan

/-- The tokens stand on lines of the text, and its end on the last one. -/
theorem lines_of_startingAt {p : Position} {cs : List Char} {scan : Scan}
    (scanned : startingAt p cs = .ok scan) :
    (∀ t ∈ scan.tokens, p.line ≤ t.line ∧ t.line ≤ p.line + cs.count '\n') ∧
      scan.finish.line = p.line + cs.count '\n' := by
  fun_induction startingAt p cs generalizing scan with
  | case1 p =>
    cases scanned
    simp
  | case2 p c cs skipped rest found _ ih =>
    obtain ⟨lines, finish⟩ := ih scanned
    rw [← (frontGap_of_front found).append_eq, List.count_append]
    rw [Position.line_advance] at lines finish
    refine ⟨fun t listed => ?_, by omega⟩
    have := lines t listed
    omega
  | case3 p c cs w rest found _ ih =>
    obtain ⟨scan', scanned', same⟩ := exists_of_map_eq_ok scanned
    cases same
    obtain ⟨lines, finish⟩ := ih scanned'
    rw [← (frontWord_of_front found).append_eq, List.count_append]
    rw [Position.line_advance] at lines finish
    refine ⟨List.forall_mem_cons.2 ⟨by simp, fun t listed => ?_⟩, ?_⟩
    · have := lines t listed
      omega
    · simpa [Nat.add_assoc] using finish
  | case4 p c cs cause found => cases scanned

/-- A lexical mistake is on a line between that where the scan starts and the last one. -/
theorem line_of_startingAt_error {p : Position} {cs : List Char} {e : LexicalError}
    (failed : startingAt p cs = .error e) :
    p.line ≤ e.line ∧ e.line ≤ p.line + cs.count '\n' := by
  fun_induction startingAt p cs with
  | case1 p => cases failed
  | case2 p c cs skipped rest found _ ih =>
    have lines := ih failed
    rw [← (frontGap_of_front found).append_eq, List.count_append]
    rw [Position.line_advance] at lines
    omega
  | case3 p c cs w rest found _ ih =>
    have lines := ih (eq_error_of_map failed)
    rw [← (frontWord_of_front found).append_eq, List.count_append]
    rw [Position.line_advance] at lines
    omega
  | case4 p c cs cause found =>
    cases failed
    simp

end Scan

/-! ## What descent says about a source -/

/-- The number of a line of the source. -/
def LineOf (source : String) (n : Nat) : Prop :=
  1 ≤ n ∧ n ≤ 1 + source.toList.count '\n'

/-- The answer of a front end names lines of the source only. -/
def Located (source : String) : Except Mistake Program → Prop
  | .ok p => ∀ s ∈ p.body, s.OnLines (LineOf source)
  | .error m => ∃ n, m.line = lineTree n ∧ LineOf source n

/-- Programs and mistakes of the descent parser have lines of the source. -/
theorem Descent.located_parse (source : String) : Located source (Descent.parse source) := by
  unfold Descent.parse Descent.parseWithin
  split
  · next e failed => exact ⟨e.line, rfl, Scan.line_of_startingAt_error failed⟩
  · next scan scanned =>
    obtain ⟨lines, finish⟩ := Scan.lines_of_startingAt scanned
    split
    · next p accepted => exact (derivedFrom_of_program accepted).onLines lines
    · next refusal refused =>
      unfold Refusal.report
      split
      · next t found => exact ⟨t.line, rfl, lines t (mem_of_program_error refused t found)⟩
      · refine ⟨scan.finish.line, rfl, ?_, Nat.le_of_eq finish⟩
        rw [finish]
        exact Nat.le_add_right _ _

end Parlance
