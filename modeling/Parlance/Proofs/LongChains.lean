import Mathlib
import Parlance.Proofs.CodecRoundTrip
import Parlance.Proofs.Covering
import Parlance.Proofs.Rejection

/-!
# Long chains

The operands of a chain of operators are read one after the other, so a chain takes the parser no
room however long it is.  But every operator has all that stands before it as its left operand, and
the tree of a chain is as deep as the chain is long.  The codec goes down that side of the tree like
any other: whatever its room is, the parser returns programs that it does not write.
-/

namespace Parlance

/-! ## The source of a long sum -/

/-- A source that shows a sum with so many additions. -/
def additions (n : Nat) : String :=
  "show 1" ++ String.join (List.replicate n " + 1")

/-- The words of so many additions, with the blanks before them. -/
def terms : Nat → List Piece
  | 0 => []
  | n + 1 => ⟨[' '], .symbol .plus⟩ :: ⟨[' '], .number "1"⟩ :: terms n

/-- The words of the source, with the blanks before them. -/
def additionPieces (n : Nat) : List Piece :=
  ⟨[], .keyword .showWord⟩ :: ⟨[' '], .number "1"⟩ :: terms n

/-- The words of so many additions spell them out. -/
theorem spellOut_terms (n : Nat) :
    spellOut (terms n) = (String.join (List.replicate n " + 1")).toList := by
  rw [String.toList_join]
  induction n with
  | zero => rfl
  | succ n ih =>
    rw [terms, spellOut_cons, spellOut_cons, ih, List.replicate_succ, List.flatMap_cons]
    rfl

theorem length_terms (n : Nat) : (terms n).length = 2 * n := by
  induction n with
  | zero => rfl
  | succ n ih =>
    rw [terms, List.length_cons, List.length_cons, ih]
    omega

theorem forall_mem_terms {holds : Piece → Prop} (plus : holds ⟨[' '], .symbol .plus⟩)
    (one : holds ⟨[' '], .number "1"⟩) (n : Nat) : ∀ piece ∈ terms n, holds piece := by
  induction n with
  | zero => exact List.forall_mem_nil _
  | succ n ih => exact List.forall_mem_cons.2 ⟨plus, List.forall_mem_cons.2 ⟨one, ih⟩⟩

/-- The words and blanks of the source are one of its covers. -/
theorem covers_additionPieces (n : Nat) : Covers [] (additionPieces n) := by
  have blank : Gap [' '] := .blank rfl .nothing
  have one : (Word.number "1").WellFormed := .inl (by simp [IsDigits])
  refine covers_of_separated ?_ ?_ ?_ .nothing
  · refine List.forall_mem_cons.2 ⟨trivial, List.forall_mem_cons.2 ⟨one, ?_⟩⟩
    exact forall_mem_terms trivial one n
  · refine List.forall_mem_cons.2 ⟨.nothing, List.forall_mem_cons.2 ⟨blank, ?_⟩⟩
    exact forall_mem_terms blank blank n
  · exact List.forall_mem_cons.2 ⟨by simp, forall_mem_terms (by simp) (by simp) n⟩

/-- The source is cut into its words. -/
theorem exists_scan_additions (n : Nat) :
    ∃ scan, Scan.ofSource (additions n) = .ok scan ∧
      scan.tokens.map Token.word = (additionPieces n).map Piece.word := by
  have whole : (additions n).toList = spellOut (additionPieces n) ++ [] := by
    rw [List.append_nil, additions, String.toList_append, additionPieces, spellOut_cons,
      spellOut_cons, spellOut_terms]
    rfl
  exact ⟨_, Scan.ofSource_of_covers whole (covers_additionPieces n) (.gap .nothing),
    words_tokensAfter [] _⟩

/-! ## Reading it -/

/-- A sum of numbers with so many additions, put together from the left. -/
inductive IsSum : Nat → Expr → Prop
  | number {x line} : IsSum 0 (.number x line)
  | add {n left x line place} (sum : IsSum n left) :
    IsSum (n + 1) (.binary .add left (.number x line) place)

namespace Descent

/-- A number that an addition or nothing follows is a whole product. -/
theorem expression_product_number {bound room line column : Nat} {digits : String}
    {rest : List Token} (next : ∀ t ∈ rest.head?, t.word = .symbol .plus) :
    expression bound (room + 3) .product (⟨.number digits, line, column⟩ :: rest) =
      .ok (.number (Number.literal digits) line, rest) := by
  rw [expression_of_isBinary rfl, chain]
  have operand : expression bound (room + 2) .sign (⟨.number digits, line, column⟩ :: rest) =
      .ok (.number (Number.literal digits) line, rest) := rfl
  show expression bound (room + 2) .sign _ >>= _ = _
  rw [operand]
  exact chainAfter_of_none fun t mem => by rw [next t mem]; rfl

/-- An addition begins with its sign. -/
theorem head_of_terms {n : Nat} {ts : List Token}
    (words : ts.map Token.word = (terms n).map Piece.word) :
    ∀ t ∈ ts.head?, t.word = .symbol .plus := by
  cases n with
  | zero =>
    obtain rfl := List.map_eq_nil_iff.1 words
    exact fun t mem => by cases mem
  | succ n =>
    obtain ⟨t, rest, rfl, word, -⟩ := List.map_eq_cons_iff.1 words
    rintro _ ⟨⟩
    exact word

/-- The additions that follow a sum are put onto it one after the other. -/
theorem chainAfter_terms {bound room n : Nat} {ts : List Token}
    (words : ts.map Token.word = (terms n).map Piece.word) {m left : Nat} {e : Expr}
    (sum : IsSum m e) (enough : n ≤ left) :
    ∃ whole, IsSum (m + n) whole ∧
      chainAfter (expression bound (room + 3) .product) .sum left e ts = .ok (whole, []) := by
  induction n generalizing m left e ts with
  | zero =>
    obtain rfl := List.map_eq_nil_iff.1 words
    exact ⟨e, sum, chainAfter_of_none fun t mem => by cases mem⟩
  | succ n ih =>
    obtain ⟨left, rfl⟩ : ∃ k, left = k + 1 := Nat.exists_eq_add_one.2 (by omega)
    obtain ⟨⟨_, l, c⟩, us, rfl, rfl, others⟩ := List.map_eq_cons_iff.1 words
    obtain ⟨⟨_, l', c'⟩, rest, rfl, rfl, more⟩ := List.map_eq_cons_iff.1 others
    have operand := @expression_product_number bound room l' c' "1" rest (head_of_terms more)
    obtain ⟨whole, counted, read⟩ := ih more (.add sum) (Nat.le_of_succ_le_succ enough)
    refine ⟨whole, by rwa [Nat.add_right_comm m 1 n] at counted, ?_⟩
    show expression bound (room + 3) .product _ >>= _ = _
    rw [operand]
    exact read

/-- What the tighter level reads up to the end, a level of operators reads as well. -/
theorem expression_of_tighter {bound room : Nat} {level : Level} {ts : List Token} {e : Expr}
    (binary : level.isBinary = true)
    (read : expression bound room level.tighter ts = .ok (e, [])) :
    expression bound (room + 1) level ts = .ok (e, []) := by
  rw [expression_of_isBinary binary, chain, read]
  exact chainAfter_of_none fun t mem => by cases mem

/-- The parser reads a long sum in nine units of room, one for each level down to a number. -/
theorem expression_additions {bound room n line column : Nat} {ts : List Token}
    (words : ts.map Token.word = (terms n).map Piece.word) (enough : n ≤ bound) :
    ∃ e, IsSum n e ∧ expression bound (room + 9) .disjunction
      (⟨.number "1", line, column⟩ :: ts) = .ok (e, []) := by
  have operand := @expression_product_number bound room line column "1" ts (head_of_terms words)
  obtain ⟨e, counted, read⟩ := @chainAfter_terms bound room n ts words 0 bound _ .number enough
  rw [Nat.zero_add] at counted
  have sum : expression bound (room + 4) .sum (⟨.number "1", line, column⟩ :: ts) =
      .ok (e, []) := by
    rw [expression_of_isBinary rfl]
    show expression bound (room + 3) .product _ >>= _ = _
    rw [operand]
    exact read
  have equality : expression bound (room + 6) .equality (⟨.number "1", line, column⟩ :: ts) =
      .ok (e, []) := expression_of_tighter rfl (expression_of_tighter rfl sum)
  have plain : ¬ BeginsWith (.keyword .notWord) (⟨.number "1", line, column⟩ :: ts) := by
    rintro ⟨_, _, _, ⟨⟩⟩
  have negation : expression bound (room + 7) .negation (⟨.number "1", line, column⟩ :: ts) =
      .ok (e, []) := (expression_negation plain).trans equality
  exact ⟨e, counted, expression_of_tighter rfl (expression_of_tighter rfl negation)⟩

/-- A parser that has room for ten levels reads a sum of any length. -/
theorem parseWithin_additions (n room : Nat) :
    ∃ e line, IsSum n e ∧
      parseWithin (room + 10) (additions n) = .ok ⟨[.display e line]⟩ := by
  obtain ⟨scan, scanned, words⟩ := exists_scan_additions n
  obtain ⟨⟨_, line, c⟩, us, tokens, rfl, others⟩ := List.map_eq_cons_iff.1 words
  obtain ⟨⟨_, l', c'⟩, rest, rfl, rfl, more⟩ := List.map_eq_cons_iff.1 others
  have count : rest.length = 2 * n := by
    have same := congrArg List.length more
    rwa [List.length_map, List.length_map, length_terms] at same
  generalize size : scan.tokens.length = bound
  rw [tokens, List.length_cons, List.length_cons, count] at size
  obtain ⟨e, sum, read⟩ := @expression_additions bound room n l' c' rest more (by omega)
  have shown : statement bound (room + 10)
      (⟨.keyword .showWord, line, c⟩ :: ⟨.number "1", l', c'⟩ :: rest) =
        .ok (.display e line, []) := by
    show expression bound (room + 9) .disjunction _ >>= _ = _
    rw [read]
    rfl
  have body : sequence (statement bound (room + 10)) [] bound scan.tokens =
      .ok ([.display e line], []) := by
    rw [tokens, ← size, sequence_of_other (by simp) (by simp), size, shown]
    simp only [bind, Except.bind, sequence_of_nil]
    rfl
  refine ⟨e, line, sum, parseWithin_eq_ok_iff.2 ⟨scan, scanned, ?_⟩⟩
  rw [program, tokens, List.length_cons, List.length_cons, count, size, ← tokens, body]
  rfl

end Descent

/-! ## The depth of the tree -/

open Parlance.Tree (depth_form_node_le_iff depth_form_list_le_iff)

theorem IsSum.lt_depth {n : Nat} {e : Expr} (sum : IsSum n e) : n < e.toTree.form.depth := by
  induction sum with
  | number => exact Json.depth_pos _
  | @add n left x line place sum ih =>
    rw [← Nat.not_le] at ih ⊢
    intro fits
    exact ih ((depth_form_node_le_iff rfl).1 fits _ (by simp [Expr.toTree, Tree.parts]))

/-- The tree of a program is deeper than what its statement shows. -/
theorem depth_of_display_le {e : Expr} {line room : Nat}
    (fits : (Program.toTree ⟨[.display e line]⟩).form.depth ≤ room) :
    e.toTree.form.depth ≤ room := by
  have known : (Program.toTree ⟨[.display e line]⟩).kind? = some .program := rfl
  have body := (depth_form_node_le_iff known).1 (Nat.le_succ_of_le fits) _
    (List.mem_singleton_self _)
  have shown := depth_form_list_le_iff.1 (Nat.le_add_right_of_le body) _
    (List.mem_singleton_self _)
  exact (depth_form_node_le_iff rfl).1 (Nat.le_succ_of_le shown) _ (.head _)

/-- The source of a long sum has plain blanks. -/
theorem plainBlanks_additions (n : Nat) : plainBlanks .code (additions n).toList = true := by
  have more : plainBlanks .code (String.join (List.replicate n " + 1")).toList = true := by
    rw [String.toList_join]
    induction n with
    | zero => rfl
    | succ n ih =>
      rw [List.replicate_succ, List.flatMap_cons]
      exact ih
  rw [additions, String.toList_append]
  exact more

/-- Whatever room the codec has, both parsers read a sum that is longer, with no more room than for
a short one, and the sum is not written. -/
theorem exists_parsed_not_written {room n : Nat} (deep : room ≤ n) (levels : Nat) :
    ∃ program, Descent.parseWithin (levels + 10) (additions n) = .ok program ∧
      Contextual.parse (additions n) = .ok program ∧
      program.toTree.toJson room = .error .tooDeep := by
  obtain ⟨e, line, sum, read⟩ := Descent.parseWithin_additions n levels
  obtain ⟨ts, finish, cut, accepted⟩ := Descent.exists_cuts_of_parseWithin read
  refine ⟨_, read, Contextual.parse_of_program (plainBlanks_additions n) cut accepted, ?_⟩
  rw [Tree.toJson_eq, if_neg]
  intro fits
  have inside := depth_of_display_le fits
  have long := sum.lt_depth
  omega

/-- Both parsers read the sum of 3000 ones, and a command does not write its tree. -/
theorem parsed_sum_not_written :
    ∃ program, Descent.parse (additions 2999) = .ok program ∧
      Contextual.parse (additions 2999) = .ok program ∧
      program.toTree.toJson Tree.room = .error .tooDeep :=
  exists_parsed_not_written (by decide) 890

end Parlance
