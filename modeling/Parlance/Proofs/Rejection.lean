import Mathlib
import Parlance.Proofs.ContextualPassage
import Parlance.Proofs.ContextualRefusals

/-!
# The front ends reject the same sources

A source that the stack machine rejects is rejected by recursive descent too.  The converse fails,
since the machine knows a reserved word only where it may stand and takes it for a name elsewhere:
`set end = true` is a program for it.  But as long as the refused word can be taken for no other one
(`PlainlyWrong`), both front ends reject the source, with a mistake of the same kind on the same
line.
-/

namespace Parlance

open Descent (Refusal)

/-- No word is taken for another one at the place of the refusal.  A closing word that is out of
place does not come first in a block. -/
structure Descent.Refusal.Plain (r : Refusal) (ts : List Token) : Prop where
  shallow : r.complaint ≠ .tooDeep
  unmistakable : ∀ t ∈ r.found, Contextual.Unmistakable r.complaint t.word
  placed : r.complaint = .unexpected → ∀ t ∈ r.found, ∀ k, t.word = .keyword k →
    ∀ before after, ts = before ++ t :: after →
      ∃ u ∈ before.getLast?, u.word ≠ .keyword .doWord ∧ u.word ≠ .keyword .otherwiseWord

/-- The tokens are a program or the beginning of one. -/
def BeginsProgram (room : Nat) (ts : List Token) : Prop :=
  ∀ r, Descent.program room ts = .error r → r.found = none ∧ r.complaint ≠ .tooDeep

/-- The source has a mistake that no reading of its words can hide: its tokens are plainly no
program, or they are the beginning of one up to a character that begins no word. -/
inductive PlainlyWrong (room : Nat) (source : String) : Prop
  | grammatical {ts finish r} (cut : Cuts {} source.toList ts finish [])
      (refused : Descent.program room ts = .error r) (plainly : r.Plain ts)
  | lexical {ts q c rest cause} (cut : Cuts {} source.toList ts q (c :: rest))
      (bad : front c rest = .bad cause) (foreign : Contextual.opensNameOnly c = false)
      (begins : BeginsProgram room ts)

/-! ## Recursive descent -/

namespace Descent

variable {room : Nat} {source : String} {ts : List Token}

theorem exists_cuts_of_parseWithin {p : Program} (accepted : parseWithin room source = .ok p) :
    ∃ ts finish, Cuts {} source.toList ts finish [] ∧ program room ts = .ok p := by
  obtain ⟨scan, scanned, found⟩ := parseWithin_eq_ok_iff.1 accepted
  exact ⟨scan.tokens, scan.finish, cuts_of_startingAt scanned, found⟩

theorem parseWithin_of_refusal {finish : Position} {r : Refusal}
    (cut : Cuts {} source.toList ts finish []) (refused : program room ts = .error r) :
    parseWithin room source = .error (.grammatical (r.report finish)) := by
  unfold parseWithin
  simp only [Scan.ofSource_of_cuts cut, refused]

theorem parseWithin_of_bad {q : Position} {c : Char} {rest : List Char} {cause : LexicalCause}
    (cut : Cuts {} source.toList ts q (c :: rest)) (bad : front c rest = .bad cause) :
    parseWithin room source = .error (.lexical ⟨q.line, cause⟩) := by
  have scanned : Scan.ofSource source = .error ⟨q.line, cause⟩ := cut.startingAt_eq_error bad
  unfold parseWithin
  simp only [scanned]

end Descent

/-! ## The stack machine -/

namespace Contextual

variable {room : Nat} {source : String} {ts : List Token}

/-- What recursive descent finds in the tokens, the machine finds in the source. -/
theorem parse_of_program {finish : Position} {p : Program}
    (plain : plainBlanks .code source.toList = true) (cut : Cuts {} source.toList ts finish [])
    (accepted : Descent.program room ts = .ok p) : parse source = .ok p := by
  have tracks := tracks_program room ts
  rw [accepted] at tracks
  obtain ⟨_, s, passes, finished⟩ := tracks
  obtain ⟨p', cs', plain', cut', same⟩ := parseFrom_of_passes passes plain cut trivial
  have skipped := skipGap_of_cuts cut' plain'
  have read : parseFrom s p'.line cs' = .ok ⟨p.body.reverse.reverse⟩ :=
    parseFrom_finish (by rw [skipped]; rfl) finished
  rw [List.reverse_reverse] at read
  exact same.trans read

/-- Where the tokens are plainly refused, so is the source. -/
theorem refusedOn_of_program {finish : Position} {r : Refusal}
    (plain : plainBlanks .code source.toList = true)
    (cut : Cuts {} source.toList ts finish [])
    (refused : Descent.program room ts = .error r) (plainly : r.Plain ts) :
    RefusedOn (r.report finish).line (parse source) := by
  have tracks := tracks_program room ts
  rw [refused] at tracks
  rcases tracks with deep | ⟨s, left, passes, found, halts⟩
  · exact absurd deep plainly.shallow
  · obtain ⟨p', cs', plain', cut', same⟩ := parseFrom_of_passes passes plain cut trivial
    have start : parse source = parseFrom s p'.line cs' := same
    rw [start]
    cases left with
    | nil =>
      have skipped := skipGap_of_cuts cut' plain'
      rw [parseFrom_unexpectedEnd skipped halts]
      refine ⟨_, rfl, ?_⟩
      simp only [List.head?_nil] at found
      simp [Descent.Refusal.report, found]
    | cons t left =>
      obtain ⟨gap, c, rest, after, _, skipped, _, front, _, _⟩ := exists_gap_of_cuts cut' plain'
      have stuck : Stuck s t := by
        rcases halts (plainly.unmistakable t found) with stuck | ⟨⟨k, reserved⟩, unexpected, fresh⟩
        · exact stuck
        · -- The machine would have to be before the first statement of a block.
          have placed := plainly.placed unexpected t found k reserved
          rcases passes.eq_or_opened cut.lines_ascend.2 fresh with rfl | ⟨before, u, rfl, opens⟩
          · obtain ⟨u, last, _⟩ := placed [] left rfl
            cases last
          · obtain ⟨v, last, apart⟩ := placed (before ++ [u]) left (by simp)
            simp only [List.getLast?_concat, Option.mem_some_iff] at last
            subst last
            rcases opens with same | same
            · exact absurd same apart.1
            · exact absurd same apart.2
      have line : (r.report finish).line = t.line := by
        simp [Descent.Refusal.report, show r.found = some t from found]
      rw [line]
      exact refusedOn_of_stuck stuck skipped front

/-- After the beginning of a program the machine comes to the character that begins no word. -/
theorem parse_of_bad {q : Position} {c : Char} {rest : List Char} {cause : LexicalCause}
    (plain : plainBlanks .code source.toList = true)
    (cut : Cuts {} source.toList ts q (c :: rest)) (bad : front c rest = .bad cause)
    (foreign : opensNameOnly c = false) (begins : BeginsProgram room ts) :
    parse source = .error (.lexical ⟨q.line, cause⟩) := by
  obtain ⟨s, passes⟩ : ∃ s, Passes {} ts s [] := by
    have tracks := tracks_program room ts
    cases outcome : Descent.program room ts with
    | ok p =>
      rw [outcome] at tracks
      obtain ⟨_, s, passes, _⟩ := tracks
      exact ⟨s, passes⟩
    | error r =>
      obtain ⟨ended, shallow⟩ := begins r outcome
      rw [outcome] at tracks
      rcases tracks with deep | ⟨s, left, passes, found, _⟩
      · exact absurd deep shallow
      · rw [ended] at found
        cases left with
        | nil => exact ⟨s, passes⟩
        | cons t left => cases found
  obtain ⟨p', cs', plain', cut', same⟩ := parseFrom_of_passes passes plain cut ⟨cause, bad⟩
  have skipped := skipGap_of_cuts cut' plain'
  rw [skipGap_eq_self (by simp [bad]) q.line] at skipped
  exact same.trans (parseFrom_bad skipped bad foreign)

end Contextual

/-! ## Both -/

/-- What the stack machine rejects, recursive descent rejects in whatever room; and what is plainly
wrong both reject, with a mistake of the same kind on the same line. -/
theorem parse_rejects_alike {source : String} (plain : plainBlanks .code source.toList = true)
    (room : Nat) :
    ((∃ m, Contextual.parse source = .error m) → ∃ m, Descent.parseWithin room source = .error m) ∧
      (PlainlyWrong room source → ∃ m m', Descent.parseWithin room source = .error m ∧
        Contextual.parse source = .error m' ∧ m.kind = m'.kind ∧ m.line = m'.line) := by
  constructor
  · rintro ⟨m, rejected⟩
    cases outcome : Descent.parseWithin room source with
    | error m' => exact ⟨m', rfl⟩
    | ok p =>
      obtain ⟨ts, finish, cut, accepted⟩ := Descent.exists_cuts_of_parseWithin outcome
      cases (Contextual.parse_of_program plain cut accepted).symm.trans rejected
  · rintro (⟨cut, refused, plainly⟩ | ⟨cut, bad, foreign, begins⟩)
    · obtain ⟨e, rejected, line⟩ := Contextual.refusedOn_of_program plain cut refused plainly
      refine ⟨_, _, Descent.parseWithin_of_refusal cut refused, rejected, rfl, ?_⟩
      simp [Mistake.line, line]
    · exact ⟨_, _, Descent.parseWithin_of_bad cut bad,
        Contextual.parse_of_bad plain cut bad foreign begins, rfl, rfl⟩

/-- A block is closed that was never opened. -/
theorem rejects_alike_unopened_end :
    plainBlanks .code "say a\nend".toList = true ∧ PlainlyWrong Descent.room "say a\nend" ∧
      ∃ m m', Descent.parse "say a\nend" = .error m ∧
        Contextual.parse "say a\nend" = .error m' ∧ m.kind = m'.kind ∧ m.line = m'.line := by
  have plain : plainBlanks .code "say a\nend".toList = true := by decide
  have scanned : Scan.startingAt {} "say a\nend".toList =
      .ok ⟨[⟨.keyword .sayWord, 1, 1⟩, ⟨.name "a", 1, 5⟩, ⟨.keyword .endWord, 2, 1⟩], ⟨2, 4⟩⟩ := by
    cbv
  have refused : Descent.program Descent.room
      [⟨.keyword .sayWord, 1, 1⟩, ⟨.name "a", 1, 5⟩, ⟨.keyword .endWord, 2, 1⟩] =
      .error ⟨some ⟨.keyword .endWord, 2, 1⟩, .unexpected⟩ := by
    cbv
  have wrong : PlainlyWrong Descent.room "say a\nend" := by
    refine .grammatical (cuts_of_startingAt scanned) refused ⟨(by simp), ?_, ?_⟩
    · rintro t ⟨⟩
      exact .inr ⟨rfl, .inl rfl⟩
    · rintro _ t ⟨⟩ k _ before after split
      rcases before with _ | ⟨u, _ | ⟨v, _ | ⟨w, before⟩⟩⟩ <;> simp at split
      exact ⟨v, rfl, by simp [← split.2.1]⟩
  exact ⟨plain, wrong, (parse_rejects_alike plain Descent.room).2 wrong⟩

/-- One front end rejects a source that the other accepts: a reserved word is given a value. -/
theorem parse_reserved_name :
    (∃ e : SyntaxError, Descent.parse "set end = true" = .error (.grammatical e) ∧ e.line = 1) ∧
      Contextual.parse "set end = true" = .ok ⟨[.declare "end" (.flag true 1) false 1]⟩ := by
  refine ⟨⟨⟨1, "end", "'end'", .expectedName⟩, ?_, rfl⟩, ?_⟩
  · cbv
  · cbv

end Parlance
