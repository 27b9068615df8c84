import Mathlib
import Parlance.Proofs.ContextualPassage
import Parlance.Proofs.DescentSoundness

/-!
# The front ends agree

Every program that recursive descent reads is also read by the stack machine, with the same tree and
the same lines, if the blanks outside texts and comments are plain ones.

The derivation that descent finds gives a run of the machine over the tokens, and along that run
the machine finds each token in the source where it is.
-/

namespace Parlance.Contextual

/-- Along a run over its tokens the machine reads the source. -/
theorem parseFrom_of_run {s s' : State} {ts : List Token} {body : List Stmt} (run : Run s ts s')
    (finished : s'.finish? = some body) {p finish : Position} {cs : List Char}
    (plain : plainBlanks .code cs = true) (scanned : Scan.startingAt p cs = .ok ⟨ts, finish⟩) :
    parseFrom s p.line cs = .ok ⟨body.reverse⟩ := by
  have passes := run.passes []
  rw [List.append_nil] at passes
  obtain ⟨p', cs', plain', cuts, same⟩ :=
    parseFrom_of_passes passes plain (cuts_of_startingAt scanned) trivial
  have skipped := skipGap_of_cuts cuts plain'
  rw [same]
  refine parseFrom_finish ?_ finished
  rw [skipped]
  rfl

/-- What recursive descent reads in whatever room, the stack machine reads too, and gives the same
program. -/
theorem parse_eq_of_descent_parse {room : Nat} {source : String} {p : Program}
    (plain : plainBlanks .code source.toList = true)
    (accepted : Descent.parseWithin room source = .ok p) : parse source = .ok p := by
  unfold Descent.parseWithin at accepted
  split at accepted
  · cases accepted
  · next scan scanned =>
    split at accepted
    · next found =>
      cases accepted
      obtain ⟨s, run, finished⟩ := run_of_derivedFrom (Descent.derivedFrom_of_program found)
      have read := parseFrom_of_run run finished plain scanned
      rwa [List.reverse_reverse] at read
    · cases accepted

/-- A choice whose second branch is opened two lines further down than its `otherwise`. -/
theorem parse_otherwise_check_across_lines :
    parse "when x do otherwise # else\n\n check true do y = \"#\" end" =
      .ok ⟨[.choose [.mk (.name "x" 1) [] 1,
        .mk (.flag true 3) [.assign "y" (.text "#" 3) 3] 3] none 1]⟩ := by
  have accepted : Descent.parse "when x do otherwise # else\n\n check true do y = \"#\" end" =
      .ok ⟨[.choose [.mk (.name "x" 1) [] 1,
        .mk (.flag true 3) [.assign "y" (.text "#" 3) 3] 3] none 1]⟩ := by
    cbv
  exact parse_eq_of_descent_parse (by decide) accepted

end Parlance.Contextual
