import Parlance.Descent.Expression

/-!
# Statements by descent

A program is a sequence of statements up to the end of the source; a block is one up to a closing
word.  Semicolons between statements mean nothing.  After `otherwise`, another `when` or `check`
always opens one more branch.
-/

namespace Parlance.Descent

/-- The room for nesting that a source has. -/
def room : Nat := 900

/-- Statements up to the end of the source or one of the closing words, which stays in front.
`bound` is at least the number of tokens left. -/
def sequence (statement : Reader Stmt) (closers : List Keyword) : Nat → Reader (List Stmt)
  | 0, ts => .ok ([], ts)
  | _ + 1, [] => .ok ([], [])
  | bound + 1, t :: ts =>
    match t.word with
    | .symbol .semicolon => sequence statement closers bound ts
    | .keyword k =>
      if closers.contains k then .ok ([], t :: ts)
      else do
        let (first, rest) ← statement (t :: ts)
        let (more, rest) ← sequence statement closers bound rest
        return (first :: more, rest)
    | _ => do
      let (first, rest) ← statement (t :: ts)
      let (more, rest) ← sequence statement closers bound rest
      return (first :: more, rest)

/-- Statements up to a closing word, which has to come. -/
def block (statement : Reader Stmt) (bound : Nat) (closers : List Keyword) :
    Reader (List Stmt) := fun ts => do
  match ← sequence statement closers bound ts with
  | (_, []) => refuse [] (.unclosed closers)
  | found => return found

/-- A condition, `do`, and the statements of a branch. -/
def branch (statement : Reader Stmt) (condition : Reader Expr) (bound line : Nat) :
    Reader Branch := fun ts => do
  let (test, rest) ← condition ts
  let rest ← expect (.keyword .doWord) rest
  let (body, rest) ← block statement bound [.endWord, .otherwiseWord] rest
  return (.mk test body line, rest)

/-- The branches of a choice after the first, its last alternative, and the closing word.  `left`
counts down and is at least the number of tokens left. -/
def branchesAfter (statement : Reader Stmt) (condition : Reader Expr) (bound : Nat) :
    Nat → Reader (List Branch × Option (List Stmt))
  | left + 1, ⟨.keyword .otherwiseWord, _, _⟩ :: ⟨.keyword k, line, column⟩ :: ts =>
    if k = .whenWord ∨ k = .checkWord then do
      let (first, rest) ← branch statement condition bound line ts
      let ((more, last), rest) ← branchesAfter statement condition bound left rest
      return ((first :: more, last), rest)
    else do
      let (last, rest) ← block statement bound [.endWord] (⟨.keyword k, line, column⟩ :: ts)
      let rest ← expect (.keyword .endWord) rest
      return (([], some last), rest)
  | _ + 1, ⟨.keyword .otherwiseWord, _, _⟩ :: ts => do
    let (last, rest) ← block statement bound [.endWord] ts
    let rest ← expect (.keyword .endWord) rest
    return (([], some last), rest)
  | _, ts => do
    let rest ← expect (.keyword .endWord) ts
    return (([], none), rest)

/-- A name, `=` and an expression. -/
def assignment (value : Reader Expr) : Reader (String × Expr) := fun ts => do
  let (name, rest) ← expectName ts
  let rest ← expect (.symbol .assign) rest
  let (found, rest) ← value rest
  return ((name, found), rest)

/-- A statement.  `bound` is at least the number of tokens. -/
def statement (bound : Nat) : Nat → Reader Stmt
  | 0, ts => refuse ts .tooDeep
  | room + 1, ts =>
    let value := expression bound room .disjunction
    match ts with
    | ⟨.keyword .setWord, line, _⟩ :: rest => do
      let ((name, found), rest) ← assignment value rest
      return (.declare name found false line, rest)
    | ⟨.keyword .keepWord, line, _⟩ :: rest => do
      let ((name, found), rest) ← assignment value rest
      return (.declare name found true line, rest)
    | ⟨.keyword .changeWord, line, _⟩ :: rest => do
      let ((name, found), rest) ← assignment value rest
      return (.assign name found line, rest)
    | ⟨.name s, line, column⟩ :: rest => do
      let ((name, found), rest) ← assignment value (⟨.name s, line, column⟩ :: rest)
      return (.assign name found line, rest)
    | ⟨.keyword .sayWord, line, _⟩ :: rest => do
      let (found, rest) ← value rest
      return (.say found line, rest)
    | ⟨.keyword .showWord, line, _⟩ :: rest => do
      let (found, rest) ← value rest
      return (.display found line, rest)
    | ⟨.keyword .askWord, line, _⟩ :: rest => do
      let (name, rest) ← expectName rest
      return (.ask name line, rest)
    | ⟨.keyword .whenWord, line, _⟩ :: rest | ⟨.keyword .checkWord, line, _⟩ :: rest => do
      let (first, rest) ← branch (statement bound room) value bound line rest
      let ((more, last), rest) ← branchesAfter (statement bound room) value bound bound rest
      return (.choose (first :: more) last line, rest)
    | ⟨.keyword .loopWord, line, _⟩ :: rest => do
      let ((name, first), rest) ← assignment value rest
      let rest ← expect (.keyword .toWord) rest
      let (last, rest) ← value rest
      let rest ← expect (.keyword .doWord) rest
      let (body, rest) ← block (statement bound room) bound [.endWord] rest
      let rest ← expect (.keyword .endWord) rest
      return (.range name first last body line, rest)
    | ⟨.keyword .repeatWord, line, _⟩ :: rest => do
      let rest ← expect (.symbol .openParen) rest
      let (condition, rest) ← value rest
      let rest ← expect (.symbol .closeParen) rest
      let rest ← expect (.keyword .doWord) rest
      let (body, rest) ← block (statement bound room) bound [.endWord] rest
      let rest ← expect (.keyword .endWord) rest
      return (.whilst condition body line, rest)
    | ⟨.keyword .breakWord, line, _⟩ :: rest => .ok (.leave line, rest)
    | ⟨.keyword .continueWord, line, _⟩ :: rest => .ok (.next line, rest)
    | _ => refuse ts .unexpected

/-- The statements of a whole source. -/
def program (room : Nat) (ts : List Token) : Attempt Program := do
  match ← sequence (statement ts.length room) [] ts.length ts with
  | (body, []) => return ⟨body⟩
  | (_, rest) => refuse rest .unexpected

/-- A refusal as a report: what has no token stands at the end of the source. -/
def Refusal.report (finish : Position) (r : Refusal) : SyntaxError :=
  match r.found with
  | some t => ⟨t.line, t.word.value, t.word.describe, r.complaint⟩
  | none => ⟨finish.line, "", Word.finish.describe, r.complaint⟩

/-- Reads a program from its source, with so much room for nesting. -/
def parseWithin (room : Nat) (source : String) : Except Mistake Program :=
  match Scan.ofSource source with
  | .error e => .error (.lexical e)
  | .ok scan =>
    match program room scan.tokens with
    | .ok found => .ok found
    | .error r => .error (.grammatical (r.report scan.finish))

/-- Reads a program from its source. -/
def parse (source : String) : Except Mistake Program :=
  parseWithin room source

end Parlance.Descent
