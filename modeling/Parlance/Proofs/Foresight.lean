import Parlance.Proofs.DescentShift
import Parlance.Proofs.Spelling

/-!
# What the descent parser has read decides what it does

A reader of the descent parser looks at the words that it takes and at the next one.  Two readers
that differ in their bounds and in the lines they give to their trees do the same on tokens with the
same words up to there: they take as many of them, or refuse the same one with the same complaint.
And what stands before a refused word can be completed to a phrase of the grammar.

`Foretells` says both of one attempt, for a family of readers that the attempt is one of.  The index
of a family is what its members may differ in, and it grows as reading goes on: by the place of a
token that is taken, and by what a part was read as.  The rules of the section about `Foretells`
follow the ways in which readers are put together.  `Foresees` is the same of a reader for a kind of
phrase, within its bound.
-/

namespace Parlance.Descent

/-! ## Tokens with the same words -/

/-- The tokens have the same words. -/
def SameWords (ts us : List Token) : Prop :=
  ts.map Token.word = us.map Token.word

/-- The tokens begin with the same word, or there are none on both sides. -/
def SameNext (ts us : List Token) : Prop :=
  ts.head?.map Token.word = us.head?.map Token.word

section SameWords

variable {ts us used left used' left' : List Token} {w : Word} {l c : Nat}

theorem SameWords.length_eq (words : SameWords ts us) : ts.length = us.length := by
  simpa using congrArg List.length words

theorem SameWords.append_inv (words : SameWords (used ++ left) us) :
    ∃ used' left', us = used' ++ left' ∧ SameWords used used' ∧ SameWords left left' := by
  have split : used.map Token.word ++ left.map Token.word = us.map Token.word := by
    rw [← List.map_append]
    exact words
  obtain ⟨used', left', rfl, first, second⟩ := List.map_eq_append_iff.1 split.symm
  exact ⟨used', left', rfl, first.symm, second.symm⟩

theorem SameWords.cons_inv (words : SameWords (⟨w, l, c⟩ :: ts) us) :
    ∃ l' c' us', us = ⟨w, l', c'⟩ :: us' ∧ SameWords ts us' := by
  obtain ⟨⟨w', l', c'⟩, us', rfl, same, words'⟩ := List.map_eq_cons_iff.1 (Eq.symm words)
  cases same
  exact ⟨l', c', us', rfl, words'.symm⟩

/-- Behind the same words stands the same next word. -/
theorem SameNext.append (words : SameWords used used') (next : SameNext left left') :
    SameNext (used ++ left) (used' ++ left') := by
  cases used with
  | nil =>
    obtain rfl := List.eq_nil_of_length_eq_zero words.length_eq.symm
    exact next
  | cons t used =>
    have words' : SameWords (⟨t.word, t.line, t.column⟩ :: used) used' := words
    obtain ⟨l, c, used', rfl, _⟩ := words'.cons_inv
    rfl

theorem SameNext.eq_nil (next : SameNext [] us) : us = [] := by
  cases us with
  | nil => rfl
  | cons u us => cases next

/-- A next word that is there stands in both. -/
theorem SameNext.eq_cons (next : SameNext (⟨w, l, c⟩ :: ts) us) :
    ∃ l' c' us', us = ⟨w, l', c'⟩ :: us' := by
  cases us with
  | nil => cases next
  | cons u us =>
    obtain ⟨w', l', c'⟩ := u
    cases next
    exact ⟨l', c', us, rfl⟩

theorem SameNext.beginsWith (next : SameNext ts us) (begins : BeginsWith w us) :
    BeginsWith w ts := by
  obtain ⟨l, c, us, rfl⟩ := begins
  obtain ⟨l', c', ts, rfl⟩ := SameNext.eq_cons (Eq.symm next)
  exact ⟨l', c', ts, rfl⟩

theorem SameNext.forall_head (next : SameNext ts us) (holds : Word → Prop)
    (here : ∀ t ∈ ts.head?, holds t.word) : ∀ u ∈ us.head?, holds u.word := by
  intro u first
  obtain ⟨us, rfl⟩ := List.head?_eq_some_iff.1 first
  have next' : SameNext (⟨u.word, u.line, u.column⟩ :: us) ts := next.symm
  obtain ⟨l, c, ts, rfl⟩ := next'.eq_cons
  exact here ⟨u.word, l, c⟩ rfl

end SameWords

/-! ## Attempts that foretell others -/

/-- Some words complete what is wanted. -/
def Completable (goal : List Token → Prop) : Prop :=
  ∃ more, (∀ t ∈ more, t.word.WellFormed) ∧ goal more

/-- On tokens with the same words up to the next one, all readers of the family end in this way. -/
def EndAlike {ι α : Type} (limit : ι → Nat) (readers : ι → Reader α) (used left : List Token)
    (ending : List Token → Attempt (α × List Token) → Prop) : Prop :=
  ∀ i used' left', (used' ++ left').length < limit i → SameWords used used' → SameNext left left' →
    ending left' (readers i (used' ++ left'))

/-- The attempt on the tokens foretells what the readers of the family do on other ones, fewer
than their limit.  They also succeed and leave as much; or they also refuse the next word, and what
was read before it can be completed to reach the goal. -/
def Foretells {ι α : Type} (limit : ι → Nat) (readers : ι → Reader α) (goal : List Token → Prop)
    (ts : List Token) : Attempt (α × List Token) → Prop
  | .ok (_, rest) => ∃ used, ts = used ++ rest ∧
    EndAlike limit readers used rest fun left attempt => ∃ found, attempt = .ok (found, left)
  | .error r => r.complaint = .tooDeep ∨ ∃ used left, ts = used ++ left ∧ r.found = left.head? ∧
    Completable (fun more => goal (used ++ more)) ∧
    EndAlike limit readers used left fun left attempt => attempt = refuse left r.complaint

section Foretells

variable {ι κ α β : Type} {limit : ι → Nat} {readers : ι → Reader α} {goal : List Token → Prop}
  {ts : List Token} {attempt : Attempt (α × List Token)}

theorem Completable.append {goal' : List Token → Prop} (completes : Completable goal)
    (closing : ∀ us, goal us → Completable fun more => goal' (us ++ more)) :
    Completable goal' := by
  obtain ⟨more, formed, reached⟩ := completes
  obtain ⟨more', formed', reached'⟩ := closing more reached
  exact ⟨more ++ more', List.forall_mem_append.2 ⟨formed, formed'⟩, reached'⟩

/-- What is wanted is reached already. -/
theorem Completable.done {us : List Token} (reached : goal us) :
    Completable fun more => goal (us ++ more) :=
  ⟨[], by simp, by simpa using reached⟩

/-! What completes a phrase is spelled out word by word. -/

theorem Completable.nothing (reached : goal []) : Completable goal :=
  ⟨[], by simp, reached⟩

theorem Completable.cons (w : Word) (formed : w.WellFormed)
    (completes : Completable fun us => goal (⟨w, 0, 0⟩ :: us)) : Completable goal := by
  obtain ⟨more, formed', reached⟩ := completes
  exact ⟨⟨w, 0, 0⟩ :: more, List.forall_mem_cons.2 ⟨formed, formed'⟩, reached⟩

theorem Completable.keyword (k : Keyword)
    (completes : Completable fun us => goal (⟨.keyword k, 0, 0⟩ :: us)) : Completable goal :=
  .cons (.keyword k) trivial completes

theorem Completable.symbol (mark : Symbol)
    (completes : Completable fun us => goal (⟨.symbol mark, 0, 0⟩ :: us)) : Completable goal :=
  .cons (.symbol mark) trivial completes

theorem Completable.name (completes : Completable fun us => goal (⟨.name "x", 0, 0⟩ :: us)) :
    Completable goal := by
  have formed : (Word.name "x").WellFormed :=
    ⟨'x', [], rfl, by decide, by simp, by intro k; cases k <;> decide⟩
  exact .cons (.name "x") formed completes

/-- What is foretold after some tokens, for readers that end alike there. -/
theorem Foretells.after {limit' : κ → Nat} {readers' : κ → Reader α} (before : List Token)
    (foretold : Foretells limit readers (fun us => goal (before ++ us)) ts attempt)
    (alike : ∀ {used left ending}, ts = used ++ left → EndAlike limit readers used left ending →
      EndAlike limit' readers' (before ++ used) left ending) :
    Foretells limit' readers' goal (before ++ ts) attempt := by
  cases attempt with
  | ok found =>
    obtain ⟨used, split, ends⟩ := foretold
    exact ⟨before ++ used, by rw [split, List.append_assoc], alike split ends⟩
  | error r =>
    refine foretold.imp_right ?_
    rintro ⟨used, left, split, found, completes, ends⟩
    refine ⟨before ++ used, left, by rw [split, List.append_assoc], found, ?_, alike split ends⟩
    simpa only [List.append_assoc] using completes

/-- The readers do the same, as far as they begin with the same word. -/
theorem Foretells.congr {readers' : ι → Reader α}
    (foretold : Foretells limit readers' goal ts attempt)
    (same : ∀ i us, us.length < limit i → SameNext ts us → readers i us = readers' i us) :
    Foretells limit readers goal ts attempt := by
  refine Foretells.after [] foretold fun {used left ending} split ends => ?_
  intro i used' left' small words next
  rw [same i _ small (split ▸ SameNext.append words next)]
  exact ends i used' left' small words next

/-- The readers are members of the family, with limits that are no larger. -/
theorem Foretells.reindex {limit' : κ → Nat} {readers' : κ → Reader α}
    (foretold : Foretells limit readers goal ts attempt) (member : κ → ι)
    (fits : ∀ k, limit' k ≤ limit (member k)) (same : ∀ k, readers' k = readers (member k)) :
    Foretells limit' readers' goal ts attempt := by
  refine Foretells.after [] foretold fun {used left ending} _ ends => ?_
  intro k used' left' small words next
  rw [same]
  exact ends (member k) used' left' (Nat.lt_of_lt_of_le small (fits k)) words next

/-- Another goal that can be reached from what has been read. -/
theorem Foretells.redirect {goal' : List Token → Prop}
    (foretold : Foretells limit readers goal ts attempt)
    (closing : ∀ used left more, ts = used ++ left → (∀ t ∈ more, t.word.WellFormed) →
      goal (used ++ more) → Completable fun more => goal' (used ++ more)) :
    Foretells limit readers goal' ts attempt := by
  cases attempt with
  | ok found => exact foretold
  | error r =>
    refine foretold.imp_right ?_
    rintro ⟨used, left, split, found, ⟨more, formed, reached⟩, ends⟩
    exact ⟨used, left, split, found, closing used left more split formed reached, ends⟩

theorem Foretells.closing {goal' : List Token → Prop}
    (foretold : Foretells limit readers goal ts attempt)
    (closing : ∀ us, goal us → Completable fun more => goal' (us ++ more)) :
    Foretells limit readers goal' ts attempt := by
  refine foretold.redirect fun used left more _ formed reached => ?_
  have completes : Completable fun more => goal (used ++ more) := ⟨more, formed, reached⟩
  exact completes.append fun us reached => by simpa using closing _ reached

theorem Foretells.mono {goal' : List Token → Prop}
    (foretold : Foretells limit readers goal ts attempt) (weaker : ∀ us, goal us → goal' us) :
    Foretells limit readers goal' ts attempt :=
  foretold.closing fun us reached => .done (weaker us reached)

/-- Nothing is taken. -/
theorem foretells_ok {found : α}
    (same : ∀ i us, SameNext ts us → ∃ found, readers i us = .ok (found, us)) :
    Foretells limit readers goal ts (.ok (found, ts)) := by
  refine ⟨[], rfl, fun i used' left' _ words next => ?_⟩
  obtain rfl := List.eq_nil_of_length_eq_zero words.length_eq.symm
  exact same i left' next

/-- The next word is refused. -/
theorem foretells_refuse {complaint : Complaint} (completes : Completable goal)
    (same : ∀ i us, SameNext ts us → readers i us = refuse us complaint) :
    Foretells limit readers goal ts (refuse ts complaint) := by
  refine .inr ⟨[], ts, rfl, rfl, completes, fun i used' left' _ words next => ?_⟩
  obtain rfl := List.eq_nil_of_length_eq_zero words.length_eq.symm
  exact same i left' next

/-- There is no room. -/
theorem foretells_tooDeep : Foretells limit readers goal ts (refuse ts .tooDeep) :=
  .inl rfl

/-- A token is taken, and the rest is up to its word. -/
theorem Foretells.take {w : Word} {l c : Nat}
    (foretold : Foretells (fun p : ι × Nat × Nat => limit p.1 - 1)
      (fun p us => readers p.1 (⟨w, p.2.1, p.2.2⟩ :: us)) (fun us => goal (⟨w, l, c⟩ :: us)) ts
      attempt) :
    Foretells limit readers goal (⟨w, l, c⟩ :: ts) attempt := by
  refine foretold.after [⟨w, l, c⟩] fun {used left ending} _ ends => ?_
  intro i used' left' small words next
  obtain ⟨l', c', used', rfl, words'⟩ := SameWords.cons_inv words
  exact ends (i, l', c') used' left' (Nat.lt_sub_of_add_lt small) words' next

/-- One attempt after another. -/
theorem Foretells.bind {next : α × List Token → Attempt (β × List Token)}
    {goal' : List Token → Prop} (head : Foretells limit readers goal ts attempt)
    (nexts : ι → α × List Token → Attempt (β × List Token))
    (closing : ∀ us, goal us → Completable fun more => goal' (us ++ more))
    (onward : ∀ {found used rest}, attempt = .ok (found, rest) → ts = used ++ rest →
      Foretells (fun p : ι × α => limit p.1 - used.length) (fun p us => nexts p.1 (p.2, us))
        (fun us => goal' (used ++ us)) rest (next (found, rest))) :
    Foretells limit (fun i us => readers i us >>= nexts i) goal' ts (attempt >>= next) := by
  cases attempt with
  | error r =>
    refine (head.closing closing).imp_right ?_
    rintro ⟨used, left, split, found, completes, ends⟩
    refine ⟨used, left, split, found, completes, fun i used' left' small words next => ?_⟩
    dsimp only
    rw [ends i used' left' small words next]
    rfl
  | ok result =>
    obtain ⟨found, rest⟩ := result
    obtain ⟨used, split, ends⟩ := head
    rw [split]
    refine (onward rfl split).after used fun {used₂ left ending} split₂ ends₂ => ?_
    intro i both left' small words next
    obtain ⟨used', used₂', rfl, words₁, words₂⟩ := words.append_inv
    rw [List.append_assoc] at small ⊢
    obtain ⟨found', done⟩ := ends i used' _ small words₁ (split₂ ▸ SameNext.append words₂ next)
    have count := words₁.length_eq
    simp only [done]
    refine ends₂ (i, found') used₂' left' ?_ words₂ next
    rw [List.length_append] at small
    dsimp only
    omega

/-- What is read is made into something else. -/
theorem Foretells.map {next : α × List Token → Attempt (β × List Token)}
    {nexts : ι → α × List Token → Attempt (β × List Token)}
    (foretold : Foretells limit readers goal ts attempt)
    (made : ∀ r, ∃ found, next r = .ok (found, r.2))
    (mades : ∀ i r, ∃ found, nexts i r = .ok (found, r.2)) :
    Foretells limit (fun i us => readers i us >>= nexts i) goal ts (attempt >>= next) := by
  refine foretold.bind nexts (fun us => .done) fun {found used rest} _ _ => ?_
  obtain ⟨made, same⟩ := made (found, rest)
  rw [same]
  exact foretells_ok fun p us _ => mades p.1 (p.2, us)

/-- A given word has to come. -/
theorem foretells_expect {w : Word} {next : List Token → Attempt (α × List Token)}
    (completes : Completable goal)
    (onward : ∀ {l c us}, ts = ⟨w, l, c⟩ :: us →
      Foretells (fun i => limit i - 1) readers (fun us => goal (⟨w, l, c⟩ :: us)) us (next us)) :
    Foretells limit (fun i us => expect w us >>= readers i) goal ts (expect w ts >>= next) := by
  by_cases begins : BeginsWith w ts
  · obtain ⟨l, c, us, rfl⟩ := begins
    rw [expect_self]
    refine Foretells.take ?_
    refine (onward rfl).reindex Prod.fst (fun _ => Nat.le_refl _) fun p => funext fun vs => ?_
    rw [expect_self]
    rfl
  · rw [expect_of_other begins]
    refine foretells_refuse completes fun i us next => ?_
    rw [expect_of_other fun begins' => begins (next.beginsWith begins')]
    rfl

/-- A name has to come. -/
theorem foretells_expectName {next : String × List Token → Attempt (α × List Token)}
    {nexts : ι → String × List Token → Attempt (α × List Token)} (completes : Completable goal)
    (onward : ∀ {s l c us}, ts = ⟨.name s, l, c⟩ :: us →
      Foretells (fun i => limit i - 1) (fun i us => nexts i (s, us))
        (fun us => goal (⟨.name s, l, c⟩ :: us)) us (next (s, us))) :
    Foretells limit (fun i us => expectName us >>= nexts i) goal ts (expectName ts >>= next) := by
  by_cases begins : ∃ s, BeginsWith (.name s) ts
  · obtain ⟨s, l, c, us, rfl⟩ := begins
    exact Foretells.take ((onward rfl).reindex Prod.fst (fun _ => Nat.le_refl _) fun _ => rfl)
  · rw [expectName_of_other begins]
    refine foretells_refuse completes fun i us next => ?_
    rw [expectName_of_other (by rintro ⟨s, begins'⟩; exact begins ⟨s, next.beginsWith begins'⟩)]
    rfl

end Foretells

/-! ## Readers that foresee -/

/-- The tokens are a phrase of the kind. -/
def Forms {α : Type} (phrase : α → Phrase) (us : List Token) : Prop :=
  ∃ found, Derives us (phrase found)

/-- The readers take phrases of a kind, and what one of them does within its bound foretells what
all of them do within theirs. -/
structure Foresees {α : Type} (phrase : α → Phrase) (readers : Nat → Reader α) : Prop where
  takes : ∀ bound, Takes (readers bound) phrase
  foretells : ∀ {bound ts}, ts.length ≤ bound →
    Foretells (fun bound => bound + 1) readers (Forms phrase) ts (readers bound ts)

section Foresees

variable {ι α β : Type} {limit : ι → Nat} {goal : List Token → Prop} {ts : List Token}
  {phrase : α → Phrase} {readers : Nat → Reader α}

/-- What a reader has taken is the phrase. -/
theorem Takes.derives {reader : Reader α} (takes : Takes reader phrase) {found : α}
    {used rest : List Token} (taken : reader ts = .ok (found, rest)) (split : ts = used ++ rest) :
    Derives used (phrase found) := by
  obtain ⟨used', split', derived⟩ := takes taken
  obtain rfl : used = used' := List.append_cancel_right (split.symm.trans split')
  exact derived

/-- The readers with bounds of the members of another family. -/
theorem Foresees.within (foresees : Foresees phrase readers) {bound : Nat}
    (small : ts.length ≤ bound) (bounds : ι → Nat) (fits : ∀ i, limit i ≤ bounds i + 1) :
    Foretells limit (fun i => readers (bounds i)) (Forms phrase) ts (readers bound ts) :=
  (foresees.foretells small).reindex bounds fits fun _ => rfl

/-- A phrase is read and then more. -/
theorem Foresees.bind {next : α × List Token → Attempt (β × List Token)}
    (foresees : Foresees phrase readers) {bound : Nat} (small : ts.length ≤ bound)
    (bounds : ι → Nat) (fits : ∀ i, limit i ≤ bounds i + 1)
    (nexts : ι → α × List Token → Attempt (β × List Token))
    (closing : ∀ us, Forms phrase us → Completable fun more => goal (us ++ more))
    (onward : ∀ {found used rest}, ts.length = used.length + rest.length →
      Derives used (phrase found) →
      Foretells (fun p : ι × α => limit p.1 - used.length) (fun p us => nexts p.1 (p.2, us))
        (fun us => goal (used ++ us)) rest (next (found, rest))) :
    Foretells limit (fun i us => readers (bounds i) us >>= nexts i) goal ts
      (readers bound ts >>= next) := by
  have head := foresees.within small bounds fits
  refine head.bind nexts closing fun {found used rest} taken split => ?_
  have derived := Takes.derives (foresees.takes bound) taken split
  exact onward (by rw [split, List.length_append]) derived

end Foresees

end Parlance.Descent
