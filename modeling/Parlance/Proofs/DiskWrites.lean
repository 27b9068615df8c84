import Mathlib.Data.List.Basic
import Parlance.CommandLine.Disk

/-!
# Disks after a file was written

A walk along a path takes one step per part, and `Disk.Steps` says what a step can be.  A walk that
finds something has taken them all, so it goes on where its beginning came to (`walk_append`), and a
file put into a directory leaves every such walk alone that does not end at it (`walk_put`).

A file that is written beside another one, under the other's name with an ending, is then found
again under its own name, and the other one is still found (`Disk.Beside.look_write`).  For that,
the text of a path has to be read back as the path (`Path.ofText_text`).
-/

namespace Parlance.CommandLine

/-- Something stands there: a file or a directory. -/
def Entry.Stands (entry : Entry) : Prop :=
  entry = .directory ∨ ∃ text, entry = .file text

namespace Disk

/-! ## Entries -/

/-- Giving a file another text keeps all names. -/
theorem comp_replace {α : Type} (look : List String → α) (parts : List String) (text : String) :
    ((fun f : List String × String => look f.1) ∘ fun f => if f.1 = parts then (parts, text) else f)
      = fun f => look f.1 := by
  funext f
  by_cases hit : f.1 = parts <;> simp [hit]

/-- After a file has been put, it is found at its own place and every other file at its place. -/
theorem find?_put (disk : Disk) (parts query : List String) (text : String) :
    (disk.put parts text).files.find? (fun f => f.1 == query) =
      if query = parts then some (parts, text) else disk.files.find? fun f => f.1 == query := by
  unfold put
  split
  case isTrue present =>
    rw [List.find?_map, comp_replace (· == query)]
    cases found : disk.files.find? fun f => f.1 == query with
    | none =>
      have other : query ≠ parts := by
        intro same
        obtain ⟨f, mem, hit⟩ := List.any_eq_true.1 present
        exact List.find?_eq_none.1 found f mem (same ▸ hit)
      rw [if_neg other]
      rfl
    | some g =>
      have hit := List.find?_some found
      have name : g.1 = query := beq_iff_eq.1 hit
      rw [Option.map_some, name]
      split <;> rfl
  case isFalse absent =>
    rw [List.find?_append]
    by_cases same : query = parts
    · have none : disk.files.find? (fun f => f.1 == query) = none := by
        rw [List.find?_eq_none]
        intro f mem hit
        exact absent (List.any_eq_true.2 ⟨f, mem, same ▸ hit⟩)
      rw [none, if_pos same, same]
      simp
    · have last : (parts == query) = false := beq_eq_false_iff_ne.2 (Ne.symm same)
      simp [last, same]

/-- Putting a file makes the directories on the way to it and no others. -/
theorem any_prefix_put (disk : Disk) (parts query : List String) (text : String) :
    ((disk.put parts text).files.any fun f => query.isPrefixOf f.1) =
      ((disk.files.any fun f => query.isPrefixOf f.1) || query.isPrefixOf parts) := by
  unfold put
  split
  case isTrue present =>
    obtain ⟨f, mem, hit⟩ := List.any_eq_true.1 present
    have name : f.1 = parts := beq_iff_eq.1 hit
    rw [List.any_map, comp_replace query.isPrefixOf]
    cases above : query.isPrefixOf parts with
    | false => rw [Bool.or_false]
    | true =>
      rw [Bool.or_true, List.any_eq_true]
      exact ⟨f, mem, by rwa [name]⟩
  case isFalse absent => simp [List.any_append]

@[simp]
theorem here_put (disk : Disk) (place : List String) (text : String) :
    (disk.put place text).here = disk.here := by
  unfold put
  split <;> rfl

/-- A directory is a place that is no file and lies on the way to one or to the working
directory. -/
theorem entry_eq_directory_iff {disk : Disk} {place : List String} :
    disk.entry place = .directory ↔
      disk.files.find? (fun f => f.1 == place) = none ∧
        (place.isPrefixOf disk.here || disk.files.any fun f => place.isPrefixOf f.1) = true := by
  unfold entry
  cases disk.files.find? fun f => f.1 == place with
  | some f => simp
  | none =>
    cases (place.isPrefixOf disk.here || disk.files.any fun f => place.isPrefixOf f.1) <;> simp

/-- The working directory is there.  A file may have taken its place, but then that is there. -/
theorem entry_here (disk : Disk) : (disk.entry disk.here).Stands := by
  unfold entry
  cases disk.files.find? fun f => f.1 == disk.here with
  | some f => exact .inr ⟨f.2, rfl⟩
  | none =>
    have inside : disk.here.isPrefixOf disk.here = true :=
      List.isPrefixOf_iff_prefix.2 (List.prefix_refl _)
    simp only [inside, Bool.true_or, if_true]
    exact .inl rfl

/-- A file that is put into a directory changes nothing else. -/
theorem entry_put {disk : Disk} {directory : List String} {name : String}
    (there : disk.entry directory = .directory) (text : String) (query : List String) :
    (disk.put (directory ++ [name]) text).entry query =
      if query = directory ++ [name] then .file text else disk.entry query := by
  by_cases other : query = directory ++ [name]
  · rw [entry, find?_put, if_pos other, if_pos other]
  · rw [entry, find?_put, if_neg other, if_neg other, entry]
    cases disk.files.find? fun f => f.1 == query with
    | some f => rfl
    | none =>
      -- a directory above the new file lies above its directory, which was there before
      have above : query.isPrefixOf (directory ++ [name]) = true →
          (query.isPrefixOf disk.here || disk.files.any fun f => query.isPrefixOf f.1) = true := by
        intro above
        have inside : query <+: directory := by
          rcases List.prefix_concat_iff.1 (List.isPrefixOf_iff_prefix.1 above) with same | inside
          · exact absurd same other
          · exact inside
        rw [Bool.or_eq_true, List.any_eq_true]
        rcases Bool.or_eq_true _ _ ▸ (entry_eq_directory_iff.1 there).2 with around | below
        · rw [List.isPrefixOf_iff_prefix] at around ⊢
          exact .inl (inside.trans around)
        · obtain ⟨f, mem, under⟩ := List.any_eq_true.1 below
          refine .inr ⟨f, mem, ?_⟩
          rw [List.isPrefixOf_iff_prefix] at under ⊢
          exact inside.trans under
      rw [any_prefix_put, ← Bool.or_assoc, here_put]
      cases holds : query.isPrefixOf (directory ++ [name]) with
      | false => rw [Bool.or_false]
      | true => simp only [above holds, Bool.or_true]

/-! ## Walks -/

/-- One part of a path leads from a place to another.  Above the root is the root. -/
inductive Steps (disk : Disk) : List String → String → List String → Prop
  | stay {place : List String} {part : String} (there : disk.entry place = .directory)
    (idle : Path.isIdle part = true) : Steps disk place part place
  | up {place : List String} (there : disk.entry place = .directory) :
    Steps disk place ".." place.dropLast
  | down {place : List String} {part : String} (there : disk.entry place = .directory)
    (named : Path.isIdle part = false) (onward : part ≠ "..") (short : Path.isTooLong part = false)
    (found : disk.entry (place ++ [part]) ≠ .missing) :
    Steps disk place part (place ++ [part])

theorem walk_nil (disk : Disk) (place : List String) :
    disk.walk place [] = (disk.entry place, place) :=
  rfl

/-- What a part of a path does in a directory. -/
theorem walk_directory_cons {disk : Disk} {place : List String}
    (there : disk.entry place = .directory) (part : String) (rest : List String) :
    disk.walk place (part :: rest) =
      if Path.isIdle part then disk.walk place rest
      else if part = ".." then disk.walk place.dropLast rest
      else if Path.isTooLong part then (.nameTooLong, place)
      else if disk.entry (place ++ [part]) = .missing then (.missing, place ++ [part] ++ rest)
      else disk.walk (place ++ [part]) rest := by
  rw [walk]
  simp only [there]
  cases disk.entry (place ++ [part]) <;> rfl

/-- Where no directory stands, every path ends alike. -/
theorem walk_other_cons {disk : Disk} {place : List String}
    (other : disk.entry place ≠ .directory) (part next : String) (rest more : List String) :
    disk.walk place (part :: rest) = disk.walk place (next :: more) := by
  rw [walk, walk]
  cases kind : disk.entry place with
  | directory => exact absurd kind other
  | file | missing | throughFile | nameTooLong | nameBroken => rfl

/-- A part that can be stepped over is, and the walk goes on. -/
theorem walk_cons {disk : Disk} {place next : List String} {part : String}
    (step : disk.Steps place part next) (rest : List String) :
    disk.walk place (part :: rest) = disk.walk next rest := by
  cases step with
  | stay there idle => rw [walk_directory_cons there, if_pos idle]
  | up there => simp [walk_directory_cons there, Path.isIdle]
  | down there named onward short found =>
    simp [walk_directory_cons there, named, onward, short, found]

theorem Steps.there {disk : Disk} {place next : List String} {part : String}
    (step : disk.Steps place part next) : disk.entry place = .directory := by
  cases step with
  | stay there => exact there
  | up there => exact there
  | down there => exact there

/-- A walk that finds something gets past its first part. -/
theorem steps_of_walk {disk : Disk} {place : List String} {part : String} {rest : List String}
    (stands : (disk.walk place (part :: rest)).1.Stands) : ∃ next, disk.Steps place part next := by
  by_cases there : disk.entry place = .directory
  · by_cases idle : Path.isIdle part = true
    · exact ⟨_, .stay there idle⟩
    by_cases upward : part = ".."
    · subst upward
      exact ⟨_, .up there⟩
    rw [walk_directory_cons there, if_neg idle, if_neg upward] at stands
    by_cases long : Path.isTooLong part = true
    · simp [long, Entry.Stands] at stands
    by_cases found : disk.entry (place ++ [part]) = .missing
    · simp [long, found, Entry.Stands] at stands
    exact ⟨_, .down there (Bool.of_not_eq_true idle) upward (Bool.of_not_eq_true long) found⟩
  · rw [walk] at stands
    split at stands
    case h_1 there' => exact absurd there' there
    case h_2 => simp [Entry.Stands] at stands
    case h_3 => simp [Entry.Stands] at stands

/-- A walk that has come to a directory goes on from there. -/
theorem walk_append {disk : Disk} {parts start place : List String}
    (there : disk.walk start parts = (.directory, place)) (more : List String) :
    disk.walk start (parts ++ more) = disk.walk place more := by
  induction parts generalizing start with
  | nil =>
    rw [walk_nil] at there
    cases (Prod.mk.inj there).2
    rfl
  | cons part parts ih =>
    obtain ⟨next, step⟩ := steps_of_walk (by rw [there]; exact .inl rfl)
    rw [walk_cons step] at there
    rw [List.cons_append, walk_cons step, ih there]

/-- A walk that finds something has directories on its way. -/
theorem exists_walk_eq_directory {disk : Disk} {parts rest start : List String} {part : String}
    (stands : (disk.walk start (parts ++ part :: rest)).1.Stands) :
    ∃ place, disk.walk start parts = (.directory, place) := by
  induction parts generalizing start with
  | nil =>
    obtain ⟨next, step⟩ := steps_of_walk stands
    exact ⟨start, by rw [walk_nil, step.there]⟩
  | cons first parts ih =>
    obtain ⟨next, step⟩ := steps_of_walk stands
    rw [List.cons_append, walk_cons step] at stands
    obtain ⟨place, there⟩ := ih stands
    exact ⟨place, by rw [walk_cons step, there]⟩

/-- A name leads to what stands under it. -/
theorem walk_name {disk : Disk} {place : List String} {name : String}
    (there : disk.entry place = .directory) (named : Path.isIdle name = false)
    (onward : name ≠ "..") (short : Path.isTooLong name = false) :
    disk.walk place [name] = (disk.entry (place ++ [name]), place ++ [name]) := by
  by_cases found : disk.entry (place ++ [name]) = .missing
  · simp [walk_directory_cons there, named, onward, short, found]
  · rw [walk_cons (.down there named onward short found), walk_nil]

/-- An idle part before others changes nothing. -/
theorem walk_idle_cons {part next : String} (idle : Path.isIdle part = true) (disk : Disk)
    (place rest : List String) :
    disk.walk place (part :: next :: rest) = disk.walk place (next :: rest) := by
  by_cases there : disk.entry place = .directory
  · rw [walk_directory_cons there, if_pos idle]
  · exact walk_other_cons there _ _ _ _

/-! ## Walks after a file was put -/

section Put

variable {disk : Disk} {directory : List String} {name : String}

/-- A new file takes nothing from under the steps of a walk. -/
theorem Steps.put {place next : List String} {part : String} (step : disk.Steps place part next)
    (there : disk.entry directory = .directory)
    (free : disk.entry (directory ++ [name]) ≠ .directory) (text : String) :
    (disk.put (directory ++ [name]) text).Steps place part next := by
  have kept {place : List String} (there' : disk.entry place = .directory) :
      (disk.put (directory ++ [name]) text).entry place = .directory := by
    have other : place ≠ directory ++ [name] := fun same => free (same ▸ there')
    rw [entry_put there, if_neg other, there']
  cases step with
  | stay there' idle => exact .stay (kept there') idle
  | up there' => exact .up (kept there')
  | down there' named onward short found =>
    refine .down (kept there') named onward short ?_
    rw [entry_put there]
    split
    · exact Entry.noConfusion
    · exact found

/-- A walk that finds something other than the new file still finds it. -/
theorem walk_put {parts start : List String} (there : disk.entry directory = .directory)
    (free : disk.entry (directory ++ [name]) ≠ .directory)
    (stands : (disk.walk start parts).1.Stands)
    (other : (disk.walk start parts).2 ≠ directory ++ [name]) (text : String) :
    (disk.put (directory ++ [name]) text).walk start parts = disk.walk start parts := by
  induction parts generalizing start with
  | nil =>
    rw [walk_nil] at other
    rw [walk_nil, walk_nil, entry_put there, if_neg other]
  | cons part parts ih =>
    obtain ⟨next, step⟩ := steps_of_walk stands
    rw [walk_cons step] at stands other
    rw [walk_cons (step.put there free text), walk_cons step, ih stands other]

/-- What stands under another name in the working directory stays. -/
theorem walk_put_name {other : String} (there : disk.entry directory = .directory)
    (free : disk.entry (directory ++ [name]) ≠ .directory) (named : Path.isIdle other = false)
    (onward : other ≠ "..") (apart : disk.here ++ [other] ≠ directory ++ [name]) (text : String) :
    ((disk.put (directory ++ [name]) text).walk disk.here [other]).1 =
      (disk.walk disk.here [other]).1 := by
  have kept (query : List String) : (disk.put (directory ++ [name]) text).entry query =
      if query = directory ++ [name] then .file text else disk.entry query :=
    entry_put there text query
  rcases entry_here disk with inside | ⟨content, file⟩
  · have other' : disk.here ≠ directory ++ [name] := fun same => free (same ▸ inside)
    have inside' := kept disk.here
    rw [if_neg other', inside] at inside'
    simp only [walk_directory_cons inside, walk_directory_cons inside', named, onward, if_false,
      Bool.false_eq_true, walk_nil, kept, if_neg apart]
  · -- a file in the place of the working directory, which a new file may replace
    have file' : ∃ content, (disk.put (directory ++ [name]) text).entry disk.here =
        .file content := by
      rw [kept]
      split
      · exact ⟨text, rfl⟩
      · exact ⟨content, file⟩
    obtain ⟨content', file'⟩ := file'
    simp only [walk, file, file']

end Put

end Disk

/-! ## The text of a path -/

namespace Path

theorem splitOnto_nil (current : List Char) :
    splitOnto current [] = [String.ofList current.reverse] :=
  rfl

theorem splitOnto_slash (current cs : List Char) :
    splitOnto current ('/' :: cs) = String.ofList current.reverse :: splitOnto [] cs :=
  rfl

theorem splitOnto_other {c : Char} (other : c = '/' → False) (current cs : List Char) :
    splitOnto current (c :: cs) = splitOnto (c :: current) cs := by
  rw [splitOnto]
  exact other

theorem splitOnto_append_slash (current cs rest : List Char) :
    splitOnto current (cs ++ '/' :: rest) = splitOnto current cs ++ splitOnto [] rest := by
  fun_induction splitOnto current cs with
  | case1 => rw [List.nil_append, splitOnto_slash, List.singleton_append]
  | case2 current cs ih => rw [List.cons_append, splitOnto_slash, ih, List.cons_append]
  | case3 current c cs other ih => rw [List.cons_append, splitOnto_other other, ih]

/-- A text without a slash is one part. -/
theorem splitOnto_of_notMem {cs : List Char} (within : '/' ∉ cs) (current : List Char) :
    splitOnto current cs = [String.ofList (current.reverse ++ cs)] := by
  induction cs generalizing current with
  | nil => rw [List.append_nil, splitOnto_nil]
  | cons c cs ih =>
    rw [List.mem_cons, not_or] at within
    rw [splitOnto_other fun slash => within.1 slash.symm, ih within.2]
    simp

/-- No part of a path has a slash in it. -/
theorem notMem_of_mem_splitOnto {current cs : List Char} {part : String}
    (mem : part ∈ splitOnto current cs) (begun : '/' ∉ current) : '/' ∉ part.toList := by
  induction cs generalizing current with
  | nil =>
    rw [List.mem_singleton.1 mem, String.toList_ofList, List.mem_reverse]
    exact begun
  | cons c cs ih =>
    by_cases slash : c = '/'
    · rw [slash, splitOnto_slash] at mem
      rcases List.mem_cons.1 mem with first | later
      · rw [first, String.toList_ofList, List.mem_reverse]
        exact begun
      · exact ih later List.not_mem_nil
    · rw [splitOnto_other slash] at mem
      refine ih mem ?_
      rw [List.mem_cons, not_or]
      exact ⟨fun same => slash same.symm, begun⟩

/-- An ending without slashes belongs to the last part. -/
theorem splitOnto_append_of_notMem {ending : List Char} (within : '/' ∉ ending)
    (current cs : List Char) :
    ∃ parts last, splitOnto current cs = parts ++ [last] ∧
      splitOnto current (cs ++ ending) = parts ++ [last ++ String.ofList ending] := by
  fun_induction splitOnto current cs with
  | case1 current =>
    refine ⟨[], _, rfl, ?_⟩
    rw [List.nil_append, splitOnto_of_notMem within, String.ofList_append, List.nil_append]
  | case2 current cs ih =>
    obtain ⟨parts, last, plain, ended⟩ := ih
    refine ⟨String.ofList current.reverse :: parts, last, ?_, ?_⟩
    · rw [plain, List.cons_append]
    · rw [List.cons_append, splitOnto_slash, ended, List.cons_append]
  | case3 current c cs other ih =>
    obtain ⟨parts, last, plain, ended⟩ := ih
    refine ⟨parts, last, plain, ?_⟩
    rw [List.cons_append, splitOnto_other other, ended]

/-- Parts that are written with slashes between them are cut into these parts again. -/
theorem splitOnto_intercalate {parts : List String} (filled : parts ≠ [])
    (within : ∀ part ∈ parts, '/' ∉ part.toList) :
    splitOnto [] ("/".intercalate parts).toList = parts := by
  induction parts with
  | nil => exact absurd rfl filled
  | cons part parts ih =>
    have first := within part List.mem_cons_self
    cases parts with
    | nil => simp [splitOnto_of_notMem first]
    | cons next parts =>
      rw [String.intercalate_cons_cons, String.append_assoc, String.toList_append,
        String.toList_append]
      change splitOnto [] (part.toList ++ '/' :: ("/".intercalate (next :: parts)).toList) = _
      rw [splitOnto_append_slash, splitOnto_of_notMem first,
        ih (List.cons_ne_nil _ _) fun part mem => within part (List.mem_cons_of_mem _ mem)]
      simp

/-- The slashes that a path can begin with. -/
def roots : List String := ["", "/", "//"]

theorem rootOf_mem (cs : List Char) : rootOf cs ∈ roots := by
  fun_cases rootOf cs <;> decide

/-- The beginning of a text that is not all slashes does not depend on how the text ends. -/
theorem rootOf_append {cs : List Char} (named : ∃ c ∈ cs, c ≠ '/') (ending : List Char) :
    rootOf (cs ++ ending) = rootOf cs := by
  rcases cs with _ | ⟨a, _ | ⟨b, _ | ⟨c, cs⟩⟩⟩
  · simp at named
  · simp at named
    simp [rootOf, named]
  · by_cases first : a = '/'
    · subst first
      have second : b ≠ '/' := by simpa using named
      simp [rootOf, second]
    · simp [rootOf, first]
  · by_cases first : a = '/'
    · by_cases second : b = '/'
      · by_cases third : c = '/' <;> simp [rootOf, first, second, third]
      · simp [rootOf, first, second]
    · simp [rootOf, first]

/-- Slashes alone have nothing between them. -/
theorem eq_empty_of_mem_splitOnto {cs : List Char} (slashes : ∀ c ∈ cs, c = '/') {part : String}
    (mem : part ∈ splitOnto [] cs) : part = "" := by
  induction cs with
  | nil => exact List.mem_singleton.1 mem
  | cons c cs ih =>
    obtain ⟨rfl, others⟩ := List.forall_mem_cons.1 slashes
    rw [splitOnto_slash] at mem
    rcases List.mem_cons.1 mem with rfl | later
    · rfl
    · exact ih others later

/-- The parts that a normalized path has. -/
theorem of_mem_normalize {name part : String} (mem : part ∈ (ofText name).normalize.parts) :
    isIdle part = false ∧ '/' ∉ part.toList := by
  obtain ⟨mem, named⟩ := List.mem_filter.1 mem
  exact ⟨by simpa using named, notMem_of_mem_splitOnto mem List.not_mem_nil⟩

/-- A row of names begins with a character that is no slash. -/
theorem exists_head_intercalate {parts : List String} (filled : parts ≠ [])
    (proper : ∀ part ∈ parts, isIdle part = false ∧ '/' ∉ part.toList) :
    ∃ c cs, ("/".intercalate parts).toList = c :: cs ∧ c ≠ '/' := by
  cases parts with
  | nil => exact absurd rfl filled
  | cons part parts =>
    obtain ⟨named, within⟩ := proper part List.mem_cons_self
    obtain ⟨c, cs, shown⟩ : ∃ c cs, part.toList = c :: cs := by
      refine List.exists_cons_of_ne_nil fun empty => ?_
      simp [isIdle, String.toList_eq_nil_iff.1 empty] at named
    have other : c ≠ '/' := by
      rintro rfl
      exact within (by rw [shown]; exact List.mem_cons_self)
    cases parts with
    | nil => exact ⟨c, cs, by simpa using shown, other⟩
    | cons next parts =>
      rw [String.intercalate_cons_cons, String.append_assoc, String.toList_append, shown]
      exact ⟨c, _, rfl, other⟩

/-- A path without idle parts is read back from its text, but for the empty parts that the slashes
in front leave. -/
theorem exists_ofText_text {path : Path} (rooted : path.root ∈ roots) (filled : path.parts ≠ [])
    (proper : ∀ part ∈ path.parts, isIdle part = false ∧ '/' ∉ part.toList) :
    ∃ count, ofText path.text = ⟨path.root, List.replicate count "" ++ path.parts⟩ := by
  obtain ⟨root, parts⟩ := path
  have shown : text ⟨root, parts⟩ = root ++ "/".intercalate parts := if_neg (by simp [filled])
  have back := splitOnto_intercalate filled fun part mem => (proper part mem).2
  obtain ⟨c, cs, first, other⟩ := exists_head_intercalate filled proper
  rw [first] at back
  rw [ofText, shown, String.toList_append, first]
  simp only [roots, List.mem_cons, List.not_mem_nil, or_false] at rooted
  rcases rooted with rfl | rfl | rfl
  · have start : rootOf (c :: cs) = "" := by simp [rootOf, other]
    refine ⟨0, ?_⟩
    change Path.mk (rootOf (c :: cs)) (splitOnto [] (c :: cs)) = _
    rw [start, back]
    rfl
  · have start : rootOf ('/' :: c :: cs) = "/" := by simp [rootOf, other]
    refine ⟨1, ?_⟩
    change Path.mk (rootOf ('/' :: c :: cs)) (splitOnto [] ('/' :: c :: cs)) = _
    rw [start, splitOnto_slash, back]
    rfl
  · have start : rootOf ('/' :: '/' :: c :: cs) = "//" := by simp [rootOf, other]
    refine ⟨2, ?_⟩
    change Path.mk (rootOf ('/' :: '/' :: c :: cs)) (splitOnto [] ('/' :: '/' :: c :: cs)) = _
    rw [start, splitOnto_slash, splitOnto_slash, back]
    rfl

/-- The last part of a path is not idle: the path names something in a directory. -/
def NamesLast (path : Path) : Bool :=
  path.parts.getLast?.any (!isIdle ·)

/-- An ending that is appended to a name is appended to its last part. -/
theorem exists_parts {name ending : String} (proper : (ofText name).NamesLast = true)
    (within : '/' ∉ ending.toList) (grown : 1 < ending.length) :
    ∃ parts last, (ofText name).normalize.parts = parts ++ [last] ∧
      (ofText (name ++ ending)).normalize.parts = parts ++ [last ++ ending] := by
  obtain ⟨parts, last, plain, ended⟩ := splitOnto_append_of_notMem within [] name.toList
  have plain : (ofText name).parts = parts ++ [last] := plain
  have named : isIdle last = false := by simpa [NamesLast, plain] using proper
  have named' : isIdle (last ++ ending) = false := by
    rw [isIdle, Bool.or_eq_false_iff, beq_eq_false_iff_ne, beq_eq_false_iff_ne]
    have long : 1 < (last ++ ending).length := by
      rw [String.length_append]
      omega
    constructor <;> intro short <;> rw [short] at long <;> exact absurd long (by decide)
  refine ⟨parts.filter (!isIdle ·), last, ?_, ?_⟩
  · simp [normalize, plain, named]
  · rw [String.ofList_toList] at ended
    simp [normalize, ofText, String.toList_append, ended, named']

/-- An ending changes nothing about how the path to something begins. -/
theorem root_ofText_append {name : String} (proper : (ofText name).NamesLast = true)
    (ending : String) : (ofText (name ++ ending)).root = (ofText name).root := by
  have named : ∃ c ∈ name.toList, c ≠ '/' := by
    by_contra slashes
    push Not at slashes
    obtain ⟨last, mem, solid⟩ := (Option.any_eq_true _ _).1 proper
    have empty := eq_empty_of_mem_splitOnto slashes (List.mem_of_mem_getLast? mem)
    rw [empty] at solid
    exact absurd solid (by decide)
  change rootOf (name ++ ending).toList = rootOf name.toList
  rw [String.toList_append, rootOf_append named]

/-- Extending the last part of a path extends its text. -/
theorem text_concat (root : String) (parts : List String) (last ending : String) :
    text ⟨root, parts ++ [last ++ ending]⟩ = text ⟨root, parts ++ [last]⟩ ++ ending := by
  have joined : "/".intercalate (parts ++ [last ++ ending]) =
      "/".intercalate (parts ++ [last]) ++ ending := by
    cases parts with
    | nil => simp
    | cons part parts =>
      rw [String.intercalate_append_of_ne_nil (List.cons_ne_nil _ _) (List.cons_ne_nil _ _),
        String.intercalate_append_of_ne_nil (List.cons_ne_nil _ _) (List.cons_ne_nil _ _),
        String.intercalate_singleton, String.intercalate_singleton, ← String.append_assoc]
  simp [text, joined, String.append_assoc]

end Path

/-! ## A file written beside another -/

namespace Disk

/-- The empty parts before a name change nothing. -/
theorem walk_replicate_append (disk : Disk) (place : List String) (count : Nat)
    {parts : List String} (filled : parts ≠ []) :
    disk.walk place (List.replicate count "" ++ parts) = disk.walk place parts := by
  induction count with
  | zero => rfl
  | succ count ih =>
    obtain ⟨next, rest, whole⟩ : ∃ next rest, List.replicate count "" ++ parts = next :: rest :=
      List.exists_cons_of_ne_nil (by simp [filled])
    rw [List.replicate_succ, List.cons_append, whole, walk_idle_cons rfl, ← whole, ih]

/-- What a path without idle parts leads to. -/
theorem look_text {disk : Disk} {path : Path} (rooted : path.root ∈ Path.roots)
    (filled : path.parts ≠ [])
    (proper : ∀ part ∈ path.parts, Path.isIdle part = false ∧ '/' ∉ part.toList) :
    disk.look path.text =
      if path.text.toList.contains '\x00' then .nameBroken
      else if 4095 < path.text.utf8ByteSize then .nameTooLong
      else (disk.walk (disk.start path) path.parts).1 := by
  obtain ⟨count, back⟩ := Path.exists_ofText_text rooted filled proper
  simp only [look, back, walk_replicate_append _ _ _ filled, start]

/-- A longer name in the same directory leads somewhere else. -/
theorem walk_name_ne {disk : Disk} {directory : List String} {name ending : String}
    (stands : (disk.walk directory [name]).1.Stands) (filled : ending ≠ "") :
    (disk.walk directory [name]).2 ≠ directory ++ [name ++ ending] := by
  obtain ⟨next, step⟩ := steps_of_walk stands
  rw [walk_cons step, walk_nil]
  intro same
  cases step with
  | stay there idle => simp at same
  | up there =>
    have lengths := congrArg List.length same
    simp at lengths
  | down there named onward short found =>
    have same := congrArg String.toList (List.append_singleton_inj.1 same).2
    simp [filled] at same

/-- Where a file lies, and where a file with a longer name would lie beside it. -/
structure Beside (disk : Disk) (name ending content : String) (parts directory : List String)
    (last : String) : Prop where
  source : (Path.ofText name).normalize = ⟨(Path.ofText name).root, parts ++ [last]⟩
  target : (Path.ofText (name ++ ending)).normalize =
    ⟨(Path.ofText name).root, parts ++ [last ++ ending]⟩
  grown : 2 < ending.length
  reached : disk.walk (disk.start (Path.ofText name)) parts = (.directory, directory)
  found : (disk.walk directory [last]).1 = .file content
  clean : '\x00' ∉ (Path.ofText name).normalize.text.toList
  short : (Path.ofText name).normalize.text.utf8ByteSize ≤ 4095

/-- Beside every file that is found there is a place for its name with an ending. -/
theorem exists_beside {disk : Disk} {name ending content : String}
    (proper : (Path.ofText name).NamesLast = true) (within : '/' ∉ ending.toList)
    (grown : 2 < ending.length)
    (found : disk.look (Path.ofText name).normalize.text = .file content) :
    ∃ parts directory last, disk.Beside name ending content parts directory last := by
  obtain ⟨parts, last, plain, ended⟩ := Path.exists_parts proper within (Nat.lt_of_succ_lt grown)
  have source : (Path.ofText name).normalize = ⟨(Path.ofText name).root, parts ++ [last]⟩ := by
    rw [← plain]
    rfl
  have target : (Path.ofText (name ++ ending)).normalize =
      ⟨(Path.ofText name).root, parts ++ [last ++ ending]⟩ := by
    rw [← ended, ← Path.root_ofText_append proper ending]
    rfl
  rw [look_text (Path.rootOf_mem _) (by rw [plain]; simp) fun _ => Path.of_mem_normalize] at found
  split at found
  case isTrue => cases found
  case isFalse clean =>
    split at found
    case isTrue => cases found
    case isFalse short =>
      rw [plain] at found
      obtain ⟨directory, reached⟩ := exists_walk_eq_directory (.inr ⟨content, found⟩)
      rw [walk_append reached] at found
      exact ⟨parts, directory, last, source, target, grown, reached, found,
        by simpa using clean, Nat.le_of_not_lt short⟩

namespace Beside

variable {disk : Disk} {name ending content last : String} {parts directory : List String}

theorem there (beside : disk.Beside name ending content parts directory last) :
    disk.entry directory = .directory := by
  have again := walk_append beside.reached []
  rw [List.append_nil, beside.reached, walk_nil] at again
  exact (Prod.mk.inj again).1.symm

theorem look_source (beside : disk.Beside name ending content parts directory last) :
    disk.look (Path.ofText name).normalize.text = .file content := by
  have reached := beside.reached
  rw [look_text (Path.rootOf_mem _) (by rw [beside.source]; simp) fun _ => Path.of_mem_normalize,
    if_neg (by simpa using beside.clean), if_neg (Nat.not_lt.2 beside.short), beside.source]
  exact (congrArg Prod.fst (walk_append reached [last])).trans beside.found

/-- What is found under the extended name is what stands beside the file, unless the name is too
long or broken. -/
theorem look_target (beside : disk.Beside name ending content parts directory last) :
    disk.look (Path.ofText (name ++ ending)).normalize.text =
      if '\x00' ∈ ending.toList then .nameBroken
      else if 4095 < (Path.ofText (name ++ ending)).normalize.text.utf8ByteSize then .nameTooLong
      else (disk.walk directory [last ++ ending]).1 := by
  have clean := beside.clean
  rw [beside.source] at clean
  have onward := walk_append beside.reached [last ++ ending]
  rw [look_text (Path.rootOf_mem _) (by rw [beside.target]; simp) fun _ => Path.of_mem_normalize,
    beside.target, Path.text_concat]
  have begun : disk.start ⟨(Path.ofText name).root, parts ++ [last ++ ending]⟩ =
      disk.start (Path.ofText name) := rfl
  rw [begun, onward]
  simp [clean]

theorem named (beside : disk.Beside name ending content parts directory last) :
    Path.isIdle (last ++ ending) = false := by
  have mem : last ++ ending ∈ (Path.ofText (name ++ ending)).normalize.parts := by
    rw [beside.target]
    simp
  exact (Path.of_mem_normalize mem).1

theorem onward (beside : disk.Beside name ending content parts directory last) :
    last ++ ending ≠ ".." := by
  intro upward
  have grown := beside.grown
  have lengths : last.length + ending.length = 2 := by rw [← String.length_append, upward]; rfl
  omega

theorem walk_target (beside : disk.Beside name ending content parts directory last)
    (short : Path.isTooLong (last ++ ending) = false) :
    disk.walk directory [last ++ ending] =
      (disk.entry (directory ++ [last ++ ending]), directory ++ [last ++ ending]) :=
  walk_name beside.there beside.named beside.onward short

/-- Putting the file beside the other one keeps everything that was known of the two. -/
theorem put (beside : disk.Beside name ending content parts directory last)
    (free : disk.entry (directory ++ [last ++ ending]) ≠ .directory) (text : String) :
    (disk.put (directory ++ [last ++ ending]) text).Beside name ending content parts directory
      last where
  source := beside.source
  target := beside.target
  grown := beside.grown
  reached := by
    have begun : (disk.put (directory ++ [last ++ ending]) text).start (Path.ofText name) =
        disk.start (Path.ofText name) := by
      rw [start, start, here_put]
    rw [begun, walk_put beside.there free, beside.reached]
    · rw [beside.reached]
      exact .inl rfl
    · rw [beside.reached]
      simp
  found := by
    have filled : ending ≠ "" := by
      rintro rfl
      exact absurd beside.grown (by decide)
    have stands : (disk.walk directory [last]).1.Stands := .inr ⟨content, beside.found⟩
    rw [walk_put beside.there free stands (walk_name_ne stands filled), beside.found]
  clean := beside.clean
  short := beside.short

/-- Writing under the extended name puts a file beside the other one. -/
theorem write (beside : disk.Beside name ending content parts directory last)
    (short : Path.isTooLong (last ++ ending) = false) (text : String) :
    disk.write (Path.ofText (name ++ ending)).normalize.text text =
      disk.put (directory ++ [last ++ ending]) text := by
  have filled : (Path.ofText (name ++ ending)).normalize.parts ≠ [] := by
    rw [beside.target]
    simp
  obtain ⟨count, back⟩ :=
    Path.exists_ofText_text (Path.rootOf_mem _) filled fun _ => Path.of_mem_normalize
  have begun : disk.start ⟨(Path.ofText (name ++ ending)).normalize.root,
      List.replicate count "" ++ (Path.ofText (name ++ ending)).normalize.parts⟩ =
        disk.start (Path.ofText name) := by
    rw [beside.target]
    rfl
  simp only [Disk.write, back, begun, walk_replicate_append _ _ _ filled]
  rw [beside.target, walk_append beside.reached, beside.walk_target short]

/-- A file that is written beside another one is found again.  The other one stays, as does
everything in the working directory whose name ends differently. -/
theorem look_write (beside : disk.Beside name ending content parts directory last)
    (clean : '\x00' ∉ ending.toList)
    (free : disk.look (Path.ofText (name ++ ending)).normalize.text ≠ .directory)
    (fits : disk.look (Path.ofText (name ++ ending)).normalize.text ≠ .nameTooLong)
    (text : String) :
    ∃ after, disk.write (Path.ofText (name ++ ending)).normalize.text text = after ∧
      after.look (Path.ofText (name ++ ending)).normalize.text = .file text ∧
      after.look (Path.ofText name).normalize.text = .file content ∧
      ∀ other, Path.ofText other = ⟨"", [other]⟩ → Path.isIdle other = false → other ≠ ".." →
        ¬ ending.toList <:+ other.toList → after.look other = disk.look other := by
  rw [beside.look_target, if_neg clean] at free fits
  split at fits
  case isTrue => exact absurd rfl fits
  case isFalse size =>
    have short : Path.isTooLong (last ++ ending) = false := by
      by_contra long
      rw [Bool.not_eq_false] at long
      simp [walk_directory_cons beside.there, beside.named, beside.onward, long] at fits
    rw [if_neg size, beside.walk_target short] at free
    refine ⟨_, beside.write short text, ?_, (beside.put free text).look_source, ?_⟩
    · have after := beside.put free text
      rw [after.look_target, if_neg clean, if_neg size, after.walk_target short,
        entry_put beside.there, if_pos rfl]
    · intro other path named onward apart
      have apart : disk.here ++ [other] ≠ directory ++ [last ++ ending] := by
        intro same
        obtain ⟨-, rfl⟩ := List.append_singleton_inj.1 same
        exact apart ⟨last.toList, String.toList_append.symm⟩
      have kept := walk_put_name beside.there free named onward apart text
      have begun : (Disk.put disk (directory ++ [last ++ ending]) text).start ⟨"", [other]⟩ =
          disk.here := here_put _ _ _
      simp only [look, path, begun, kept]
      rfl

end Beside

end Disk

end Parlance.CommandLine
