import Parlance.Proofs.CodecRoundTrip
import Parlance.Proofs.FloatClasses
import Parlance.Proofs.JsonRoundTrip

/-!
# The JSON values that are trees

`Json.WellFormed` says which values are trees without the reader of trees: every record that is
reached through the items of lists and the declared fields of nodes names a kind and has all fields
of that kind, and what a number literal holds stands for a number.  `Json.violations` lists all that
is wrong with a value, depth first, with the fields of a node in their order and the number of a
literal after its fields.  `Json.normal` is the value without undeclared fields and with its numbers
as numbers; a record has no order, so the normal form has the kind first and then the fields.

The reader fails with the first violation, and otherwise gives the tree that is written as the
normal form.  `FailsFirst` says this of an attempt, and its rules follow the ways in which the
reader asks for one part after another.
-/

namespace Parlance

namespace Json

/-! ## Well-formed values -/

/-- A record names a kind of nodes. -/
def Names (fields : List (String × Json)) (kind : Kind) : Prop :=
  lookup "type" fields = some (.text kind.label)

/-- From the first value the second one is reached through the items of lists and the declared
fields of nodes. -/
inductive Reaches : Json → Json → Prop
  | here {value} : Reaches value value
  | item {items item value} (mem : item ∈ items) (inner : Reaches item value) :
    Reaches (.list items) value
  | field {fields kind name part value} (known : Names fields kind) (declared : name ∈ kind.fields)
    (found : lookup name fields = some part) (inner : Reaches part value) :
    Reaches (.record fields) value

/-- A value as a tree, as far as it is a scalar. -/
def scalar : Json → Tree
  | .flag value => .flag value
  | .int value => .int value
  | .number value => .number value
  | .text value => .text value
  | .null | .list _ | .record _ => .null

/-- The number that a value stands for; only scalars stand for one. -/
def toNumber (value : Json) : Except CodecError Float :=
  value.scalar.toNumber

/-- Every record that is reached names a kind, has the fields of that kind, and holds a number where
it is a number literal. -/
def WellFormed (start : Json) : Prop :=
  ∀ fields, Reaches start (.record fields) → ∃ kind, Names fields kind ∧
    (∀ name ∈ kind.fields, ∃ value, lookup name fields = some value) ∧
    (kind = .numberLit → ∃ value x, lookup "value" fields = some value ∧ value.toNumber = .ok x)

/-! ## Violations and the normal form -/

/-- What is wrong with the number of a literal. -/
def numeralViolations (kind : Kind) (fields : List (String × Json)) : List CodecError :=
  if kind = .numberLit then
    match (lookup "value" fields).map toNumber with
    | some (.error e) => [e]
    | _ => []
  else []

/-- All that is wrong with a value where there is so much room. -/
def violations : Nat → Json → List CodecError
  | 0, _ | 1, .list _ => [.tooDeep]
  | room + 2, .list items => items.flatMap (violations room)
  | room + 1, .record fields =>
    match Tree.claimedKind fields with
    | .error e => [e]
    | .ok kind =>
      (kind.fields.flatMap fun name =>
        ((lookup name fields).map (violations room)).getD [.missingField kind name]) ++
      numeralViolations kind fields
  | _ + 1, _ => []

/-- A field of a node, with the number that the value of a number literal stands for. -/
def numeral (kind : Kind) (name : String) (value : Json) : Json :=
  if kind = .numberLit ∧ name = "value" then
    match value.toNumber with
    | .ok x => .number x
    | .error _ => value
  else value

mutual

/-- A value without its undeclared fields and with its numbers as numbers. -/
def normal : Json → Json
  | .list items => .list (itemsNormal items)
  | .record fields =>
    match Tree.claimedKind fields with
    | .error _ => .record fields
    | .ok kind =>
      .record (("type", .text kind.label) :: kind.fields.filterMap fun name =>
        (lookup name (fieldsNormal fields)).map fun value => (name, numeral kind name value))
  | value => value

/-- The normal forms of values. -/
def itemsNormal : List Json → List Json
  | [] => []
  | item :: items => item.normal :: itemsNormal items

/-- A record with the normal forms of all its fields. -/
def fieldsNormal : List (String × Json) → List (String × Json)
  | [] => []
  | (name, value) :: fields => (name, value.normal) :: fieldsNormal fields

end

theorem itemsNormal_eq (items : List Json) : itemsNormal items = items.map normal := by
  induction items with
  | nil => rfl
  | cons item items ih => rw [itemsNormal, ih, List.map_cons]

theorem fieldsNormal_eq (fields : List (String × Json)) :
    fieldsNormal fields = fields.map fun field => (field.1, field.2.normal) := by
  induction fields with
  | nil => rfl
  | cons field fields ih => rw [fieldsNormal, ih, List.map_cons]

/-- A change of all values is a change of the value found. -/
theorem lookup_map {α β : Type} (f : α → β) (name : String) (fields : List (String × α)) :
    lookup name (fields.map fun field => (field.1, f field.2)) = (lookup name fields).map f := by
  induction fields with
  | nil => rfl
  | cons field fields ih =>
    rw [List.map_cons, lookup, lookup, ih]
    cases lookup name fields with
    | some value => rfl
    | none => exact (apply_ite (Option.map f) (field.1 = name) (some field.2) none).symm

/-- A value that is found stands in a field of that name. -/
theorem mem_of_lookup {α : Type} {name : String} {fields : List (String × α)} {value : α}
    (found : lookup name fields = some value) : (name, value) ∈ fields := by
  induction fields with
  | nil => cases found
  | cons field fields ih =>
    rw [lookup] at found
    split at found
    · next later same =>
      cases found
      exact List.mem_cons_of_mem field (ih same)
    · split at found
      · next same =>
        cases found
        rw [← same]
        exact List.mem_cons_self
      · cases found

/-- A record is read as a node of a kind exactly if its `type` names that kind. -/
theorem claimedKind_eq_ok_iff {fields : List (String × Json)} {kind : Kind} :
    Tree.claimedKind fields = .ok kind ↔ Names fields kind := by
  constructor
  · intro claimed
    rw [Tree.claimedKind] at claimed
    split at claimed
    · next label same =>
      split at claimed
      · next known found =>
        cases claimed
        have spelled : kind.label = label := by simpa using List.find?_some found
        cases type : lookup "type" fields with
        | none =>
          rw [type] at same
          cases same
        | some value =>
          rw [type, Option.getD_some] at same
          rw [Names, type, same, spelled]
      · cases claimed
    all_goals cases claimed
  · intro known
    rw [Tree.claimedKind, known]
    simp only [Option.getD_some, Kind.ofLabel?_label]

/-! ## Nothing is wrong with a well-formed value -/

theorem wellFormed_list_iff {items : List Json} :
    (Json.list items).WellFormed ↔ ∀ item ∈ items, item.WellFormed := by
  constructor
  · exact fun formed item mem fields reached => formed fields (.item mem reached)
  · rintro formed fields (_ | ⟨mem, inner⟩)
    exact formed _ mem fields inner

/-- A record is well-formed exactly if it names a kind, has all fields of that kind with well-formed
values, and holds a numeral if it is a number. -/
theorem wellFormed_record_iff {fields : List (String × Json)} :
    (Json.record fields).WellFormed ↔ ∃ kind, Names fields kind ∧
      (∀ name ∈ kind.fields, ∃ value, lookup name fields = some value ∧ value.WellFormed) ∧
      (kind = .numberLit →
        ∃ value x, lookup "value" fields = some value ∧ value.toNumber = .ok x) := by
  constructor
  · intro formed
    obtain ⟨kind, known, all, number⟩ := formed fields .here
    refine ⟨kind, known, fun name declared => ?_, number⟩
    obtain ⟨value, found⟩ := all name declared
    exact ⟨value, found, fun inside reached => formed inside (.field known declared found reached)⟩
  · rintro ⟨kind, known, all, number⟩ inside (_ | _ | ⟨known', declared, found, inner⟩)
    · exact ⟨kind, known, fun name declared => (all name declared).imp fun _ both => both.1, number⟩
    · obtain rfl : kind = _ := Except.ok.inj
        ((claimedKind_eq_ok_iff.2 known).symm.trans (claimedKind_eq_ok_iff.2 known'))
      obtain ⟨value, found', formed⟩ := all _ declared
      cases found.symm.trans found'
      exact formed inside inner

/-- A record that names a kind is well-formed by what it holds in the fields of that kind. -/
theorem wellFormed_record_iff_of_names {fields : List (String × Json)} {kind : Kind}
    (known : Names fields kind) :
    (Json.record fields).WellFormed ↔
      (∀ name ∈ kind.fields, ∃ value, lookup name fields = some value ∧ value.WellFormed) ∧
      (kind = .numberLit →
        ∃ value x, lookup "value" fields = some value ∧ value.toNumber = .ok x) := by
  rw [wellFormed_record_iff]
  constructor
  · rintro ⟨kind', known', met⟩
    obtain rfl : kind = kind' := Except.ok.inj
      ((claimedKind_eq_ok_iff.2 known).symm.trans (claimedKind_eq_ok_iff.2 known'))
    exact met
  · exact fun met => ⟨kind, known, met⟩

/-- Nothing is wrong with the numeral of a number exactly if it reads as one. -/
theorem numeralViolations_eq_nil_iff {kind : Kind} {fields : List (String × Json)}
    (held : kind = .numberLit → ∃ value, lookup "value" fields = some value) :
    numeralViolations kind fields = [] ↔ (kind = .numberLit →
      ∃ value x, lookup "value" fields = some value ∧ value.toNumber = .ok x) := by
  by_cases literal : kind = .numberLit
  · obtain ⟨value, found⟩ := held literal
    cases read : value.toNumber <;> simp [numeralViolations, literal, found, read]
  · simp [numeralViolations, literal]

theorem violations_record {fields : List (String × Json)} {kind : Kind}
    (known : Names fields kind) (room : Nat) :
    violations (room + 1) (.record fields) =
      (kind.fields.flatMap fun name =>
        ((lookup name fields).map (violations room)).getD [.missingField kind name]) ++
      numeralViolations kind fields := by
  rw [violations, claimedKind_eq_ok_iff.2 known]

theorem violations_zero (value : Json) : value.violations 0 = [.tooDeep] := by
  rw [violations]

/-! ## The depth of the normal form -/

theorem depth_eq_one_of_toNumber {value : Json} {x : Float} (number : value.toNumber = .ok x) :
    value.depth = 1 := by
  cases value
  case list | record => cases number
  all_goals rfl

/-- The value of a number is as deep before its conversion as after it. -/
theorem depth_numeral (kind : Kind) (name : String) (value : Json) :
    (numeral kind name value).depth = value.depth := by
  unfold numeral
  split
  · split
    · next number => exact (depth_eq_one_of_toNumber number).symm
    · rfl
  · rfl

theorem depth_normal_list_le_iff {items : List Json} {room : Nat} :
    (normal (.list items)).depth ≤ room + 2 ↔ ∀ item ∈ items, item.normal.depth ≤ room := by
  rw [normal, depth, Nat.add_le_add_iff_right, itemsDepth_le_iff, itemsNormal_eq,
    List.forall_mem_map]

/-- The normal form of a node is as deep as the deepest of its declared fields, and one more. -/
theorem depth_normal_record_le_iff {fields : List (String × Json)} {kind : Kind} {room : Nat}
    (known : Names fields kind) :
    (normal (.record fields)).depth ≤ room + 1 ↔ 1 ≤ room ∧
      ∀ name ∈ kind.fields, ∀ value, lookup name fields = some value →
        value.normal.depth ≤ room := by
  rw [normal, claimedKind_eq_ok_iff.2 known]
  simp only [depth, Nat.add_le_add_iff_right, fieldsDepth_le_iff, List.forall_mem_cons,
    fieldsNormal_eq, lookup_map, List.mem_filterMap, Option.map_map, Option.map_eq_some_iff]
  refine and_congr_right fun _ => ⟨fun all name declared value found => ?_, ?_⟩
  · have part := all _ ⟨name, declared, value, found, rfl⟩
    simpa [depth_numeral] using part
  · rintro all _ ⟨name, declared, value, found, rfl⟩
    simpa [depth_numeral] using all name declared value found

/-- Nothing is wrong with a record that names a kind exactly if it is well-formed and there is room
for it, if this is so of the values of its fields. -/
theorem violations_record_eq_nil_iff {fields : List (String × Json)} {kind : Kind} {room : Nat}
    (known : Names fields kind)
    (each : ∀ name value, lookup name fields = some value →
      (value.violations room = [] ↔ value.WellFormed ∧ value.normal.depth ≤ room)) :
    violations (room + 1) (.record fields) = [] ↔
      (Json.record fields).WellFormed ∧ (normal (.record fields)).depth ≤ room + 1 := by
  have field (name : String) :
      ((lookup name fields).map (violations room)).getD [.missingField kind name] = [] ↔
        ∃ value, lookup name fields = some value ∧ value.WellFormed ∧
          value.normal.depth ≤ room := by
    cases found : lookup name fields with
    | none => simp
    | some value => simpa using each name value found
  rw [violations_record known, List.append_eq_nil_iff, List.flatMap_eq_nil_iff,
    wellFormed_record_iff_of_names known, depth_normal_record_le_iff known]
  simp only [field]
  constructor
  · rintro ⟨all, number⟩
    have held : kind = .numberLit → ∃ value, lookup "value" fields = some value := by
      rintro rfl
      exact (all "value" (by decide)).imp fun _ met => met.1
    refine ⟨⟨fun name declared => ?_, (numeralViolations_eq_nil_iff held).1 number⟩, ?_,
      fun name declared value found => ?_⟩
    · obtain ⟨value, found, formed, -⟩ := all name declared
      exact ⟨value, found, formed⟩
    · obtain ⟨name, declared⟩ := List.exists_mem_of_ne_nil _ (Tree.fields_ne_nil kind)
      obtain ⟨value, -, -, fits⟩ := all name declared
      exact Nat.le_trans (depth_pos value.normal) fits
    · obtain ⟨value', found', -, fits⟩ := all name declared
      cases found.symm.trans found'
      exact fits
  · rintro ⟨⟨all, number⟩, -, fits⟩
    refine ⟨fun name declared => ?_, (numeralViolations_eq_nil_iff fun literal => ?_).2 number⟩
    · obtain ⟨value, found, formed⟩ := all name declared
      exact ⟨value, found, formed, fits name declared value found⟩
    · obtain ⟨value, x, found, -⟩ := number literal
      exact ⟨value, found⟩

/-- The values with nothing wrong are those that are well-formed, where there is room for them. -/
theorem violations_eq_nil_iff (room : Nat) (value : Json) :
    value.violations room = [] ↔ value.WellFormed ∧ value.normal.depth ≤ room := by
  have outside : ¬ value.normal.depth ≤ 0 := Nat.not_le.2 (depth_pos value.normal)
  induction value using parts_induction generalizing room with
  | list items ih =>
    rcases room with _ | _ | room
    · simp [violations_zero, outside]
    · simp [violations, normal, depth]
    · rw [violations, List.flatMap_eq_nil_iff, wellFormed_list_iff, depth_normal_list_le_iff,
        ← forall₂_and]
      exact forall₂_congr fun item mem => ih item mem room (Nat.not_le.2 (depth_pos item.normal))
  | record fields ih =>
    cases room with
    | zero => simp [violations_zero, outside]
    | succ room =>
      cases claimed : Tree.claimedKind fields with
      | error e =>
        rw [violations, claimed, wellFormed_record_iff]
        refine ⟨fun none => absurd none (List.cons_ne_nil e []), ?_⟩
        rintro ⟨⟨kind, known, -⟩, -⟩
        cases claimed.symm.trans (claimedKind_eq_ok_iff.2 known)
      | ok kind =>
        exact violations_record_eq_nil_iff (claimedKind_eq_ok_iff.1 claimed)
          fun name value found => ih _ (mem_of_lookup found) room
            (Nat.not_le.2 (depth_pos value.normal))
  | _ =>
    cases room with
    | zero => simp [violations_zero, outside]
    | succ room =>
      simp only [violations, normal, depth, true_iff]
      refine ⟨fun fields reached => ?_, Nat.le_add_left 1 room⟩
      cases reached

end Json

namespace Tree

open Json (Names violations numeralViolations normal numeral)

/-! ## Attempts that fail first with the first violation -/

/-- An attempt fails with the first violation; if there is none, what it gives is good. -/
def FailsFirst {α : Type} (wrong : List CodecError) (good : α → Prop) :
    Except CodecError α → Prop
  | .error e => wrong.head? = some e
  | .ok found => wrong = [] ∧ good found

section FailsFirst

variable {α β : Type} {wrong later : List CodecError} {good : α → Prop} {good' : β → Prop}
  {attempt : Except CodecError α}

/-- The wrongs of two steps come in order, those of the second only if the first has none. -/
theorem FailsFirst.bind {next : α → Except CodecError β} (first : FailsFirst wrong good attempt)
    (onward : ∀ found, good found → FailsFirst later good' (next found)) :
    FailsFirst (wrong ++ later) good' (attempt >>= next) := by
  cases attempt with
  | error e =>
    show (wrong ++ later).head? = some e
    rw [List.head?_append, (first : wrong.head? = some e), Option.some_or]
  | ok found =>
    obtain ⟨rfl, met⟩ := first
    exact onward found met

theorem FailsFirst.eq_error_iff (fails : FailsFirst wrong good attempt) {e : CodecError} :
    attempt = .error e ↔ wrong.head? = some e := by
  cases attempt with
  | error e' =>
    rw [(fails : wrong.head? = some e')]
    simp
  | ok found => simp [fails.1]

/-- An attempt succeeds exactly if nothing is wrong. -/
theorem FailsFirst.exists_eq_ok_iff (fails : FailsFirst wrong good attempt) :
    (∃ found, attempt = .ok found) ↔ wrong = [] := by
  cases attempt with
  | error e =>
    have first : wrong.head? = some e := fails
    constructor
    · rintro ⟨found, same⟩
      cases same
    · rintro rfl
      cases first
  | ok found => exact ⟨fun _ => fails.1, fun _ => ⟨found, rfl⟩⟩

theorem FailsFirst.map {make : α → β} (first : FailsFirst wrong good attempt)
    (made : ∀ found, good found → good' (make found)) :
    FailsFirst wrong good' (attempt.map make) := by
  cases attempt with
  | error e => exact first
  | ok found => exact ⟨first.1, made found first.2⟩

/-- Things that are asked for one after the other. -/
theorem failsFirst_mapM {α β : Type} {ask : α → Except CodecError β}
    {wrong : α → List CodecError} {good : α → β → Prop} (as : List α)
    (each : ∀ a ∈ as, FailsFirst (wrong a) (good a) (ask a)) :
    FailsFirst (as.flatMap wrong) (List.Forall₂ good as) (as.mapM ask) := by
  induction as with
  | nil => exact ⟨rfl, .nil⟩
  | cons a as ih =>
    obtain ⟨head, tail⟩ := List.forall_mem_cons.1 each
    rw [List.flatMap_cons, List.mapM_cons]
    refine head.bind fun b met => ?_
    rw [← List.append_nil (as.flatMap wrong)]
    exact (ih tail).bind fun bs all => ⟨rfl, .cons met all⟩

end FailsFirst

/-! ## The parts of a node -/

/-- A node that is no number literal, from its parts. -/
def ofParts : Kind → List Tree → Tree
  | .program, [body] => .program body
  | .block, [statements] => .block statements
  | .declare, [name, value, fixed, line] => .declare name value fixed line
  | .assign, [name, value, line] => .assign name value line
  | .say, [value, line] => .say value line
  | .display, [value, line] => .display value line
  | .ask, [name, line] => .ask name line
  | .branch, [condition, body, line] => .branch condition body line
  | .choose, [branches, otherwise, line] => .choose branches otherwise line
  | .range, [name, first, last, body, line] => .range name first last body line
  | .whilst, [condition, body, line] => .whilst condition body line
  | .leave, [line] => .leave line
  | .next, [line] => .next line
  | .textLit, [value, line] => .textLit value line
  | .flagLit, [value, line] => .flagLit value line
  | .ident, [name, line] => .ident name line
  | .unary, [op, operand, line] => .unary op operand line
  | .binary, [op, left, right, line] => .binary op left right line
  | .call, [name, args, line] => .call name args line
  | _, _ => .null

/-- The parts of a node are asked for in the order of its fields. -/
theorem build_eq_map {kind : Kind} (plain : kind ≠ .numberLit) (place : List Nat)
    (read : String → Except CodecError Tree) :
    build kind place read = ofParts kind <$> kind.fields.mapM read := by
  cases kind
  case numberLit => exact absurd rfl plain
  all_goals simp [build, Kind.fields, ofParts]

/-- A node of a kind is written with the forms of its parts. -/
theorem form_ofParts {kind : Kind} (plain : kind ≠ .numberLit) {values : List Tree}
    (count : values.length = kind.fields.length) :
    (ofParts kind values).form = node kind (values.map form) := by
  rcases values with _ | ⟨a, _ | ⟨b, _ | ⟨c, _ | ⟨d, _ | ⟨e, _ | ⟨f, rest⟩⟩⟩⟩⟩⟩ <;> cases kind
  all_goals first
    | exact absurd rfl plain
    | rfl
    | simp [Kind.fields] at count

theorem toNumber_ofParts (kind : Kind) (values : List Tree) :
    (ofParts kind values).toNumber = .error .notNumeric := by
  unfold ofParts
  split <;> rfl

/-! ## Number literals -/

/-- The numerals that are not numbers are all read as the same double. -/
theorem eq_nan_of_magnitude? {negative : Bool} {cs : List Char} {x : Float}
    (read : Number.magnitude? negative cs = some x) (undefined : x.isNaN = true) :
    x = Number.nan := by
  simp only [Number.magnitude?] at read
  split_ifs at read
  · cases read
    rw [Number.isNaN_ofCode] at undefined
    cases undefined
  · cases read
    rfl
  · unfold Number.scientific? at read
    split at read
    split at read
    split_ifs at read
    obtain ⟨exponent, -, rfl⟩ := Option.map_eq_some_iff.1 read
    rw [Number.isNaN_ofDecimal] at undefined
    cases undefined

/-- Only one `nan` is ever read. -/
theorem eq_nan_of_read? {s : String} {x : Float} (read : Number.read? s = some x)
    (undefined : x.isNaN = true) : x = Number.nan := by
  obtain ⟨cs, -, found⟩ := Option.bind_eq_some_iff.1 read
  exact eq_nan_of_magnitude? found undefined

/-- A number literal is written with its number, also where it spells out `nan`. -/
theorem form_literalAt {place : List Nat} {given line : Tree} {x : Float}
    (read : given.toNumber = .ok x) :
    (literalAt place given x line).form = node .numberLit [.number x, line.form] := by
  unfold literalAt
  split
  · next s =>
    split_ifs with undefined
    · have found : Number.read? s = some x := by
        cases spelled : Number.read? s with
        | none => simp [toNumber, spelled] at read
        | some y => simpa [toNumber, spelled] using read
      rw [eq_nan_of_read? found undefined, form]
    · rw [form]
  · rw [form]

theorem toNumber_literalAt (place : List Nat) (given : Tree) (x : Float) (line : Tree) :
    (literalAt place given x line).toNumber = .error .notNumeric := by
  unfold literalAt
  split
  · split_ifs <;> rfl
  · rfl

/-! ## The reader fails first -/

/-- The form of the tree is the normal form of the value, and both stand for the same number. -/
def Shows (value : Json) (t : Tree) : Prop :=
  t.form = value.normal ∧ t.toNumber = value.toNumber

theorem toNumber_normal (value : Json) : value.normal.toNumber = value.toNumber := by
  cases value
  case record fields =>
    rw [normal]
    split <;> rfl
  all_goals rfl

/-- The items of a list are read one after the other, each at its position. -/
theorem failsFirst_items {items : List Json} {room : Nat}
    (each : ∀ item ∈ items, ∀ place,
      FailsFirst (item.violations room) (Shows item) (ofJsonAt room place item))
    (place : List Nat) (first : Nat) :
    FailsFirst (items.flatMap (violations room)) (fun ts => ts.map form = items.map normal)
      ((items.zipIdx first).mapM fun item => ofJsonAt room (item.2 :: place) item.1) := by
  induction items generalizing first with
  | nil => exact ⟨rfl, rfl⟩
  | cons item items ih =>
    obtain ⟨head, tail⟩ := List.forall_mem_cons.1 each
    rw [List.zipIdx_cons, List.mapM_cons, List.flatMap_cons]
    refine (head _).bind fun t shown => ?_
    rw [← List.append_nil (items.flatMap (violations room))]
    refine (ih tail _).bind fun ts all => ⟨rfl, ?_⟩
    show (t :: ts).map form = _
    rw [List.map_cons, List.map_cons, shown.1, all]

/-- The form of a part of a node is that of the value of its field. -/
def ShowsPart (fields : List (String × Json)) (name : String) (t : Tree) : Prop :=
  ∃ value, Json.lookup name fields = some value ∧ Shows value t

/-- A part is refused for its absence or for the first wrong of its value. -/
theorem failsFirst_part {fields : List (String × Json)} {room : Nat}
    (each : ∀ field ∈ fields, ∀ place,
      FailsFirst (field.2.violations room) (Shows field.2) (ofJsonAt room place field.2))
    (kind : Kind) (place : List Nat) (name : String) :
    FailsFirst (((Json.lookup name fields).map (violations room)).getD [.missingField kind name])
      (ShowsPart fields name) (part kind fields (ofJsonAt room place) name) := by
  rw [part]
  cases found : Json.lookup name fields with
  | none => exact rfl
  | some value =>
    have attempt := each _ (Json.mem_of_lookup found) place
    show FailsFirst (value.violations room) (ShowsPart fields name) (ofJsonAt room place value)
    cases outcome : ofJsonAt room place value with
    | error e =>
      rw [outcome] at attempt
      exact attempt
    | ok t =>
      rw [outcome] at attempt
      exact ⟨attempt.1, value, found, attempt.2⟩

/-- The normal form of a node is its kind with the forms of its parts. -/
theorem normal_record_of_parts {fields : List (String × Json)} {kind : Kind} {values : List Tree}
    (known : Names fields kind) (plain : kind ≠ .numberLit)
    (written : List.Forall₂ (ShowsPart fields) kind.fields values) :
    normal (.record fields) = node kind (values.map form) := by
  have zipped {names : List String} {values : List Tree}
      (written : List.Forall₂ (ShowsPart fields) names values) :
      (names.filterMap fun name => ((Json.lookup name fields).map normal).map fun value =>
        (name, numeral kind name value)) = names.zip (values.map form) := by
    induction written with
    | nil => rfl
    | @cons name t names values first rest ih =>
      obtain ⟨value, found, same, -⟩ := first
      have kept : numeral kind name value.normal = value.normal :=
        if_neg fun both => plain both.1
      rw [List.filterMap_cons, found, ih, List.map_cons, List.zip_cons_cons, same]
      simp only [Option.map_some, kept]
  rw [normal, Json.claimedKind_eq_ok_iff.2 known]
  simp only [Json.fieldsNormal_eq, Json.lookup_map, zipped written, node]

/-- A number is refused for the first wrong of its fields, and only then for its numeral. -/
theorem failsFirst_literal {fields : List (String × Json)} {place : List Nat}
    {read : String → Except CodecError Tree} {wrong : String → List CodecError}
    (known : Names fields .numberLit)
    (each : ∀ name, FailsFirst (wrong name) (ShowsPart fields name) (read name)) :
    FailsFirst ((Kind.fields .numberLit).flatMap wrong ++ numeralViolations .numberLit fields)
      (Shows (.record fields)) (build .numberLit place read) := by
  have order : (Kind.fields .numberLit).flatMap wrong ++ numeralViolations .numberLit fields =
      wrong "value" ++ (wrong "line" ++ numeralViolations .numberLit fields) := by
    simp [Kind.fields]
  rw [order]
  refine (each "value").bind fun given held => (each "line").bind fun line held' => ?_
  obtain ⟨value, found, -, same⟩ := held
  obtain ⟨value', found', written, -⟩ := held'
  cases number : given.toNumber with
  | error e =>
    rw [number] at same
    show (numeralViolations .numberLit fields).head? = some e
    simp [numeralViolations, found, ← same]
  | ok x =>
    rw [number] at same
    refine ⟨by simp [numeralViolations, found, ← same], ?_, toNumber_literalAt ..⟩
    have replaced : numeral .numberLit "value" value.normal = .number x := by
      rw [numeral, if_pos ⟨rfl, rfl⟩, toNumber_normal, ← same]
    have kept : numeral .numberLit "line" value'.normal = value'.normal := by
      simp [numeral]
    rw [form_literalAt number, normal, Json.claimedKind_eq_ok_iff.2 known]
    simp only [Json.fieldsNormal_eq, Json.lookup_map, Kind.fields, List.filterMap_cons,
      List.filterMap_nil, found, found', Option.map_some, replaced, kept, node, List.zip_cons_cons,
      List.zip_nil_right, written]

/-- The reader of trees fails with the first violation, and otherwise gives a tree whose form is the
normal form. -/
theorem failsFirst_ofJsonAt (room : Nat) (value : Json) (place : List Nat) :
    FailsFirst (value.violations room) (Shows value) (ofJsonAt room place value) := by
  induction value using Json.parts_induction generalizing room place with
  | list items ih =>
    rcases room with _ | _ | room
    · rw [Json.violations_zero, ofJsonAt]
      exact rfl
    · rw [violations, ofJsonAt]
      exact rfl
    · rw [violations, ofJsonAt, ← List.append_nil (items.flatMap _)]
      refine (failsFirst_items (fun item mem => ih item mem room) place 0).bind fun ts all => ?_
      refine ⟨rfl, ?_, rfl⟩
      rw [form, forms_eq_map, all, normal, Json.itemsNormal_eq]
  | record fields ih =>
    cases room with
    | zero =>
      rw [Json.violations_zero, ofJsonAt]
      exact rfl
    | succ room =>
      cases claimed : claimedKind fields with
      | error e =>
        rw [violations, ofJsonAt, claimed]
        exact rfl
      | ok kind =>
        have known := Json.claimedKind_eq_ok_iff.1 claimed
        rw [Json.violations_record known, ofJsonAt, claimed]
        have each (name : String) :=
          failsFirst_part (fun field mem => ih field mem room) kind
            (kind.fields.idxOf name :: place) name
        by_cases literal : kind = .numberLit
        · subst literal
          exact failsFirst_literal known each
        · have none : numeralViolations kind fields = [] := if_neg literal
          show FailsFirst _ (Shows (.record fields)) (build kind place fun name =>
            part kind fields (ofJsonAt room (kind.fields.idxOf name :: place)) name)
          rw [none, List.append_nil, build_eq_map literal]
          refine (failsFirst_mapM kind.fields fun name _ => each name).map fun values shown => ?_
          refine ⟨?_, toNumber_ofParts kind values⟩
          rw [form_ofParts literal shown.length_eq.symm, normal_record_of_parts known literal shown]
  | _ =>
    cases room with
    | zero =>
      rw [Json.violations_zero, ofJsonAt]
      exact rfl
    | succ room =>
      simp only [violations, ofJsonAt]
      exact ⟨rfl, rfl, rfl⟩

/-! ## The normal form keeps what is wrong -/

/-- Looking up a declared field among the declared ones finds what the record holds. -/
theorem lookup_filterMap {names : List String} (distinct : names.Nodup)
    (held : String → Option Json) (change : String → Json → Json) (name : String) :
    Json.lookup name (names.filterMap fun name => (held name).map fun value =>
      (name, change name value)) =
        if name ∈ names then (held name).map (change name) else none := by
  induction names with
  | nil => rfl
  | cons first names ih =>
    obtain ⟨fresh, others⟩ := List.nodup_cons.1 distinct
    have later := ih others
    rw [List.filterMap_cons]
    by_cases same : name = first
    · rw [same] at later ⊢
      rw [if_neg fresh] at later
      cases found : held first <;> simp [Json.lookup, later]
    · cases found : held first with
      | none => simp [later, same]
      | some value =>
        simp only [Option.map_some, Json.lookup, later, List.mem_cons, same, false_or]
        rw [if_neg (Ne.symm same)]
        split <;> simp_all

/-- The fields of a node in its normal form. -/
theorem exists_normal_record {fields : List (String × Json)} {kind : Kind}
    (known : Names fields kind) :
    ∃ fields', normal (.record fields) = .record fields' ∧ Names fields' kind ∧
      ∀ name ∈ kind.fields, Json.lookup name fields' =
        (Json.lookup name fields).map fun value => numeral kind name value.normal := by
  obtain ⟨unnamed, distinct⟩ := List.nodup_cons.1 (nodup_names kind)
  have held := lookup_filterMap distinct
    (fun name => (Json.lookup name fields).map normal) (numeral kind)
  have opened : normal (.record fields) = .record (("type", .text kind.label) ::
      kind.fields.filterMap fun name => ((Json.lookup name fields).map normal).map fun value =>
        (name, numeral kind name value)) := by
    rw [normal, Json.claimedKind_eq_ok_iff.2 known]
    simp only [Json.fieldsNormal_eq, Json.lookup_map]
  refine ⟨_, opened, ?_, fun name declared => ?_⟩
  · rw [Names, Json.lookup, held, if_neg unnamed]
    exact if_pos rfl
  · have other : "type" ≠ name := fun same => unnamed (same ▸ declared)
    rw [Json.lookup, held, if_pos declared]
    cases Json.lookup name fields with
    | none => exact if_neg other
    | some value => rfl

/-- As a value to be converted, a numeral has nothing wrong with it that its number has not. -/
theorem violations_of_toNumber {value : Json} {x : Float} (number : value.toNumber = .ok x)
    (room : Nat) : value.violations room = (Json.number x).violations room := by
  cases room with
  | zero => rw [Json.violations_zero, Json.violations_zero]
  | succ room =>
    cases value
    case list | record => cases number
    all_goals simp only [violations]

/-- The conversion of a numeral changes nothing about what is wrong. -/
theorem violations_numeral (kind : Kind) (name : String) {value : Json} {room : Nat}
    (kept : value.normal.violations room = value.violations room) :
    (numeral kind name value.normal).violations room = value.violations room := by
  unfold numeral
  split
  · rw [toNumber_normal]
    split
    · next number => exact (violations_of_toNumber number room).symm
    · exact kept
  · exact kept

/-- A converted numeral converts to the same number. -/
theorem toNumber_numeral (value : Json) :
    (numeral .numberLit "value" value.normal).toNumber = value.toNumber := by
  rw [numeral, if_pos ⟨rfl, rfl⟩, toNumber_normal]
  split
  · next number =>
    rw [number]
    rfl
  · exact toNumber_normal value

/-- Nothing that is wrong with a value goes away in its normal form, and nothing is added. -/
theorem violations_normal (room : Nat) (value : Json) :
    value.normal.violations room = value.violations room := by
  induction value using Json.parts_induction generalizing room with
  | list items ih =>
    rcases room with _ | _ | room
    · rw [Json.violations_zero, Json.violations_zero]
    · rw [normal, violations, violations]
    · rw [normal, violations, violations, Json.itemsNormal_eq, List.flatMap_map]
      exact List.flatMap_congr fun item mem => ih item mem room
  | record fields ih =>
    cases room with
    | zero => rw [Json.violations_zero, Json.violations_zero]
    | succ room =>
      cases claimed : claimedKind fields with
      | error e => rw [normal, claimed]
      | ok kind =>
        have known := Json.claimedKind_eq_ok_iff.1 claimed
        obtain ⟨fields', same, known', held⟩ := exists_normal_record known
        rw [same, Json.violations_record known, Json.violations_record known']
        have numbers : numeralViolations kind fields' = numeralViolations kind fields := by
          by_cases literal : kind = .numberLit
          · subst literal
            have number := held "value" (by decide)
            simp only [numeralViolations, number, Option.map_map, Function.comp_def,
              toNumber_numeral]
          · rw [numeralViolations, numeralViolations, if_neg literal, if_neg literal]
        rw [numbers]
        refine congrArg (· ++ _) (List.flatMap_congr fun name declared => ?_)
        rw [held name declared]
        cases found : Json.lookup name fields with
        | none => rfl
        | some value => exact violations_numeral kind name (ih _ (Json.mem_of_lookup found) room)
  | _ => rfl

theorem failsFirst_ofJson (room : Nat) (value : Json) :
    FailsFirst (value.violations room) (Shows value) (ofJson room value) :=
  failsFirst_ofJsonAt room value []

/-- A tree that was read is written in the room in which it was read, as the normal form. -/
theorem toJson_of_ofJson {room : Nat} {value : Json} {tree : Tree}
    (read : ofJson room value = .ok tree) : tree.toJson room = .ok value.normal := by
  have attempt := failsFirst_ofJson room value
  rw [read] at attempt
  obtain ⟨right, shown, -⟩ := attempt
  rw [toJson_eq_ok_iff, shown]
  exact ⟨((Json.violations_eq_nil_iff room value).1 right).2, rfl⟩

/-- The normal form is read as the value itself is, up to where a `nan` was read. -/
theorem ofJson_normal (room : Nat) (value : Json) :
    ofJson room value.normal = (ofJson room value).map settle := by
  cases outcome : ofJson room value with
  | error e =>
    have first := (failsFirst_ofJson room value).eq_error_iff.1 outcome
    rw [← violations_normal] at first
    exact (failsFirst_ofJson room value.normal).eq_error_iff.2 first
  | ok tree =>
    rw [ofJson_of_toJson (toJson_of_ofJson outcome)]
    rfl

/-! ## What is read, and why something is not -/

/-- Naming no kind is another wrong than being too deep. -/
theorem claimedKind_ne_tooDeep (fields : List (String × Json)) :
    claimedKind fields ≠ .error .tooDeep := by
  unfold claimedKind
  split
  · split <;> simp
  all_goals simp

/-- Being no numeral is another wrong than being too deep. -/
theorem toNumber_ne_tooDeep (t : Tree) : t.toNumber ≠ .error .tooDeep := by
  unfold toNumber
  split
  case h_3 => simp only; split <;> simp
  case h_4 => split <;> simp
  all_goals simp

/-- What is wrong with a numeral is never its depth. -/
theorem tooDeep_notMem_numeralViolations (kind : Kind) (fields : List (String × Json)) :
    .tooDeep ∉ numeralViolations kind fields := by
  intro wrong
  unfold numeralViolations at wrong
  split at wrong
  · split at wrong
    · next e found =>
      obtain ⟨value, -, number⟩ := Option.map_eq_some_iff.1 found
      rw [List.mem_singleton] at wrong
      exact toNumber_ne_tooDeep _ (wrong ▸ number)
    · cases wrong
  · cases wrong

/-- Where there is room for the whole value, depth is not among what is wrong with it. -/
theorem tooDeep_notMem_violations {room : Nat} {value : Json} (fits : value.depth ≤ room) :
    .tooDeep ∉ value.violations room := by
  induction value using Json.parts_induction generalizing room with
  | list items ih =>
    obtain ⟨room, rfl⟩ := Json.exists_eq_add_two_of_depth_le fits
    rw [Json.depth, Nat.add_le_add_iff_right, Json.itemsDepth_le_iff] at fits
    rw [violations, List.mem_flatMap]
    rintro ⟨item, mem, wrong⟩
    exact ih item mem (fits item mem) wrong
  | record fields ih =>
    obtain ⟨room, rfl⟩ := Json.exists_eq_succ_of_depth_le fits
    rw [Json.depth, Nat.add_le_add_iff_right, Json.fieldsDepth_le_iff] at fits
    cases claimed : claimedKind fields with
    | error e =>
      rw [violations, claimed, List.mem_singleton]
      rintro rfl
      exact claimedKind_ne_tooDeep fields claimed
    | ok kind =>
      rw [Json.violations_record (Json.claimedKind_eq_ok_iff.1 claimed), List.mem_append,
        List.mem_flatMap]
      rintro (⟨name, -, wrong⟩ | wrong)
      · cases found : Json.lookup name fields with
        | none => simp [found] at wrong
        | some value =>
          have mem := Json.mem_of_lookup found
          rw [found] at wrong
          exact ih _ mem (fits _ mem) wrong
      · exact tooDeep_notMem_numeralViolations kind fields wrong
  | _ =>
    obtain ⟨room, rfl⟩ := Json.exists_eq_succ_of_depth_le fits
    simp [violations]

/-- A JSON value is read exactly if it is well-formed and there is room for its normal form, and the
tree is written as that form, without undeclared fields.  A value that is not read is refused for
the first thing that is wrong with it; its depth may be such a thing, but only if there is no room
for the whole value.  Undeclared fields change neither outcome. -/
theorem ofJson_accepts_well_formed (room : Nat) (value : Json) :
    ((∃ tree, ofJson room value = .ok tree) ↔ value.WellFormed ∧ value.normal.depth ≤ room) ∧
    (∀ tree, ofJson room value = .ok tree → tree.toJson room = .ok value.normal) ∧
    (∀ e, ofJson room value = .error e ↔ (value.violations room).head? = some e) ∧
    (value.depth ≤ room → .tooDeep ∉ value.violations room) ∧
    ofJson room value.normal = (ofJson room value).map settle := by
  have attempt := failsFirst_ofJson room value
  rw [← Json.violations_eq_nil_iff]
  exact ⟨attempt.exists_eq_ok_iff, fun _ => toJson_of_ofJson, fun _ => attempt.eq_error_iff,
    tooDeep_notMem_violations, ofJson_normal room value⟩

/-- An operation with three things wrong: the number of its left operand, which has an undeclared
field in front, the kind of its right one, and its own line. -/
theorem ofJson_refuses_first_of_three :
    let left : Json := .record [("note", .record []), ("type", .text "NumberLit"),
      ("line", .text "x"), ("value", .null)]
    let value : Json := .record [("right", .record [("type", .text "Nope")]), ("left", left),
      ("op", .text "+"), ("type", .text "BinaryOp")]
    value.violations room =
        [.notNumeric, .unknownKind (.text "Nope"), .missingField .binary "line"] ∧
      ofJson room value = .error .notNumeric ∧ ¬ value.WellFormed := by
  intro left value
  have wrong : value.violations room =
      [.notNumeric, .unknownKind (.text "Nope"), .missingField .binary "line"] := by
    rfl
  obtain ⟨accepted, -, refused, -⟩ := ofJson_accepts_well_formed room value
  have stopped : ofJson room value = .error .notNumeric := (refused _).2 (by rw [wrong]; rfl)
  refine ⟨wrong, stopped, fun formed => ?_⟩
  obtain ⟨tree, read⟩ := accepted.2 ⟨formed, by decide⟩
  cases stopped.symm.trans read

/-! ### Well-formed values that are too deep -/

/-- Lists inside each other, `depth` of them, around nothing. -/
def nestedLists : Nat → Json
  | 0 => .null
  | depth + 1 => .list [nestedLists depth]

theorem wellFormed_nestedLists (depth : Nat) : (nestedLists depth).WellFormed := by
  induction depth with
  | zero => rintro fields (_ | _)
  | succ depth ih =>
    rw [nestedLists, Json.wellFormed_list_iff, List.forall_mem_singleton]
    exact ih

/-- Every list takes two units of room, and the innermost value one. -/
theorem ofJsonAt_nestedLists {depth room : Nat} (deep : room ≤ 2 * depth) (place : List Nat) :
    ofJsonAt room place (nestedLists depth) = .error .tooDeep := by
  induction depth generalizing room place with
  | zero =>
    obtain rfl : room = 0 := Nat.le_zero.1 deep
    rw [ofJsonAt]
  | succ depth ih =>
    rcases room with _ | _ | room
    · rw [ofJsonAt]
    · rw [nestedLists, ofJsonAt]
    · rw [nestedLists, ofJsonAt, List.zipIdx_cons, List.mapM_cons, ih (by omega)]
      rfl

/-- Lists inside each other, 600 of them, are well-formed, and a command refuses them. -/
theorem ofJson_refuses_nested_lists :
    (nestedLists 600).WellFormed ∧ ofJson room (nestedLists 600) = .error .tooDeep :=
  ⟨wellFormed_nestedLists 600, ofJsonAt_nestedLists (by decide) []⟩

/-! ## What was read is read back -/

/-- What is written after reading a JSON value. -/
def rewritten (room : Nat) (json : Json) : Except CodecError Json :=
  ofJson room json >>= toJson room

/-- A program is read back from what is written of its tree, and that is written wherever there is
room for its depth and nowhere else.  Every tree that was read is written in the room in which it
was read, and is read back from there; so what is written after reading stays as it is from then
on. -/
theorem toJson_reads_back (room : Nat) :
    (∀ program : Program, program.toTree.form.depth ≤ room →
      ∃ json, program.toTree.toJson room = .ok json ∧ ofJson room json = .ok program.toTree) ∧
    (∀ program : Program, room < program.toTree.form.depth →
      program.toTree.toJson room = .error .tooDeep) ∧
    ∀ json tree, ofJson room json = .ok tree →
      ∃ written, tree.toJson room = .ok written ∧
        (∃ again, ofJson room written = .ok again ∧ again.Alike tree ∧
          (Settled tree → again = tree)) ∧
        rewritten room json = .ok written ∧ rewritten room written = .ok written := by
  refine ⟨fun program fits => ?_, fun program deep => ?_, fun json tree read => ?_⟩
  · have written := toJson_eq_ok_iff.2 ⟨fits, rfl⟩
    exact ⟨_, written, program.ofJson_of_toJson written⟩
  · rw [toJson_eq, if_neg (Nat.not_le.2 deep)]
  · have written := toJson_of_ofJson read
    have back := ofJson_of_toJson written
    refine ⟨json.normal, written, ⟨tree.settle, back, alike_settle tree, Settled.settle_eq⟩,
      ?_, ?_⟩
    · rw [rewritten, read]
      exact written
    · rw [rewritten, back]
      exact (toJson_settle room tree).trans written

/-- A literal that spells out `nan`, with a list in the place of its line, is written with the
number, which is what is read from then on.  The program of one `break` takes five units of room. -/
theorem toJson_reads_back_nan :
    let json : Json := .record [("type", .text "NumberLit"), ("value", .text "nan"),
      ("line", .list [.null, .text "x"])]
    let number : Json := .record [("type", .text "NumberLit"), ("value", .number Number.nan),
      ("line", .list [.null, .text "x"])]
    let program : Program := ⟨[.leave 1]⟩
    ofJson room json = .ok (.nanLit [] (.list [.null, .text "x"])) ∧
      rewritten room json = .ok number ∧ rewritten room number = .ok number ∧
      (∃ json, program.toTree.toJson 5 = .ok json ∧ ofJson 5 json = .ok program.toTree) ∧
      program.toTree.toJson 4 = .error .tooDeep := by
  intro json number program
  have read : ofJson room json = .ok (.nanLit [] (.list [.null, .text "x"])) := by
    rfl
  obtain ⟨written, same, -, once, again⟩ := (toJson_reads_back room).2.2 _ _ read
  have form : written = number := Except.ok.inj (same.symm.trans rfl)
  rw [form] at once again
  exact ⟨read, once, again, (toJson_reads_back 5).1 program (by decide),
    (toJson_reads_back 4).2.1 program (by decide)⟩

end Tree

end Parlance
