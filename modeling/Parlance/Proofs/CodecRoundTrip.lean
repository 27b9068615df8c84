import Mathlib.Data.List.Forall2
import Parlance.Tree.Codec

/-!
# Trees read back from their JSON form

Writing a tree gives its form exactly where there is room for the depth of the form, and fails with
`tooDeep` elsewhere (`toJson_eq`).  A list counts twice, since the loop over its items takes room
too (`Json.depth`).

A node is its kind and its parts, and its JSON form is the record of both.  Since the names of the
parts of a kind are distinct, reading the record finds every part under its name, and `build` puts
the same node together again.  This holds for all trees but those with a number literal that spells
out `nan`, which is written as the number it stands for; no program has one.

Such a literal is read back as one that holds the number (`Tree.settle`).  Where numbers are told
apart by what they look like, this is the same tree, and it is written as the first one was.
-/

namespace Parlance

/-! ## Depth -/

namespace Json

mutual

/-- The room that it takes to write or to read a value as a tree. -/
def depth : Json → Nat
  | .list items => itemsDepth items + 2
  | .record fields => fieldsDepth fields + 1
  | _ => 1

/-- The room that the deepest of some items takes. -/
def itemsDepth : List Json → Nat
  | [] => 0
  | item :: items => max item.depth (itemsDepth items)

/-- The room that the deepest of some fields takes. -/
def fieldsDepth : List (String × Json) → Nat
  | [] => 0
  | (_, value) :: fields => max value.depth (fieldsDepth fields)

end

theorem itemsDepth_le_iff {items : List Json} {room : Nat} :
    itemsDepth items ≤ room ↔ ∀ item ∈ items, item.depth ≤ room := by
  induction items with
  | nil => simp [itemsDepth]
  | cons item items ih => simp only [itemsDepth, Nat.max_le, ih, List.forall_mem_cons]

theorem fieldsDepth_le_iff {fields : List (String × Json)} {room : Nat} :
    fieldsDepth fields ≤ room ↔ ∀ field ∈ fields, field.2.depth ≤ room := by
  induction fields with
  | nil => simp [fieldsDepth]
  | cons field fields ih => simp only [fieldsDepth, Nat.max_le, ih, List.forall_mem_cons]

theorem depth_pos (value : Json) : 0 < value.depth := by
  cases value <;> simp [depth]

/-- Whatever fits takes a unit of the room at least. -/
theorem exists_eq_succ_of_depth_le {value : Json} {room : Nat} (fits : value.depth ≤ room) :
    ∃ n, room = n + 1 :=
  Nat.exists_eq_add_one.2 (Nat.lt_of_lt_of_le (depth_pos value) fits)

/-- A list that fits takes two units of the room at least. -/
theorem exists_eq_add_two_of_depth_le {items : List Json} {room : Nat}
    (fits : (Json.list items).depth ≤ room) : ∃ n, room = n + 2 :=
  Nat.exists_eq_add_of_le' (Nat.le_trans (Nat.le_add_left 2 _) fits)

end Json

/-- Attempts that all fail in one way if they fail, one after the other. -/
theorem mapM_eq_ite {α β ε : Type} {attempt : α → Except ε β} {result : α → β} {good : α → Prop}
    [DecidablePred good] {failure : ε} {as : List α}
    (each : ∀ a ∈ as, attempt a = if good a then .ok (result a) else .error failure) :
    as.mapM attempt = if ∀ a ∈ as, good a then .ok (as.map result) else .error failure := by
  induction as with
  | nil => rfl
  | cons a as ih =>
    obtain ⟨head, tail⟩ := List.forall_mem_cons.1 each
    rw [List.mapM_cons, head, ih tail]
    by_cases first : good a
    · by_cases rest : ∀ a ∈ as, good a
      · rw [if_pos first, if_pos rest, if_pos (List.forall_mem_cons.2 ⟨first, rest⟩)]
        rfl
      · rw [if_pos first, if_neg rest, if_neg fun all => rest (List.forall_mem_cons.1 all).2]
        rfl
    · rw [if_neg first, if_neg fun all => first (List.forall_mem_cons.1 all).1]
      rfl

/-- Attempts that all succeed, wherever they are made. -/
theorem mapM_zipIdx_eq_ok {α β ε : Type} {attempt : α × Nat → Except ε β} {as : List α}
    {results : List β}
    (each : List.Forall₂ (fun a b => ∀ index, attempt (a, index) = .ok b) as results)
    (first : Nat) : (as.zipIdx first).mapM attempt = .ok results := by
  induction each generalizing first with
  | nil => rfl
  | cons head tail ih =>
    rw [List.zipIdx_cons, List.mapM_cons, head, ih]
    rfl

namespace Tree

/-! ## Writing -/

theorem forms_eq_map (ts : List Tree) : forms ts = ts.map form := by
  induction ts with
  | nil => rfl
  | cons t ts ih => rw [forms, ih, List.map_cons]

theorem form_of_kind? {t : Tree} {kind : Kind} (known : t.kind? = some kind) :
    t.form = node kind (t.parts.map form) := by
  cases t <;> cases known <;> simp [form, parts]

theorem length_parts {t : Tree} {kind : Kind} (known : t.kind? = some kind) :
    t.parts.length = kind.fields.length := by
  cases t <;> cases known <;> rfl

theorem fields_ne_nil (kind : Kind) : kind.fields ≠ [] := by
  cases kind <;> decide

theorem parts_ne_nil {t : Tree} {kind : Kind} (known : t.kind? = some kind) : t.parts ≠ [] := by
  rw [← List.length_pos_iff, length_parts known, List.length_pos_iff]
  exact fields_ne_nil kind

/-- Induction on trees, with the hypothesis for every item of a list and every part of a node. -/
theorem parts_induction {motive : Tree → Prop}
    (value : ∀ t : Tree, t.kind? = none → (∀ items, t ≠ .list items) → motive t)
    (list : ∀ items, (∀ t ∈ items, motive t) → motive (.list items))
    (node : ∀ t kind, t.kind? = some kind → (∀ p ∈ t.parts, motive p) → motive t)
    (t : Tree) : motive t := by
  have number (x : Float) : motive (.number x) := value _ rfl (by simp)
  refine @Tree.rec motive (fun items => ∀ t ∈ items, motive t)
    (value _ rfl (by simp)) (fun _ => value _ rfl (by simp)) (fun _ => value _ rfl (by simp))
    number (fun _ => value _ rfl (by simp)) list
    ?_ ?_ ?_ ?_ ?_ ?_ ?_ ?_ ?_ ?_ ?_ ?_ ?_ ?_ ?_ ?_ ?_ ?_ ?_ ?_ ?_ ?_ ?_ t
  case refine_22 => simp
  case refine_23 => exact fun t items one all => List.forall_mem_cons.2 ⟨one, all⟩
  all_goals
    intros
    exact node _ _ rfl (by simp [parts, *])

theorem depth_form_list_le_iff {items : List Tree} {room : Nat} :
    (form (.list items)).depth ≤ room + 2 ↔ ∀ t ∈ items, t.form.depth ≤ room := by
  rw [form, Json.depth, Nat.add_le_add_iff_right, Json.itemsDepth_le_iff, forms_eq_map,
    List.forall_mem_map]

/-- A node takes room for itself, and its parts share what is left. -/
theorem depth_form_node_le_iff {t : Tree} {kind : Kind} {room : Nat}
    (known : t.kind? = some kind) :
    t.form.depth ≤ room + 1 ↔ ∀ p ∈ t.parts, p.form.depth ≤ room := by
  rw [form_of_kind? known, node, Json.depth, Nat.add_le_add_iff_right, Json.fieldsDepth_le_iff,
    List.forall_mem_cons]
  constructor
  · rintro ⟨-, all⟩ p mem
    obtain ⟨index, inside, rfl⟩ := List.getElem_of_mem mem
    have named : index < kind.fields.length := length_parts known ▸ inside
    have field : (kind.fields[index], (t.parts[index]).form) ∈
        kind.fields.zip (t.parts.map form) := by
      rw [List.mem_iff_getElem]
      exact ⟨index, by simp only [List.length_zip, List.length_map]; omega, by simp⟩
    exact all _ field
  · intro all
    obtain ⟨p, mem⟩ := List.exists_mem_of_ne_nil _ (parts_ne_nil known)
    refine ⟨Nat.le_trans (Json.depth_pos p.form) (all p mem), fun field found => ?_⟩
    obtain ⟨part, inside, same⟩ := List.mem_map.1 (List.of_mem_zip found).2
    rw [← same]
    exact all part inside

/-- A node is written as its kind and its parts, which have one unit of room less. -/
theorem toJson_of_kind? {t : Tree} {kind : Kind} (known : t.kind? = some kind) (room : Nat) :
    t.toJson (room + 1) = node kind <$> t.parts.mapM (toJson room) := by
  have single : ∀ items, t ≠ .list items := by
    rintro items rfl
    cases known
  rw [toJson, known]
  · rfl
  · exact fun items same _ => single items same
  · exact fun _ items same _ => single items same

theorem toJson_zero (t : Tree) : t.toJson 0 = .error .tooDeep := by
  rw [toJson]

/-- A tree is written in its form where there is room for the depth of the form. -/
theorem toJson_eq (room : Nat) (t : Tree) :
    t.toJson room = if t.form.depth ≤ room then .ok t.form else .error .tooDeep := by
  have outside : ¬ t.form.depth ≤ 0 := Nat.not_le.2 (Json.depth_pos t.form)
  induction t using parts_induction generalizing room with
  | value t single whole =>
    cases room with
    | zero => rw [toJson_zero, if_neg outside]
    | succ room =>
      cases t <;> cases single
      case list.refl items => exact absurd rfl (whole items)
      all_goals simp [toJson, form, Json.depth, kind?, pure, Except.pure]
  | list items ih =>
    have each (room : Nat) : ∀ t ∈ items, t.toJson room = _ :=
      fun t mem => ih t mem room (Nat.not_le.2 (Json.depth_pos t.form))
    rcases room with _ | _ | room
    · rw [toJson_zero, if_neg outside]
    · rw [toJson, if_neg]
      simp [form, Json.depth]
    · rw [toJson, mapM_eq_ite (each room)]
      simp only [depth_form_list_le_iff]
      split
      · rw [form, forms_eq_map]
        rfl
      · rfl
  | node t kind known ih =>
    have each (room : Nat) : ∀ p ∈ t.parts, p.toJson room = _ :=
      fun p mem => ih p mem room (Nat.not_le.2 (Json.depth_pos p.form))
    cases room with
    | zero => rw [toJson_zero, if_neg outside]
    | succ room =>
      rw [toJson_of_kind? known, mapM_eq_ite (each room)]
      simp only [depth_form_node_le_iff known]
      split
      · rw [form_of_kind? known]
        rfl
      · rfl

theorem toJson_eq_ok_iff {room : Nat} {t : Tree} {json : Json} :
    t.toJson room = .ok json ↔ t.form.depth ≤ room ∧ json = t.form := by
  rw [toJson_eq]
  split
  · next fits => simp [fits, eq_comm]
  · next deep => simp [deep]

/-- The names that a record of a node has. -/
theorem nodup_names (kind : Kind) : ("type" :: kind.fields).Nodup := by
  cases kind <;> decide

/-- A node is built from its parts. -/
theorem build_parts {t : Tree} {kind : Kind} {place : List Nat}
    {read : String → Except CodecError Tree} (known : t.kind? = some kind)
    (plain : ∀ origin line, t ≠ .nanLit origin line)
    (found : ∀ field ∈ kind.fields.zip t.parts, read field.1 = .ok field.2) :
    build kind place read = .ok t := by
  cases t <;> cases known
  case nanLit.refl origin line => exact absurd rfl (plain origin line)
  all_goals
    simp only [Kind.fields, parts, List.zip_cons_cons, List.zip_nil_right,
      List.forall_mem_cons] at found
    simp [build, found, toNumber, literalAt, bind, Except.bind, pure, Except.pure]

/-! ## Records of nodes -/

/-- A written node claims the kind that it was written from. -/
theorem claimedKind_node (kind : Kind) (values : List Json) :
    claimedKind (("type", .text kind.label) :: kind.fields.zip values) = .ok kind := by
  have others : Json.lookup "type" (kind.fields.zip values) = none := by
    rw [Json.lookup_eq_none_iff]
    intro field mem same
    have name : field.1 ∈ kind.fields := (List.of_mem_zip mem).1
    rw [same] at name
    exact (List.nodup_cons.1 (nodup_names kind)).1 name
  rw [claimedKind, Json.lookup, others]
  simp only [if_pos, Option.getD_some, Kind.ofLabel?_label]

/-- Under distinct names, every field is found. -/
theorem lookup_of_mem {fields : List (String × Json)} {field : String × Json}
    (distinct : (fields.map (·.1)).Nodup) (mem : field ∈ fields) :
    Json.lookup field.1 fields = some field.2 := by
  induction fields with
  | nil => cases mem
  | cons head rest ih =>
    obtain ⟨fresh, distinct⟩ := List.nodup_cons.1 distinct
    rcases List.mem_cons.1 mem with rfl | later
    · have none : Json.lookup field.1 rest = none := by
        rw [Json.lookup_eq_none_iff]
        intro other found same
        have name := List.mem_map_of_mem (f := Prod.fst) found
        rw [same] at name
        exact fresh name
      rw [Json.lookup, none]
      exact if_pos rfl
    · rw [Json.lookup, ih distinct later]

/-- A node is read back if its parts are. -/
theorem ofJsonAt_form_of_parts {t : Tree} {kind : Kind} {room : Nat} (known : t.kind? = some kind)
    (plain : ∀ origin line, t ≠ .nanLit origin line)
    (back : ∀ p ∈ t.parts, ∀ place, ofJsonAt room place p.form = .ok p) (place : List Nat) :
    ofJsonAt (room + 1) place t.form = .ok t := by
  have names : ((("type", Json.text kind.label) :: kind.fields.zip (t.parts.map form)).map
      (·.1)).Nodup := by
    have same : (kind.fields.zip (t.parts.map form)).map (·.1) = kind.fields := by
      refine List.map_fst_zip (Nat.le_of_eq ?_)
      rw [List.length_map, length_parts known]
    rw [List.map_cons, same]
    exact nodup_names kind
  rw [form_of_kind? known, node, ofJsonAt, claimedKind_node]
  simp only [bind, Except.bind]
  apply build_parts known plain
  intro field mem
  have written : (field.1, field.2.form) ∈ kind.fields.zip (t.parts.map form) := by
    rw [List.zip_map_right]
    exact List.mem_map_of_mem mem
  rw [part, lookup_of_mem names (List.mem_cons_of_mem _ written)]
  exact back field.2 (List.of_mem_zip mem).2 _

/-! ## Trees without a spelled-out `nan` -/

/-- No number literal of the tree spells out `nan`. -/
inductive Settled : Tree → Prop
  | value {t : Tree} (single : t.kind? = none) (whole : ∀ items, t ≠ .list items) : Settled t
  | list {items : List Tree} (all : ∀ t ∈ items, Settled t) : Settled (.list items)
  | node {t : Tree} {kind : Kind} (known : t.kind? = some kind)
    (plain : ∀ origin line, t ≠ .nanLit origin line) (all : ∀ p ∈ t.parts, Settled p) : Settled t

/-- Writing a tree and reading the record gives the tree back. -/
theorem Settled.ofJsonAt_form {t : Tree} (settled : Settled t) {room : Nat}
    (fits : t.form.depth ≤ room) (place : List Nat) : ofJsonAt room place t.form = .ok t := by
  induction settled generalizing room place with
  | @value t single whole =>
    obtain ⟨room, rfl⟩ := Json.exists_eq_succ_of_depth_le fits
    cases t <;> cases single
    case list.refl items => exact absurd rfl (whole items)
    all_goals rw [form, ofJsonAt]
  | @list items all back =>
    obtain ⟨room, rfl⟩ := Json.exists_eq_add_two_of_depth_le fits
    rw [depth_form_list_le_iff] at fits
    rw [form, ofJsonAt, forms_eq_map, mapM_zipIdx_eq_ok]
    · rfl
    · rw [List.forall₂_map_left_iff, List.forall₂_same]
      exact fun t mem index => back t mem (fits t mem) _
  | @node t kind known plain all back =>
    obtain ⟨room, rfl⟩ := Json.exists_eq_succ_of_depth_le fits
    rw [depth_form_node_le_iff known] at fits
    exact ofJsonAt_form_of_parts known plain (fun p mem => back p mem (fits p mem)) place

end Tree

/-! ## Programs -/

open Parlance.Tree (Settled)

@[simp]
theorem settled_text (s : String) : Settled (.text s) :=
  .value rfl fun items same => by cases same

@[simp]
theorem settled_flag (b : Bool) : Settled (.flag b) :=
  .value rfl fun items same => by cases same

@[simp]
theorem settled_number (x : Float) : Settled (.number x) :=
  .value rfl fun items same => by cases same

@[simp]
theorem settled_null : Settled .null :=
  .value rfl fun items same => by cases same

@[simp]
theorem settled_lineTree (line : Nat) : Settled (lineTree line) :=
  .value rfl fun items same => by cases same

theorem settled_block {statements : Tree} (settled : Settled statements) :
    Settled (.block statements) :=
  .node rfl (by simp) (by simpa [Tree.parts] using settled)

mutual

/-- The tree of an expression has nothing in it that reading would change. -/
theorem Expr.settled_toTree : (e : Expr) → Settled e.toTree
  | .number value line => .node rfl (by simp [toTree]) (by simp [toTree, Tree.parts])
  | .text content line => .node rfl (by simp [toTree]) (by simp [toTree, Tree.parts])
  | .flag value line => .node rfl (by simp [toTree]) (by simp [toTree, Tree.parts])
  | .name id line => .node rfl (by simp [toTree]) (by simp [toTree, Tree.parts])
  | .unary op operand line => by
    have inner := operand.settled_toTree
    exact .node rfl (by simp [toTree]) (by simp [toTree, Tree.parts, inner])
  | .binary op left right line => by
    have first := left.settled_toTree
    have second := right.settled_toTree
    exact .node rfl (by simp [toTree]) (by simp [toTree, Tree.parts, first, second])
  | .call id args line => by
    have all : Settled (.list (Expr.toTrees args)) := .list (Expr.settled_toTrees args)
    exact .node rfl (by simp [toTree]) (by simp [toTree, Tree.parts, all])

theorem Expr.settled_toTrees : (es : List Expr) → ∀ t ∈ Expr.toTrees es, Settled t
  | [] => by simp [Expr.toTrees]
  | e :: es => by
    rw [Expr.toTrees, List.forall_mem_cons]
    exact ⟨e.settled_toTree, Expr.settled_toTrees es⟩

end

mutual

/-- The tree of a statement has nothing in it that reading would change. -/
theorem Stmt.settled_toTree : (s : Stmt) → Settled s.toTree
  | .declare name value fixed line => by
    have inner := value.settled_toTree
    exact .node rfl (by simp [Stmt.toTree]) (by simp [Stmt.toTree, Tree.parts, inner])
  | .assign name value line => by
    have inner := value.settled_toTree
    exact .node rfl (by simp [Stmt.toTree]) (by simp [Stmt.toTree, Tree.parts, inner])
  | .say value line => by
    have inner := value.settled_toTree
    exact .node rfl (by simp [Stmt.toTree]) (by simp [Stmt.toTree, Tree.parts, inner])
  | .display value line => by
    have inner := value.settled_toTree
    exact .node rfl (by simp [Stmt.toTree]) (by simp [Stmt.toTree, Tree.parts, inner])
  | .ask name line => .node rfl (by simp [Stmt.toTree]) (by simp [Stmt.toTree, Tree.parts])
  | .choose branches none line => by
    have all : Settled (.list (Branch.toTrees branches)) := .list (Branch.settled_toTrees branches)
    exact .node rfl (by simp [Stmt.toTree]) (by simp [Stmt.toTree, Tree.parts, all])
  | .choose branches (some body) line => by
    have all : Settled (.list (Branch.toTrees branches)) := .list (Branch.settled_toTrees branches)
    have last := settled_block (.list (Stmt.settled_toTrees body))
    exact .node rfl (by simp [Stmt.toTree]) (by simp [Stmt.toTree, Tree.parts, all, last])
  | .range name first last body line => by
    have low := first.settled_toTree
    have high := last.settled_toTree
    have inner := settled_block (.list (Stmt.settled_toTrees body))
    exact .node rfl (by simp [Stmt.toTree]) (by simp [Stmt.toTree, Tree.parts, low, high, inner])
  | .whilst condition body line => by
    have test := condition.settled_toTree
    have inner := settled_block (.list (Stmt.settled_toTrees body))
    exact .node rfl (by simp [Stmt.toTree]) (by simp [Stmt.toTree, Tree.parts, test, inner])
  | .leave line => .node rfl (by simp [Stmt.toTree]) (by simp [Stmt.toTree, Tree.parts])
  | .next line => .node rfl (by simp [Stmt.toTree]) (by simp [Stmt.toTree, Tree.parts])

theorem Branch.settled_toTree : (b : Branch) → Settled b.toTree
  | .mk condition body line => by
    have test := condition.settled_toTree
    have inner := settled_block (.list (Stmt.settled_toTrees body))
    exact .node rfl (by simp [Branch.toTree]) (by simp [Branch.toTree, Tree.parts, test, inner])

theorem Stmt.settled_toTrees : (ss : List Stmt) → ∀ t ∈ Stmt.toTrees ss, Settled t
  | [] => by simp [Stmt.toTrees]
  | s :: ss => by
    rw [Stmt.toTrees, List.forall_mem_cons]
    exact ⟨s.settled_toTree, Stmt.settled_toTrees ss⟩

theorem Branch.settled_toTrees : (bs : List Branch) → ∀ t ∈ Branch.toTrees bs, Settled t
  | [] => by simp [Branch.toTrees]
  | b :: bs => by
    rw [Branch.toTrees, List.forall_mem_cons]
    exact ⟨b.settled_toTree, Branch.settled_toTrees bs⟩

end

theorem Program.settled_toTree (program : Program) : Settled program.toTree := by
  have body : Settled (.list (Stmt.toTrees program.body)) :=
    .list (Stmt.settled_toTrees program.body)
  exact .node rfl (by simp [toTree]) (by simp [toTree, Tree.parts, body])

/-- A program is read back from what is written of its tree. -/
theorem Program.ofJson_of_toJson {program : Program} {room : Nat} {json : Json}
    (written : program.toTree.toJson room = .ok json) :
    Tree.ofJson room json = .ok program.toTree := by
  obtain ⟨fits, rfl⟩ := Tree.toJson_eq_ok_iff.1 written
  exact program.settled_toTree.ofJsonAt_form fits []

/-! ## Trees with a spelled-out `nan` -/

namespace Tree

mutual

/-- The tree with the number itself in every number literal that spells out `nan`. -/
def settle : Tree → Tree
  | .nanLit _ line => .numberLit Number.nan line.settle
  | .list items => .list (settleAll items)
  | .program body => .program body.settle
  | .block statements => .block statements.settle
  | .declare name value fixed line =>
    .declare name.settle value.settle fixed.settle line.settle
  | .assign name value line => .assign name.settle value.settle line.settle
  | .say value line => .say value.settle line.settle
  | .display value line => .display value.settle line.settle
  | .ask name line => .ask name.settle line.settle
  | .branch condition body line => .branch condition.settle body.settle line.settle
  | .choose branches otherwise line => .choose branches.settle otherwise.settle line.settle
  | .range name first last body line =>
    .range name.settle first.settle last.settle body.settle line.settle
  | .whilst condition body line => .whilst condition.settle body.settle line.settle
  | .leave line => .leave line.settle
  | .next line => .next line.settle
  | .numberLit value line => .numberLit value line.settle
  | .textLit value line => .textLit value.settle line.settle
  | .flagLit value line => .flagLit value.settle line.settle
  | .ident name line => .ident name.settle line.settle
  | .unary op operand line => .unary op.settle operand.settle line.settle
  | .binary op left right line => .binary op.settle left.settle right.settle line.settle
  | .call name args line => .call name.settle args.settle line.settle
  | .null => .null
  | .flag value => .flag value
  | .int value => .int value
  | .number value => .number value
  | .text value => .text value

/-- The trees with the number itself in every number literal that spells out `nan`. -/
def settleAll : List Tree → List Tree
  | [] => []
  | t :: ts => t.settle :: settleAll ts

end

theorem settleAll_eq_map (ts : List Tree) : settleAll ts = ts.map settle := by
  induction ts with
  | nil => rfl
  | cons t ts ih => rw [settleAll, ih, List.map_cons]

theorem kind?_settle (t : Tree) : t.settle.kind? = t.kind? := by
  cases t <;> rfl

theorem parts_settle {t : Tree} {kind : Kind} (known : t.kind? = some kind) :
    t.settle.parts = t.parts.map settle := by
  cases t <;> cases known <;> rfl

/-- Settling a tree does not change how it is written. -/
theorem form_settle (t : Tree) : t.settle.form = t.form := by
  induction t using parts_induction with
  | value t single whole =>
    cases t <;> cases single
    case list.refl items => exact absurd rfl (whole items)
    all_goals rfl
  | list items all =>
    rw [settle, form, form, forms_eq_map, forms_eq_map, settleAll_eq_map, List.map_map]
    exact congrArg Json.list (List.map_congr_left all)
  | node t kind known all =>
    have known' : t.settle.kind? = some kind := (kind?_settle t).trans known
    rw [form_of_kind? known, form_of_kind? known', parts_settle known, List.map_map]
    exact congrArg (Tree.node kind) (List.map_congr_left all)

/-- Settling once is enough. -/
theorem settled_settle (t : Tree) : Settled t.settle := by
  induction t using parts_induction with
  | value t single whole =>
    cases t <;> cases single
    case list.refl items => exact absurd rfl (whole items)
    all_goals exact .value rfl (by simp [settle])
  | list items all =>
    rw [settle, settleAll_eq_map]
    exact .list (List.forall_mem_map.2 all)
  | node t kind known all =>
    have known' : t.settle.kind? = some kind := (kind?_settle t).trans known
    refine .node known' ?_ ?_
    · cases t <;> simp [settle]
    · rw [parts_settle known]
      exact List.forall_mem_map.2 all

/-- Settling changes no tree without a spelled-out `nan`. -/
theorem Settled.settle_eq {t : Tree} (settled : Settled t) : t.settle = t := by
  have kept := (settled_settle t).ofJsonAt_form (Nat.le_refl _) []
  rw [form_settle, settled.ofJsonAt_form (Nat.le_refl _)] at kept
  exact (Except.ok.inj kept).symm

/-- A tree is read back as what it settles to. -/
theorem ofJson_of_toJson {t : Tree} {room : Nat} {json : Json}
    (written : t.toJson room = .ok json) : ofJson room json = .ok t.settle := by
  obtain ⟨fits, rfl⟩ := toJson_eq_ok_iff.1 written
  rw [← form_settle] at fits ⊢
  exact (settled_settle t).ofJsonAt_form fits []

/-- Settling changes nothing of what is written. -/
theorem toJson_settle (room : Nat) (t : Tree) : t.settle.toJson room = t.toJson room := by
  rw [toJson_eq, toJson_eq, form_settle]

/-- Trees that differ at most in where a number literal that spells out `nan` was read. -/
def Alike (s t : Tree) : Prop :=
  s.settle = t.settle

theorem alike_settle (t : Tree) : t.settle.Alike t :=
  (settled_settle t).settle_eq

end Tree

end Parlance
