import Mathlib
import Parlance.Proofs.DecimalText

/-!
# JSON values read back from their texts

The reader inverts the writer in both layouts: texts through their escapes, numbers through their
digits, lists and records part by part.  The only values that are written and cannot be read are
those with an integer of more digits than the reader takes, and `isWritable` says that there is
none, and those with more containers inside each other than the reader has room for (`nesting`).
Whatever follows a value has to end a number, for a number may be the last thing written.

A written value has no carriage return in it, so reading its file in text mode changes nothing.
-/

namespace Parlance.Json

/-! ## Texts -/

/-- Puts a code before the codes that were found. -/
def withCode (code : Nat) (found : Option (List Nat × List Char)) :
    Option (List Nat × List Char) :=
  found.map fun (codes, rest) => (code :: codes, rest)

/-- An escape of one letter is read as the character it stands for. -/
theorem spanText?_letter {c d : Char} (cs : List Char) (letter : unescape? c = some d) :
    spanText? ('\\' :: c :: cs) = withCode d.toNat (spanText? cs) := by
  have other : c ≠ 'u' := by
    rintro rfl
    cases letter
  rw [spanText?, letter, withCode, Option.map_eq_bind]
  · rfl
  · intro _ _ _ _ _ same
    exact absurd same other

theorem spanText?_code {a b c d : Char} {code : Nat} (cs : List Char)
    (found : hexCode? a b c d = some code) :
    spanText? ('\\' :: 'u' :: a :: b :: c :: d :: cs) = withCode code (spanText? cs) := by
  rw [spanText?, found, withCode, Option.map_eq_bind]
  rfl

theorem spanText?_plain {c : Char} (cs : List Char) (quote : c ≠ '"') (slash : c ≠ '\\')
    (shown : ¬ c.toNat < 32) : spanText? (c :: cs) = withCode c.toNat (spanText? cs) := by
  rw [spanText?.eq_def]
  split <;> simp_all [withCode, Option.map_eq_bind]

theorem hexCode?_hex {n : Nat} (control : n < 32) :
    ∃ a b, Text.hex 4 n = ['0', '0', a, b] ∧ hexCode? '0' '0' a b = some n := by
  interval_cases n <;> exact ⟨_, _, rfl, rfl⟩

/-- What stands for a character is read as its code. -/
theorem spanText?_escape (c : Char) (cs : List Char) :
    spanText? (escape c ++ cs) = withCode c.toNat (spanText? cs) := by
  unfold escape
  split_ifs with quote slash feed back tab rub page control
  · subst quote
    exact spanText?_letter cs rfl
  · subst slash
    exact spanText?_letter cs rfl
  · subst feed
    exact spanText?_letter cs rfl
  · subst back
    exact spanText?_letter cs rfl
  · subst tab
    exact spanText?_letter cs rfl
  · subst rub
    exact spanText?_letter cs rfl
  · subst page
    exact spanText?_letter cs rfl
  · obtain ⟨a, b, digits, found⟩ := hexCode?_hex control
    rw [digits]
    exact spanText?_code cs found
  · exact spanText?_plain cs quote slash control

theorem spanText?_escaped (text rest : List Char) :
    spanText? (text.flatMap escape ++ '"' :: rest) = some (text.map Char.toNat, rest) := by
  induction text with
  | nil => rfl
  | cons c text ih =>
    rw [List.flatMap_cons, List.append_assoc, spanText?_escape, ih]
    rfl

/-- The codes of characters are no halves of surrogate pairs. -/
theorem joinCodes_toNat (text : List Char) : joinCodes (text.map Char.toNat) = some text := by
  induction text with
  | nil => rfl
  | cons c text ih =>
    have whole : ¬ (0xD800 ≤ c.toNat ∧ c.toNat < 0xE000) := by
      have := c.valid
      have : c.toNat = c.val.toNat := rfl
      simp only [UInt32.isValidChar, Nat.isValidChar] at *
      omega
    rw [List.map_cons, joinCodes.eq_def]
    simp only [if_neg whole, ih, Char.ofNat_toNat, Option.map_some]

/-- A text is read as it was written. -/
theorem readText_escaped (text : String) (rest : List Char) :
    readText (text.toList.flatMap escape ++ '"' :: rest) = .ok (text, rest) := by
  rw [readText, spanText?_escaped]
  simp only [joinCodes_toNat, String.ofList_toList]

/-! ## Layout -/

/-- The character is layout between values. -/
def isBlank (c : Char) : Bool :=
  c == ' ' || c == '\t' || c == '\n' || c == '\r'

theorem skipLayout_append {gap : List Char} (blank : ∀ c ∈ gap, isBlank c = true)
    (cs : List Char) : skipLayout (gap ++ cs) = skipLayout cs := by
  exact List.dropWhile_append_of_pos blank

theorem skipLayout_cons {c : Char} (solid : isBlank c = false) (cs : List Char) :
    skipLayout (c :: cs) = c :: cs :=
  List.dropWhile_cons_of_neg (by rw [Bool.not_eq_true]; exact solid)

/-- What leads a line is blank. -/
theorem isBlank_of_mem_lead {layout : Layout} {depth : Nat} {c : Char}
    (mem : c ∈ layout.lead depth) : isBlank c = true := by
  cases layout with
  | oneLine => cases mem
  | indented =>
    rcases List.mem_cons.1 mem with rfl | blank
    · rfl
    · rw [List.eq_of_mem_replicate blank]
      rfl

/-- What is read as no container is read as a value, whatever room there is. -/
theorem readValue_of_readScalar {cs : List Char} {found : Json × List Char}
    (read : readScalar cs = .ok found) (room : Nat) : readValue room cs = .ok found := by
  cases room with
  | zero | succ room =>
    rw [readValue]
    · exact read
    all_goals
      rintro tail rfl
      cases read

/-- What has a value at its front starts with neither layout nor a closing bracket. -/
theorem front_of_readValue {room : Nat} {cs : List Char} {found : Json × List Char}
    (read : readValue room cs = .ok found) :
    skipLayout cs = cs ∧ (∀ rest, cs ≠ ']' :: rest) := by
  constructor
  · cases cs with
    | nil => rfl
    | cons c cs =>
      apply skipLayout_cons
      by_contra blank
      rw [Bool.not_eq_false] at blank
      simp only [isBlank, Bool.or_eq_true, beq_iff_eq] at blank
      rcases blank with ((rfl | rfl) | rfl) | rfl <;> cases room <;> cases read
  · rintro rest rfl
    cases room <;> cases read

/-! ## Containers -/

/-- The value is read back from its text, whatever follows. -/
def ReadsBack (layout : Layout) (depth room : Nat) (value : Json) : Prop :=
  ∀ rest, Ends rest → readValue room (write layout depth value ++ rest) = .ok (value, rest)

theorem ends_cons {c : Char} (stop : c.isDigit = false ∧ c ≠ '.' ∧ c ≠ 'e' ∧ c ≠ 'E')
    (rest : List Char) : Ends (c :: rest) := by
  rintro d ⟨⟩
  exact stop

theorem ends_lead {layout : Layout} {depth : Nat} {rest : List Char} (ends : Ends rest) :
    Ends (layout.lead depth ++ rest) := by
  cases layout with
  | oneLine => exact ends
  | indented => exact ends_cons (by decide) _

/-- What stands between two parts is a comma and layout. -/
theorem separator_eq (layout : Layout) (depth : Nat) :
    ∃ gap, (∀ c ∈ gap, isBlank c = true) ∧
      ∀ cs, layout.comma ++ (layout.lead depth ++ cs) = ',' :: (gap ++ cs) := by
  cases layout with
  | oneLine => exact ⟨[' '], fun c mem => by rw [List.eq_of_mem_singleton mem]; rfl, fun cs => rfl⟩
  | indented => exact ⟨_, fun c mem => isBlank_of_mem_lead mem, fun cs => rfl⟩

/-- Written items are read back one after the other, up to the bracket. -/
theorem readItems_write {layout : Layout} {depth room tries : Nat} {item : Json}
    {items : List Json} {gap rest : List Char}
    (parts : ∀ part ∈ item :: items, ReadsBack layout (depth + 1) room part)
    (enough : items.length < tries) (blank : ∀ c ∈ gap, isBlank c = true) :
    readItems (readValue room) tries (gap ++ (write layout (depth + 1) item ++
      (writeItems layout depth items ++ (layout.lead depth ++ ']' :: rest)))) =
      .ok (item :: items, rest) := by
  induction items generalizing item tries gap with
  | nil =>
    obtain ⟨tries, rfl⟩ : ∃ n, tries = n + 1 := ⟨tries - 1, by omega⟩
    have close : Ends (layout.lead depth ++ ']' :: rest) := ends_lead (ends_cons (by decide) rest)
    have read := parts item List.mem_cons_self _ close
    rw [readItems, skipLayout_append blank, writeItems, List.nil_append,
      (front_of_readValue read).1, read]
    simp only [bind, Except.bind]
    rw [skipLayout_append fun c mem => isBlank_of_mem_lead mem, skipLayout_cons rfl]
    rfl
  | cons next items ih =>
    obtain ⟨tries, rfl⟩ : ∃ n, tries = n + 1 := ⟨tries - 1, by omega⟩
    obtain ⟨space, spaces, separator⟩ := separator_eq layout (depth + 1)
    have more := ih (fun part mem => parts part (List.mem_cons_of_mem item mem))
      (Nat.lt_of_succ_lt_succ enough) spaces
    simp only [writeItems, List.append_assoc, separator, List.cons_append]
    have read (cs : List Char) :=
      parts item List.mem_cons_self (',' :: cs) (ends_cons (by decide) cs)
    rw [readItems, skipLayout_append blank, (front_of_readValue (read _)).1, read]
    simp only [bind, Except.bind]
    rw [skipLayout_cons rfl]
    simp only [more]
    rfl

/-- Written fields are read back one after the other, up to the brace. -/
theorem readFields_write {layout : Layout} {depth room tries : Nat} {name : String} {value : Json}
    {fields : List (String × Json)} {gap rest : List Char}
    (parts : ∀ part ∈ (name, value) :: fields, ReadsBack layout (depth + 1) room part.2)
    (enough : fields.length < tries) (blank : ∀ c ∈ gap, isBlank c = true) :
    readFields (readValue room) tries (gap ++ (quote name ++ ':' :: ' ' ::
      (write layout (depth + 1) value ++ (writeFields layout depth fields ++
        (layout.lead depth ++ '}' :: rest))))) = .ok ((name, value) :: fields, rest) := by
  have space (cs : List Char) : skipLayout (' ' :: cs) = skipLayout cs :=
    List.dropWhile_cons_of_pos rfl
  induction fields generalizing name value tries gap with
  | nil =>
    obtain ⟨tries, rfl⟩ : ∃ n, tries = n + 1 := ⟨tries - 1, by omega⟩
    have close : Ends (layout.lead depth ++ '}' :: rest) := ends_lead (ends_cons (by decide) rest)
    have read := parts _ List.mem_cons_self _ close
    rw [readFields, skipLayout_append blank, quote]
    simp only [List.cons_append, List.append_assoc, List.nil_append, writeFields]
    rw [skipLayout_cons rfl]
    simp only [bind, Except.bind, readText_escaped]
    rw [skipLayout_cons rfl]
    simp only [space, (front_of_readValue read).1, read]
    rw [skipLayout_append fun c mem => isBlank_of_mem_lead mem, skipLayout_cons rfl]
    rfl
  | cons next fields ih =>
    obtain ⟨tries, rfl⟩ : ∃ n, tries = n + 1 := ⟨tries - 1, by omega⟩
    obtain ⟨following, successor⟩ := next
    obtain ⟨gap', spaces, separator⟩ := separator_eq layout (depth + 1)
    have more := ih (fun part mem => parts part (List.mem_cons_of_mem _ mem))
      (Nat.lt_of_succ_lt_succ enough) spaces
    rw [readFields, skipLayout_append blank, quote]
    simp only [List.cons_append, List.append_assoc, List.nil_append, writeFields, separator]
    have read (cs : List Char) := parts _ List.mem_cons_self (',' :: cs) (ends_cons (by decide) cs)
    rw [skipLayout_cons rfl]
    simp only [bind, Except.bind, readText_escaped]
    rw [skipLayout_cons rfl]
    simp only [space, (front_of_readValue (read _)).1, read]
    rw [skipLayout_cons rfl]
    simp only [more]
    rfl

/-- A list takes one unit of room and reads its items in the rest. -/
theorem readValue_list {room : Nat} {cs rest : List Char} {items : List Json}
    (read : readItems (readValue room) (cs.length + 1) cs = .ok (items, rest)) :
    readValue (room + 1) ('[' :: cs) = .ok (.list items, rest) := by
  have solid : ∀ closed, skipLayout cs ≠ ']' :: closed := by
    rw [readItems] at read
    cases first : readValue room (skipLayout cs) with
    | error e =>
      rw [first] at read
      cases read
    | ok found => exact (front_of_readValue first).2
  rw [readValue]
  split
  case h_1 closed same => exact absurd same (solid closed)
  case h_2 =>
    rw [List.length_cons, read]
    rfl

/-- A record takes one unit of room and reads its fields in the rest. -/
theorem readValue_record {room : Nat} {cs rest : List Char} {fields : List (String × Json)}
    (read : readFields (readValue room) (cs.length + 1) cs = .ok (fields, rest)) :
    readValue (room + 1) ('{' :: cs) = .ok (.record fields, rest) := by
  rw [readValue]
  split
  case h_1 closed same =>
    rw [readFields, same] at read
    cases read
  case h_2 =>
    rw [List.length_cons, read]
    rfl

/-! ## Values -/

/-- Every item takes a character, so the reader has tries enough. -/
theorem length_le_writeItems {layout : Layout} {depth : Nat} {items : List Json} :
    items.length ≤ (writeItems layout depth items).length := by
  induction items with
  | nil => simp [writeItems]
  | cons item items ih =>
    have comma : 1 ≤ layout.comma.length := by cases layout <;> decide
    simp only [writeItems, List.length_append, List.length_cons]
    omega

theorem length_le_writeFields {layout : Layout} {depth : Nat} {fields : List (String × Json)} :
    fields.length ≤ (writeFields layout depth fields).length := by
  induction fields with
  | nil => simp [writeFields]
  | cons field fields ih =>
    have comma : 1 ≤ layout.comma.length := by cases layout <;> decide
    simp only [writeFields, List.length_append, List.length_cons]
    omega

theorem itemsWritable_iff {items : List Json} :
    itemsWritable items = true ↔ ∀ item ∈ items, item.isWritable = true := by
  induction items with
  | nil => simp [itemsWritable]
  | cons item items ih => simp [itemsWritable, ih]

theorem fieldsWritable_iff {fields : List (String × Json)} :
    fieldsWritable fields = true ↔ ∀ field ∈ fields, field.2.isWritable = true := by
  induction fields with
  | nil => simp [fieldsWritable]
  | cons field fields ih => simp [fieldsWritable, ih]

/-- Induction on values, with the hypothesis for every item of a list and every field of a
record. -/
theorem parts_induction {motive : Json → Prop} (null : motive .null)
    (flag : ∀ value, motive (.flag value)) (int : ∀ value, motive (.int value))
    (number : ∀ value, motive (.number value)) (text : ∀ value, motive (.text value))
    (list : ∀ items, (∀ item ∈ items, motive item) → motive (.list items))
    (record : ∀ fields, (∀ field ∈ fields, motive field.2) → motive (.record fields))
    (value : Json) : motive value := by
  refine @Json.rec motive (fun items => ∀ item ∈ items, motive item)
    (fun fields => ∀ field ∈ fields, motive field.2) (fun field => motive field.2)
    null flag int number text list record ?_ ?_ ?_ ?_ ?_ value
  · simp
  · exact fun item items one all => List.forall_mem_cons.2 ⟨one, all⟩
  · simp
  · exact fun field fields one all => List.forall_mem_cons.2 ⟨one, all⟩
  · exact fun name value one => one

mutual

/-- How many containers stand inside each other in a value. -/
def nesting : Json → Nat
  | .list items => itemsNesting items + 1
  | .record fields => fieldsNesting fields + 1
  | _ => 0

/-- How many containers stand inside each other in one of some items. -/
def itemsNesting : List Json → Nat
  | [] => 0
  | item :: items => max item.nesting (itemsNesting items)

/-- How many containers stand inside each other in one of some fields. -/
def fieldsNesting : List (String × Json) → Nat
  | [] => 0
  | (_, value) :: fields => max value.nesting (fieldsNesting fields)

end

theorem itemsNesting_le_iff {items : List Json} {room : Nat} :
    itemsNesting items ≤ room ↔ ∀ item ∈ items, item.nesting ≤ room := by
  induction items with
  | nil => simp [itemsNesting]
  | cons item items ih => simp [itemsNesting, ih]

theorem fieldsNesting_le_iff {fields : List (String × Json)} {room : Nat} :
    fieldsNesting fields ≤ room ↔ ∀ field ∈ fields, field.2.nesting ≤ room := by
  induction fields with
  | nil => simp [fieldsNesting]
  | cons field fields ih => simp [fieldsNesting, ih]

/-- A value whose integers are not too long is read back from its text where there is room for its
containers. -/
theorem readsBack_of_isWritable {layout : Layout} {value : Json}
    (writable : value.isWritable = true) {depth room : Nat} (fits : value.nesting ≤ room) :
    ReadsBack layout depth room value := by
  intro rest ends
  induction value using parts_induction generalizing depth room rest with
  | null => exact readValue_of_readScalar rfl room
  | flag value => cases value <;> exact readValue_of_readScalar rfl room
  | int value =>
    rw [isWritable, decide_eq_true_eq] at writable
    exact readValue_of_readScalar (readScalar_integerText writable ends) room
  | number value => exact readValue_of_readScalar (readScalar_dataText ends) room
  | text value =>
    apply readValue_of_readScalar
    rw [write, quote, List.cons_append, List.cons_append, List.append_assoc, readScalar]
    simp only [List.singleton_append, readText_escaped]
    rfl
  | list items ih =>
    rw [isWritable, itemsWritable_iff] at writable
    obtain ⟨room, rfl⟩ : ∃ n, room = n + 1 := Nat.exists_eq_add_one.2 (Nat.zero_lt_of_lt fits)
    cases items with
    | nil => rfl
    | cons item items =>
      have many := @length_le_writeItems layout depth items
      rw [nesting, Nat.add_le_add_iff_right, itemsNesting_le_iff] at fits
      have parts : ∀ part ∈ item :: items, ReadsBack layout (depth + 1) room part :=
        fun part mem rest ends => ih part mem (writable part mem) (fits part mem) rest ends
      simp only [write, List.cons_append, List.append_assoc, List.nil_append]
      apply readValue_list
      apply readItems_write parts
      · simp only [List.length_append]
        omega
      · exact fun c mem => isBlank_of_mem_lead mem
  | record fields ih =>
    rw [isWritable, fieldsWritable_iff] at writable
    obtain ⟨room, rfl⟩ : ∃ n, room = n + 1 := Nat.exists_eq_add_one.2 (Nat.zero_lt_of_lt fits)
    cases fields with
    | nil => rfl
    | cons field fields =>
      obtain ⟨name, value⟩ := field
      have many := @length_le_writeFields layout depth fields
      rw [nesting, Nat.add_le_add_iff_right, fieldsNesting_le_iff] at fits
      have parts : ∀ part ∈ (name, value) :: fields,
          ReadsBack layout (depth + 1) room part.2 :=
        fun part mem rest ends => ih part mem (writable part mem) (fits part mem) rest ends
      simp only [write, List.cons_append, List.append_assoc, List.nil_append]
      apply readValue_record
      apply readFields_write parts
      · simp only [List.length_append, List.length_cons]
        omega
      · exact fun c mem => isBlank_of_mem_lead mem

/-- Writing a value and reading the text gives the value back. -/
theorem read_indented {value : Json} (writable : value.isWritable = true) {room : Nat}
    (fits : value.nesting ≤ room) : read room value.indented = .ok value := by
  have back := @readsBack_of_isWritable .indented value writable 0 room fits []
    (fun c mem => by cases mem)
  rw [List.append_nil] at back
  rw [read, indented, String.toList_ofList]
  simp only [(front_of_readValue back).1, back]
  rfl

/-! ## Line ends -/

theorem isDigit_of_mem_ofScaled {digits : Nat} {scale : Int} {c : Char}
    (mem : c ∈ (Number.Decimal.ofScaled digits scale).digits) : c.isDigit = true := by
  have found := List.mem_reverse.1 mem
  have whole := List.mem_reverse.1 ((List.dropWhile_sublist _).subset found)
  exact Nat.isDigit_of_mem_toDigits (by decide) (by decide) whole

theorem return_notMem_of_digits {cs : List Char} (digits : ∀ c ∈ cs, c.isDigit = true) :
    '\r' ∉ cs := by
  intro mem
  cases digits _ mem

/-- A decimal written in full has no carriage return. -/
theorem return_notMem_positional {decimal : Number.Decimal}
    (digits : ∀ c ∈ decimal.digits, c.isDigit = true) : '\r' ∉ decimal.positional := by
  have row := return_notMem_of_digits digits
  unfold Number.Decimal.positional
  split
  case isTrue => simp [row]
  case isFalse =>
    have whole : '\r' ∉ decimal.digits.take decimal.point.toNat :=
      fun mem => row (List.mem_of_mem_take mem)
    have fraction : '\r' ∉ decimal.digits.drop decimal.point.toNat :=
      fun mem => row (List.mem_of_mem_drop mem)
    simp only
    split <;> simp [whole, fraction]

theorem return_notMem_exponential {decimal : Number.Decimal}
    (digits : ∀ c ∈ decimal.digits, c.isDigit = true) : '\r' ∉ decimal.exponential := by
  have row := return_notMem_of_digits digits
  have exponent : '\r' ∉ Nat.toDigits 10 (decimal.point - 1).natAbs :=
    return_notMem_of_digits fun c mem => Nat.isDigit_of_mem_toDigits (by decide) (by decide) mem
  unfold Number.Decimal.exponential
  simp only
  split <;> split <;> simp_all

theorem return_notMem_sign (negative : Bool) : '\r' ∉ Number.sign negative := by
  cases negative <;> decide

/-- A number has no carriage return. -/
theorem return_notMem_dataText (x : Float) :
    '\r' ∉ (Number.dataTextWith special x).toList := by
  unfold Number.dataTextWith
  cases Number.shape x with
  | nan => decide
  | infinite negative => cases negative <;> decide
  | finite negative mantissa exponent =>
    have digits {c : Char} := @isDigit_of_mem_ofScaled (Number.shortest mantissa exponent).1
      (Number.shortest mantissa exponent).2 c
    simp only [String.toList_ofList, List.mem_append, not_or]
    refine ⟨return_notMem_sign negative, ?_⟩
    split
    case isTrue => decide
    case isFalse =>
      split
      case isTrue => exact return_notMem_positional fun c mem => digits mem
      case isFalse => exact return_notMem_exponential fun c mem => digits mem

/-- A carriage return is escaped. -/
theorem return_notMem_escape (c : Char) : '\r' ∉ escape c := by
  unfold escape
  split_ifs with quote slash feed back tab rub page control
  all_goals try decide
  · generalize c.toNat = n at control
    interval_cases n <;> decide
  · rw [List.mem_singleton]
    exact fun same => back same.symm

theorem return_notMem_quote (text : String) : '\r' ∉ quote text := by
  simp [quote, return_notMem_escape]

/-- What is written has no carriage return, so it stays the same when it is read as text. -/
theorem return_notMem_write (layout : Layout) (depth : Nat) (value : Json) :
    '\r' ∉ write layout depth value := by
  have lead (depth : Nat) : '\r' ∉ layout.lead depth := by
    cases layout <;> simp [Layout.lead]
  have comma : '\r' ∉ layout.comma := by
    cases layout <;> decide
  induction value using parts_induction generalizing depth with
  | null => simp [write]
  | flag value => cases value <;> simp [write]
  | int value =>
    have digits : '\r' ∉ Nat.toDigits 10 value.natAbs :=
      return_notMem_of_digits fun c mem => Nat.isDigit_of_mem_toDigits (by decide) (by decide) mem
    simp [write, Number.integerText, return_notMem_sign, digits]
  | number value => exact return_notMem_dataText value
  | text value => exact return_notMem_quote value
  | list items ih =>
    have tail (items : List Json)
        (parts : ∀ item ∈ items, ∀ depth, '\r' ∉ write layout depth item) :
        '\r' ∉ writeItems layout depth items := by
      induction items with
      | nil => simp [writeItems]
      | cons item items tail => simp_all [writeItems]
    cases items with
    | nil => simp [write]
    | cons item items =>
      have others := tail items fun part mem => ih part (List.mem_cons_of_mem item mem)
      have first := ih item List.mem_cons_self (depth + 1)
      simp [write, lead, first, others]
  | record fields ih =>
    have tail (fields : List (String × Json))
        (parts : ∀ field ∈ fields, ∀ depth, '\r' ∉ write layout depth field.2) :
        '\r' ∉ writeFields layout depth fields := by
      induction fields with
      | nil => simp [writeFields]
      | cons field fields tail => simp_all [writeFields, return_notMem_quote]
    cases fields with
    | nil => simp [write]
    | cons field fields =>
      have others := tail fields fun part mem => ih part (List.mem_cons_of_mem field mem)
      have first := ih field List.mem_cons_self (depth + 1)
      simp [write, lead, return_notMem_quote, first, others]

end Parlance.Json
