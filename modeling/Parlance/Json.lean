/-!
# JSON values

A record keeps its fields in the order in which they were written, and a repeated name keeps the
last value.  Whole numbers written without a point or an exponent stay integers of any size; the
others are doubles.
-/

namespace Parlance

/-- A JSON value. -/
inductive Json
  | null
  | flag (value : Bool)
  | int (value : Int)
  | number (value : Float)
  | text (value : String)
  | list (items : List Json)
  | record (fields : List (String × Json))
  deriving Inhabited

namespace Json

/-- The longest integer that is read or written, in digits. -/
def maxDigits : Nat := 4300

/-- The value of a field; of a repeated field, the last one. -/
def lookup {α : Type} (name : String) : List (String × α) → Option α
  | [] => none
  | (key, value) :: rest =>
    match lookup name rest with
    | some later => some later
    | none => if key = name then some value else none

/-- Nothing is found exactly if no field has the name. -/
theorem lookup_eq_none_iff {α : Type} {name : String} {fields : List (String × α)} :
    lookup name fields = none ↔ ∀ f ∈ fields, f.1 ≠ name := by
  induction fields with
  | nil => simp [lookup]
  | cons f rest ih =>
    obtain ⟨key, value⟩ := f
    cases found : lookup name rest with
    | none =>
      by_cases same : key = name
      · simp [lookup, found, same]
      · simp only [lookup, found, same, if_false, true_iff, List.forall_mem_cons]
        exact ⟨same, ih.1 found⟩
    | some later =>
      have some_match : ¬ ∀ f ∈ rest, f.1 ≠ name := fun all => by simp [ih.2 all] at found
      simp only [lookup, found, reduceCtorEq, false_iff, List.forall_mem_cons]
      exact fun all => some_match all.2

end Json

end Parlance
