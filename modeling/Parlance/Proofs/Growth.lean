import Parlance.Environment

/-!
# Environments grow

An operation on an environment either fails or leads to one that has grown (`Environment.Grows`):
what was bound for good is bound as before, the names are still there in their old order, and new
ones come after them.

Every operation that changes an environment is one `put` behind a check that the key is not fixed,
so the three facts are proved of `put` alone.
-/

namespace Parlance.Environment

/-- No two bindings have the same key. -/
def Distinct (env : Environment) : Prop :=
  (env.bindings.map Binding.key).Nodup

/-- What a later environment keeps of an earlier one. -/
structure Grows (env later : Environment) : Prop where
  fixed : ∀ ⦃key : Key⦄ ⦃b : Binding⦄, env.find? key = some b → b.fixed.isTrue = true →
    later.find? key = some b
  names : env.names <+: later.names
  distinct : env.Distinct → later.Distinct

@[refl]
theorem Grows.refl (env : Environment) : env.Grows env :=
  ⟨fun _ _ found _ => found, List.prefix_rfl, id⟩

theorem Grows.trans {env middle later : Environment} (first : env.Grows middle)
    (second : middle.Grows later) : env.Grows later where
  fixed _ _ found isTrue := second.fixed (first.fixed found isTrue) isTrue
  names := first.names.trans second.names
  distinct unique := second.distinct (first.distinct unique)

/-! ## Putting a binding -/

section Put

variable {env : Environment} {key other : Key} {name value fixed : Tree}

/-- The binding after its key has been given a value and a flag. -/
def rebound (key : Key) (value fixed : Tree) (b : Binding) : Binding :=
  if b.key = key then { b with value, fixed } else b

@[simp]
theorem key_rebound (b : Binding) : (rebound key value fixed b).key = b.key := by
  unfold rebound
  split <;> rfl

@[simp]
theorem name_rebound (b : Binding) : (rebound key value fixed b).name = b.name := by
  unfold rebound
  split <;> rfl

theorem key_of_find? {b : Binding} (found : env.find? key = some b) : b.key = key := by
  simpa using List.find?_some found

theorem put_of_isSome (bound : (env.find? key).isSome = true) :
    env.put key name value fixed = ⟨env.bindings.map (rebound key value fixed)⟩ := by
  simp only [put, bound, if_true]
  rfl

theorem put_of_eq_none (unbound : env.find? key = none) :
    env.put key name value fixed = ⟨env.bindings ++ [⟨key, name, value, fixed⟩]⟩ := by
  simp [put, unbound]

/-- Rebinding keeps every key, so the same binding is found as before, rebound. -/
theorem find?_map_rebound (bindings : List Binding) :
    (bindings.map (rebound key value fixed)).find? (fun b => b.key == other) =
      (bindings.find? fun b => b.key == other).map (rebound key value fixed) := by
  have same : (fun b => b.key == other) ∘ rebound key value fixed = fun b => b.key == other := by
    funext b
    rw [Function.comp_apply, key_rebound]
  rw [List.find?_map, same]

/-- Other keys are bound as before. -/
theorem find?_put_of_ne (apart : other ≠ key) :
    (env.put key name value fixed).find? other = env.find? other := by
  cases bound : env.find? key with
  | none =>
    rw [put_of_eq_none bound]
    have missed : ((⟨key, name, value, fixed⟩ : Binding).key == other) = false := by
      simpa using apart.symm
    simp [find?, List.find?_append, missed]
  | some b =>
    rw [put_of_isSome (by simp [bound])]
    have kept : (env.find? other).map (rebound key value fixed) = env.find? other := by
      cases found : env.find? other with
      | none => rfl
      | some c =>
        have different : ¬ c.key = key := by
          rw [key_of_find? found]
          exact apart
        simp [rebound, different]
    exact (find?_map_rebound env.bindings).trans kept

/-- What a key is bound to after a change depends on what it was bound to before. -/
theorem find?_put_self :
    (env.put key name value fixed).find? key =
      some (((env.find? key).map (rebound key value fixed)).getD ⟨key, name, value, fixed⟩) := by
  cases bound : env.find? key with
  | none =>
    have missed : env.bindings.find? (fun b => b.key == key) = none := bound
    rw [put_of_eq_none bound]
    simp [find?, List.find?_append, missed]
  | some b =>
    rw [put_of_isSome (by simp [bound])]
    have found : env.bindings.find? (fun b => b.key == key) = some b := bound
    rw [find?, find?_map_rebound, found]
    rfl

/-- Binding a key keeps the names in their order, and a new name comes last. -/
theorem names_put : env.names <+: (env.put key name value fixed).names := by
  cases bound : env.find? key with
  | none =>
    rw [put_of_eq_none bound]
    simp [names]
  | some b =>
    rw [put_of_isSome (by simp [bound])]
    simp [names, Function.comp_def]

/-- Binding a key keeps the keys distinct. -/
theorem distinct_put (unique : env.Distinct) : (env.put key name value fixed).Distinct := by
  cases bound : env.find? key with
  | none =>
    rw [put_of_eq_none bound]
    have absent : ∀ b ∈ env.bindings, ¬ b.key = key := by simpa [find?] using bound
    have apart : ∀ k ∈ env.bindings.map Binding.key, k ≠ key := by simpa using absent
    unfold Distinct
    rw [List.map_append, List.nodup_append]
    refine ⟨unique, by simp, fun k listed k' same => ?_⟩
    rw [List.mem_singleton.1 same]
    exact apart k listed
  | some b =>
    rw [put_of_isSome (by simp [bound])]
    have keys : (env.bindings.map (rebound key value fixed)).map Binding.key =
        env.bindings.map Binding.key := by
      simp [Function.comp_def]
    unfold Distinct
    rw [keys]
    exact unique

/-- A property that all values have and the new one as well. -/
theorem forall_value_put {P : Tree → Prop} (all : ∀ b ∈ env.bindings, P b.value) (new : P value) :
    ∀ b ∈ (env.put key name value fixed).bindings, P b.value := by
  cases bound : env.find? key with
  | none =>
    rw [put_of_eq_none bound]
    exact List.forall_mem_append.2 ⟨all, List.forall_mem_singleton.2 new⟩
  | some b =>
    rw [put_of_isSome (by simp [bound])]
    intro c member
    obtain ⟨b', member', rfl⟩ := List.mem_map.1 member
    unfold rebound
    split
    · exact new
    · exact all b' member'

/-- To put a binding in the place of one that may change, or of none, is to grow. -/
theorem grows_put (free : env.isFixed key = false) :
    env.Grows (env.put key name value fixed) where
  fixed k b found isTrue := by
    have apart : k ≠ key := by
      rintro rfl
      have taken : env.isFixed k = true := by
        rw [isFixed, found]
        exact isTrue
      exact Bool.false_ne_true (free.symm.trans taken)
    rw [find?_put_of_ne apart]
    exact found
  names := names_put
  distinct := distinct_put

end Put

/-! ## The operations -/

section Operations

variable {env later : Environment} {name value fixed line : Tree}

/-- An operation that succeeds has a key to work on. -/
theorem exists_key_of_keyOf_bind {next : Key → Except Failure Environment}
    (done : keyOf name >>= next = .ok later) : ∃ key, next key = .ok later := by
  cases keyed : keyOf name with
  | error failure =>
    rw [keyed] at done
    cases done
  | ok key =>
    rw [keyed] at done
    exact ⟨key, done⟩

theorem grows_declare (done : env.declare name value fixed line = .ok later) : env.Grows later := by
  obtain ⟨key, done⟩ := exists_key_of_keyOf_bind done
  split at done
  · cases done
  · next free =>
    cases done
    exact grows_put (Bool.eq_false_iff.2 free)

/-- An assignment is refused for a fixed binding, and so the environment grows. -/
theorem grows_assign (done : env.assign name value line = .ok later) : env.Grows later := by
  obtain ⟨key, done⟩ := exists_key_of_keyOf_bind done
  split at done
  · cases done
  · next b found =>
    split at done
    · cases done
    · next free =>
      cases done
      refine grows_put ?_
      rw [isFixed, found]
      exact Bool.eq_false_iff.2 free

theorem grows_bind (done : env.bind name value line = .ok later) : env.Grows later := by
  obtain ⟨key, done⟩ := exists_key_of_keyOf_bind done
  split at done
  · cases done
  · next free =>
    cases done
    exact grows_put (Bool.eq_false_iff.2 free)

end Operations

end Parlance.Environment
