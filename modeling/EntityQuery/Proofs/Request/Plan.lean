-- SUMMARY: What a plan of a mutation says: what it is made from, and which requests it holds.
import EntityQuery.Request.Service

/-!
# Plans of mutations

A plan is made from a mutation, an entity and a filter, and from nothing else.
It holds the one request for the record that the filter names, or the lookup of
the records that the filter selects. The id that a filter names is not empty.
-/

namespace EntityQuery

/-! ## Ids -/

/-- The id that a filter names is not empty. -/
theorem Filter.recordId?_ne_nil {filter id : Text} (h : Filter.recordId? filter = some id) :
    id ≠ [] := by
  simp only [Filter.recordId?, Option.bind_eq_bind, Option.bind_eq_some_iff] at h
  obtain ⟨content, -, h⟩ := h
  split at h
  · cases h
  · next hid =>
    cases h
    simpa using hid

/-! ## Plans -/

namespace Service

variable {s : Service} {m : Mutation} {entity filter : Text}

theorem planFor_of_recordId {id : Text} (h : Filter.recordId? filter = some id) :
    s.planFor m entity filter = .direct (m.requestFor (s.collectionUrl entity) id) := by
  simp [planFor, h]

theorem planFor_of_not_recordId (h : Filter.recordId? filter = none) :
    s.planFor m entity filter =
      .bulk ⟨m, s.collectionUrl entity, keyFieldOf entity, s.read (lookupQuery entity filter)⟩ := by
  simp [planFor, h]

theorem eq_of_planFor_bulk {p : BulkPlan} (h : s.planFor m entity filter = .bulk p) :
    p = ⟨m, s.collectionUrl entity, keyFieldOf entity, s.read (lookupQuery entity filter)⟩ := by
  cases hid : Filter.recordId? filter with
  | some id =>
    rw [planFor_of_recordId hid] at h
    cases h
  | none =>
    rw [planFor_of_not_recordId hid] at h
    cases h
    rfl

theorem exists_of_planFor_direct {r : Request} (h : s.planFor m entity filter = .direct r) :
    ∃ id, Filter.recordId? filter = some id ∧ r = m.requestFor (s.collectionUrl entity) id := by
  cases hid : Filter.recordId? filter with
  | some id =>
    rw [planFor_of_recordId hid] at h
    cases h
    exact ⟨id, rfl, rfl⟩
  | none =>
    rw [planFor_of_not_recordId hid] at h
    cases h

/-- A plan is made from the mutation that a query states, and from its entity and filter. -/
theorem plan_cases {q : Query} {plan : MutationPlan} (h : s.plan q = .ok plan) :
    ∃ m filter, q.operation = Mutation.operation m ∧ q.filter = some filter ∧
      plan = s.planFor m q.entity filter := by
  cases q with
  | select q => cases h
  | insert q => cases h
  | update q =>
    obtain ⟨entity, values, filter⟩ := q
    cases filter with
    | none => cases h
    | some filter =>
      cases h
      exact ⟨.change values, filter, rfl, rfl, rfl⟩
  | delete q =>
    obtain ⟨entity, filter⟩ := q
    cases filter with
    | none => cases h
    | some filter =>
      cases h
      exact ⟨.remove, filter, rfl, rfl, rfl⟩

/-- A mutation with a filter has a plan. -/
theorem plan_of_filter {q : Query} (hq : q.operation = .update ∨ q.operation = .delete)
    (hf : q.filter = some filter) :
    ∃ m, q.operation = Mutation.operation m ∧ s.plan q = .ok (s.planFor m q.entity filter) := by
  cases q with
  | select q => simp [Query.operation] at hq
  | insert q => simp [Query.operation] at hq
  | update q =>
    obtain ⟨entity, values, _⟩ := q
    cases hf
    exact ⟨.change values, rfl, rfl⟩
  | delete q =>
    obtain ⟨entity, _⟩ := q
    cases hf
    exact ⟨.remove, rfl, rfl⟩

/-- The single request for a mutation is read off its plan. -/
theorem request_of_plan {q : Query} (hq : q.operation = .update ∨ q.operation = .delete) :
    s.request q = match s.plan q with
      | .ok (.direct r) => .ok r
      | .ok (.bulk _) => .error (.ambiguousTarget q.operation q.entity (q.filter.getD []))
      | .error e => .error e := by
  cases q with
  | select q => simp [Query.operation] at hq
  | insert q => simp [Query.operation] at hq
  | update q => rfl
  | delete q => rfl

/-- There is no single request for a query whose plan is a bulk plan. -/
theorem request_of_plan_bulk {q : Query} {p : BulkPlan} (h : s.plan q = .ok (.bulk p)) :
    s.request q = .error (.ambiguousTarget q.operation q.entity (q.filter.getD [])) := by
  cases q with
  | select q => cases h
  | insert q => cases h
  | update q => simp [request, h]
  | delete q => simp [request, h]

/-- A bulk plan holds the mutation that its query states, and the lookup of what its filter
    selects. -/
theorem plan_bulk_cases {q : Query} {p : BulkPlan} (h : s.plan q = .ok (.bulk p)) :
    ∃ m filter, q.operation = Mutation.operation m ∧ q.filter = some filter ∧
      p = ⟨m, s.collectionUrl q.entity, keyFieldOf q.entity,
        s.read (lookupQuery q.entity filter)⟩ := by
  obtain ⟨m, filter, hop, hf, hp⟩ := plan_cases h
  exact ⟨m, filter, hop, hf, eq_of_planFor_bulk hp.symm⟩

end Service

end EntityQuery
