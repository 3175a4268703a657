-- SUMMARY: Which mutations reach their records by one request: those whose filter names a record.
import EntityQuery.Proofs.Filter.SingleId
import EntityQuery.Proofs.Request.Plan

/-!
# Targets of mutations

A mutation with a filter either has one record as its target or has to look its
records up. The form of the filter decides which, and it decides for the plan
and for the single request alike. More text after a filter that names a record
makes its target a lookup.
-/

namespace EntityQuery

open EntityQuery.Filter (NamesRecord)

/-- Records of a collection have different URLs. -/
theorem recordUrl_inj {collection id other : Text} :
    recordUrl collection id = recordUrl collection other ↔ id = other := by
  simp [recordUrl]

namespace Service

variable {s : Service} {q : Query} {m : Mutation} {entity filter : Text}

/-- A request that looks up the records of an entity that a filter selects: a GET that selects their
    ids alone and has the filter as it is. -/
structure LooksUp (s : Service) (entity filter : Text) (r : Request) : Prop where
  method_eq : r.method = .get
  endpoint_eq : r.endpoint = s.collectionUrl entity
  params_eq : r.params =
    [("$select".toList, entity ++ "id".toList), ("$filter".toList, filter)]
  headers_eq : r.headers = Request.standardHeaders false
  body_eq : r.body = none

/-- What a filter makes of the plan and of the request for a mutation. -/
structure TargetsBy (s : Service) (q : Query) (filter : Text) : Prop where
  /-- One request to the URL of a record is planned if the filter names this record. -/
  direct (id : Text) :
    (∃ r, s.plan q = .ok (.direct r) ∧
      r.endpoint = s.collectionUrl q.entity ++ '(' :: id ++ [')']) ↔ NamesRecord filter id
  /-- A lookup is planned if the filter names no record. -/
  bulk : (∃ p, s.plan q = .ok (.bulk p)) ↔ ∀ id, ¬ NamesRecord filter id
  /-- The lookup is that of the records that the filter selects. -/
  lookup {p : BulkPlan} : s.plan q = .ok (.bulk p) → s.LooksUp q.entity filter p.lookup
  /-- The single request is the planned one. -/
  single (r : Request) : s.request q = .ok r ↔ s.plan q = .ok (.direct r)
  /-- There is none for a plan with a lookup, and for no other reason. -/
  ambiguous (e : Request.Error) : s.request q = .error e ↔
    e = .ambiguousTarget q.operation q.entity filter ∧ ∃ p, s.plan q = .ok (.bulk p)

/-- The lookup asks for the key field alone. -/
theorem params_lookupQuery (entity filter : Text) : (lookupQuery entity filter).params =
    [("$select".toList, entity ++ "id".toList), ("$filter".toList, filter)] := by
  have hkey : keyFieldOf entity ≠ wildcard := by
    intro h
    have hlength := congrArg List.length h
    simp [keyFieldOf, wildcard] at hlength
  have hfields : (lookupQuery entity filter).readsAllFields = false := by
    simp [Select.readsAllFields, lookupQuery, hkey]
  rw [Select.params, hfields]
  simp [lookupQuery, keyFieldOf, Text.join]

theorem looksUp_read (s : Service) (entity filter : Text) :
    s.LooksUp entity filter (s.read (lookupQuery entity filter)) :=
  ⟨rfl, rfl, params_lookupQuery entity filter, rfl, rfl⟩

/-- Where the filter names a record, there is one request, and it is for this record. -/
theorem targetsBy_of_namesRecord (hq : q.operation = .update ∨ q.operation = .delete)
    (hf : q.filter = some filter) {id : Text} (h : NamesRecord filter id) :
    s.TargetsBy q filter := by
  obtain ⟨m, -, hplan⟩ := plan_of_filter (s := s) hq hf
  have hread := Filter.recordId?_eq_some_iff.2 h
  rw [planFor_of_recordId hread] at hplan
  have hrequest : s.request q = .ok (m.requestFor (s.collectionUrl q.entity) id) := by
    rw [request_of_plan hq, hplan]
  refine ⟨fun other => ?direct, ?bulk, fun {p} hp => ?lookup, fun r => ?single, fun e => ?ambiguous⟩
  case direct =>
    constructor
    · rintro ⟨r, hr, hendpoint⟩
      rw [hplan] at hr
      cases hr
      obtain rfl : id = other := recordUrl_inj.1 hendpoint
      exact h
    · intro hother
      have hsame := hread.symm.trans (Filter.recordId?_eq_some_iff.2 hother)
      obtain rfl : id = other := Option.some.inj hsame
      exact ⟨_, hplan, rfl⟩
  case bulk =>
    refine iff_of_false ?_ fun hnone => hnone id h
    rintro ⟨p, hp⟩
    rw [hplan] at hp
    cases hp
  case lookup =>
    rw [hplan] at hp
    cases hp
  case single => simp [hrequest, hplan]
  case ambiguous => simp [hrequest, hplan]

/-- Where the filter names no record, there is a lookup and no single request. -/
theorem targetsBy_of_not_namesRecord (hq : q.operation = .update ∨ q.operation = .delete)
    (hf : q.filter = some filter) (h : ∀ id, ¬ NamesRecord filter id) : s.TargetsBy q filter := by
  obtain ⟨m, -, hplan⟩ := plan_of_filter (s := s) hq hf
  rw [planFor_of_not_recordId (Filter.recordId?_eq_none_iff.2 h)] at hplan
  have hrequest : s.request q = .error (.ambiguousTarget q.operation q.entity filter) := by
    rw [request_of_plan_bulk hplan, hf]
    rfl
  refine ⟨fun id => ?direct, ?bulk, fun {p} hp => ?lookup, fun r => ?single, fun e => ?ambiguous⟩
  case direct =>
    refine iff_of_false ?_ (h id)
    rintro ⟨r, hr, -⟩
    rw [hplan] at hr
    cases hr
  case bulk => exact iff_of_true ⟨_, hplan⟩ h
  case lookup =>
    rw [hplan] at hp
    cases hp
    exact s.looksUp_read q.entity filter
  case single => simp [hrequest, hplan]
  case ambiguous => simp [hrequest, hplan, eq_comm]

/-- A filter is read as naming a record exactly if it is a single comparison of an id field with a
    literal. A mutation with this filter is one request for this record; with any other filter, also
    with one that has more text after such a comparison, it needs a lookup and is no single
    request. -/
theorem targetsBy_iff_namesRecord (s : Service) (filter : Text) :
    (∀ id, Filter.recordId? filter = some id ↔ NamesRecord filter id) ∧
      (∀ id more other, NamesRecord filter id → Text.isBlank more = false →
        ¬ NamesRecord (filter ++ more) other) ∧
      ∀ q : Query, q.operation = .update ∨ q.operation = .delete → q.filter = some filter →
        s.TargetsBy q filter := by
  refine ⟨fun id => Filter.recordId?_eq_some_iff, fun id more other h hmore =>
    h.not_append hmore other, fun q hq hf => ?_⟩
  by_cases h : ∃ id, NamesRecord filter id
  · obtain ⟨id, hid⟩ := h
    exact targetsBy_of_namesRecord hq hf hid
  · exact targetsBy_of_not_namesRecord hq hf (not_exists.1 h)

/-- A deletion by id, and the same with another comparison after it. -/
theorem targetsBy_iff_namesRecord_of_two_ids :
    ∃ one two : Text, one = " AccountID eq '\x7b12\x7d'".toList ∧
      two = one ++ " or accountid eq '3'".toList ∧ NamesRecord one "12".toList ∧
      (∀ id, ¬ NamesRecord two id) ∧
      TargetsBy ⟨[], defaultVersion⟩ (.delete ⟨"account".toList, some one⟩) one ∧
      TargetsBy ⟨[], defaultVersion⟩ (.delete ⟨"account".toList, some two⟩) two := by
  have hone := targetsBy_iff_namesRecord ⟨[], defaultVersion⟩ " AccountID eq '\x7b12\x7d'".toList
  have htwo := targetsBy_iff_namesRecord ⟨[], defaultVersion⟩
    (" AccountID eq '\x7b12\x7d'".toList ++ " or accountid eq '3'".toList)
  have hnames := (hone.1 "12".toList).1 (by decide +kernel)
  exact ⟨_, _, rfl, rfl, hnames, fun id => hone.2.1 _ _ id hnames (by decide),
    hone.2.2 _ (.inr rfl) rfl, htwo.2.2 _ (.inr rfl) rfl⟩

end Service

end EntityQuery
