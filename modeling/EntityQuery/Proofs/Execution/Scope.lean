-- SUMMARY: How far a query can reach: the requests that its run may send, and the refusal of queries without a filter.
import EntityQuery.Proofs.Execution.Bulk
import EntityQuery.Proofs.Request.Body
import Mathlib.Data.List.TakeWhile

/-!
# The scope of a run

Reading only reads, and creating is one POST. Changing and deleting reach
single records, after a lookup or without one; no run sends a PATCH or a DELETE
to a collection. A query that changes or deletes without a filter is refused
before anything is sent. A blank filter is not refused: it is looked up, and a
service that takes it for no condition answers with every record.
-/

namespace EntityQuery

/-! ## Keys -/

theorem Text.ofInt_ne_nil (n : Int) : Text.ofInt n ≠ [] := by
  unfold Text.ofInt
  split
  · simp
  · exact Nat.toDigits_ne_nil

theorem Json.digitsText_ne_nil (d : Digits) : Json.digitsText d ≠ [] := by
  unfold Json.digitsText
  split
  · simp
  · split <;> simp

theorem Json.floatText_ne_nil (x : Float) : Json.floatText x ≠ [] := by
  unfold Json.floatText
  split
  · dsimp only
    split
    · split
      · decide
      · exact Json.digitsText_ne_nil _
    · simp
  · decide

/-- The id of a record that was looked up is not empty. -/
theorem Response.keyOf_ne_nil {field : Text} {record : Json} {id : Text}
    (h : Response.keyOf field record = some id) : id ≠ [] := by
  unfold Response.keyOf at h
  split at h
  · next s _ =>
    split at h
    · cases h
    · next hs =>
      cases h
      simpa using hs
  · next n _ =>
    cases h
    exact Text.ofInt_ne_nil n
  · next x _ =>
    cases h
    exact Json.floatText_ne_nil x
  · cases h

/-! ## Requests for one record -/

/-- A request for one record of an entity: it goes to the URL of the record without parameters, and
    the id in the URL is not empty. -/
structure Request.IsForRecord (s : Service) (entity : Text) (r : Request) : Prop where
  params_eq : r.params = []
  endpoint_eq : ∃ id, id ≠ [] ∧ r.endpoint = s.collectionUrl entity ++ '(' :: id ++ [')']

/-- A request that gives new values to a record: a PATCH whose body encodes them. -/
structure Request.Changes (s : Service) (entity : Text) (values : Assignments) (r : Request) :
    Prop extends r.IsForRecord s entity where
  method_eq : r.method = .patch
  body_eq : ∃ body, r.body = some body ∧ values.EncodedBy body

/-- A request that deletes a record: a DELETE without a body. -/
structure Request.Deletes (s : Service) (entity : Text) (r : Request) :
    Prop extends r.IsForRecord s entity where
  method_eq : r.method = .delete
  body_eq : r.body = none

/-- A request that does to a record what a mutation says. -/
def Mutation.IsDoneBy (s : Service) (entity : Text) : Mutation → Request → Prop
  | change values => Request.Changes s entity values
  | remove => Request.Deletes s entity

theorem Mutation.isDoneBy_requestFor (m : Mutation) (s : Service) (entity : Text) {id : Text}
    (h : id ≠ []) : m.IsDoneBy s entity (m.requestFor (s.collectionUrl entity) id) := by
  cases m with
  | change values => exact ⟨⟨rfl, id, h, rfl⟩, rfl, _, rfl, values.encodedBy_bodyOf⟩
  | remove => exact ⟨⟨rfl, id, h, rfl⟩, rfl, rfl⟩

/-! ## Requests of a mutation -/

namespace Execution

/-- After the lookup a bulk mutation sends nothing but requests for ids, none of which is empty. -/
theorem sent_apply_bulk (p : BulkPlan) (answers : List Answer) :
    ∃ ids : List Text, (∀ id ∈ ids, id ≠ []) ∧
      (p.apply answers).sent = (readAll p.lookup answers).sent ++ ids.map p.requestFor := by
  cases hl : (readAll p.lookup answers).result with
  | error cause =>
    rw [apply_of_lookup_error hl]
    exact ⟨[], by simp, by simp⟩
  | ok records =>
    obtain ⟨n, ids, hkeys, hsent⟩ := sent_apply_of_lookup hl
    have hne : List.Forall₂ (fun id record => id ≠ [] ∧ Response.keyOf p.keyField record = some id)
        ids (records.take n) :=
      List.Forall₂.flip (hkeys.imp fun _ _ hkey => ⟨Response.keyOf_ne_nil hkey, hkey⟩)
    exact ⟨ids, ((List.forall₂_and_left _ _).1 hne).1, hsent⟩

/-- A bulk mutation starts with its lookup. -/
theorem head?_sent_apply_bulk (p : BulkPlan) (answers : List Answer) :
    (p.apply answers).sent.head? = some p.lookup := by
  obtain ⟨ids, -, hsent⟩ := sent_apply_bulk p answers
  rw [hsent, List.head?_append, readAll, head?_sent_readPages]
  rfl

end Execution

namespace Service

/-- Requests of which the first ones are GETs without a body, and all that follow are of a kind. -/
def ReadsThen (p : Request → Prop) (sent : List Request) : Prop :=
  ∃ reads mutations, sent = reads ++ mutations ∧
    (∀ r ∈ reads, r.method = .get ∧ r.body = none) ∧ ∀ r ∈ mutations, p r

theorem readsThen_apply (s : Service) (m : Mutation) (entity filter : Text)
    (answers : List Answer) :
    ReadsThen (m.IsDoneBy s entity) ((s.planFor m entity filter).apply answers).sent := by
  cases hid : Filter.recordId? filter with
  | some id =>
    rw [planFor_of_recordId hid]
    refine ⟨[], [m.requestFor (s.collectionUrl entity) id], rfl, by simp, ?_⟩
    intro r hr
    rw [List.mem_singleton.1 hr]
    exact m.isDoneBy_requestFor s entity (Filter.recordId?_ne_nil hid)
  | none =>
    rw [planFor_of_not_recordId hid]
    obtain ⟨ids, hids, hsent⟩ := Execution.sent_apply_bulk
      ⟨m, s.collectionUrl entity, keyFieldOf entity, s.read (lookupQuery entity filter)⟩ answers
    refine ⟨_, _, hsent, Execution.sent_readAll rfl rfl answers, ?_⟩
    intro r hr
    obtain ⟨id, hid, rfl⟩ := List.mem_map.1 hr
    exact m.isDoneBy_requestFor s entity (hids id hid)

/-! ## Runs -/

/-- A query that changes or deletes records is refused for want of a filter: there is no plan and
    no request for it, and a run sends nothing. -/
structure RefusesUnscoped (s : Service) (q : Query) : Prop where
  plan_eq : s.plan q = .error (.missingFilter q.operation q.entity)
  request_eq : s.request q = .error (.missingFilter q.operation q.entity)
  run_eq : ∀ answers, s.run q answers =
    .silent (.error (.request (.missingFilter q.operation q.entity))) answers

/-- What the run of a query may send, and what it must not go without. -/
def Confines (s : Service) : Query → Exchange Outcome → Prop
  | .select _, e => ∀ r ∈ e.sent, r.method = .get ∧ r.body = none
  | .insert q, e => ∃ r body, e.sent = [r] ∧ r.method = .post ∧ r.params = [] ∧
      r.endpoint = s.collectionUrl q.entity ∧ r.body = some body ∧ q.values.EncodedBy body
  | .update q, e => ReadsThen (Request.Changes s q.entity q.values) e.sent ∧
      (q.filter = none →
        e.sent = [] ∧ e.result = .error (.request (.missingFilter .update q.entity)))
  | .delete q, e => ReadsThen (Request.Deletes s q.entity) e.sent ∧
      (q.filter = none →
        e.sent = [] ∧ e.result = .error (.request (.missingFilter .delete q.entity)))

theorem run_of_plan {s : Service} {q : Query} {plan : MutationPlan} (h : s.plan q = .ok plan)
    (answers : List Answer) : s.run q answers = (plan.apply answers).map .affected := by
  cases q with
  | select q => cases h
  | insert q => cases h
  | update q => simp [run, h]
  | delete q => simp [run, h]

theorem refusesUnscoped_of_filter_none {s : Service} {q : Query}
    (hq : q.operation = .update ∨ q.operation = .delete) (hf : q.filter = none) :
    s.RefusesUnscoped q := by
  cases q with
  | select q => simp [Query.operation] at hq
  | insert q => simp [Query.operation] at hq
  | update q =>
    obtain ⟨entity, values, filter⟩ := q
    cases hf
    exact ⟨rfl, rfl, fun answers => rfl⟩
  | delete q =>
    obtain ⟨entity, filter⟩ := q
    cases hf
    exact ⟨rfl, rfl, fun answers => rfl⟩

/-- No run changes or deletes a whole collection, whatever the service answers: reading sends GETs,
    creating one POST with the values, changing GETs and then PATCHes of single records with the
    values, and deleting GETs and then DELETEs of single records. -/
theorem run_confined (s : Service) (q : Query) (answers : List Answer) :
    s.Confines q (s.run q answers) := by
  cases q with
  | select q => exact Execution.sent_readAll rfl rfl answers
  | insert q => exact ⟨s.create q, _, rfl, rfl, rfl, rfl, rfl, q.values.encodedBy_bodyOf⟩
  | update q =>
    constructor
    · obtain ⟨entity, values, filter⟩ := q
      cases filter with
      | none => exact ⟨[], [], rfl, by simp, by simp⟩
      | some filter => exact s.readsThen_apply (.change values) entity filter answers
    · intro hf
      rw [(refusesUnscoped_of_filter_none (q := .update q) (.inl rfl) hf).run_eq answers]
      exact ⟨rfl, rfl⟩
  | delete q =>
    constructor
    · obtain ⟨entity, filter⟩ := q
      cases filter with
      | none => exact ⟨[], [], rfl, by simp, by simp⟩
      | some filter => exact s.readsThen_apply .remove entity filter answers
    · intro hf
      rw [(refusesUnscoped_of_filter_none (q := .delete q) (.inr rfl) hf).run_eq answers]
      exact ⟨rfl, rfl⟩

/-- Two records are looked up, and then each of them is changed, or each of them is deleted. -/
theorem run_confined_of_two_records :
    let s : Service := ⟨"https://o".toList, "9.2".toList⟩
    let values := Assignments.ofList [("n".toList, .string "'\"".toList), ("c".toList, .null)]
    let update : Query := .update ⟨"t".toList, values, some "c eq 1".toList⟩
    let delete : Query := .delete ⟨"t".toList, some "c eq 1".toList⟩
    let page : Text := "\x7b\"value\":[\x7b\"tid\":\"a\"\x7d,\x7b\"tid\":2\x7d]\x7d".toList
    let answers : List Answer := [.ok ⟨200, [], page⟩, .ok ⟨204, [], []⟩, .ok ⟨204, [], []⟩]
    let shown (r : Request) : Method × Text × Option Text := (r.method, r.url, r.body)
    let t : Text := "https://o/api/data/v9.2/t".toList
    let lookup := (Method.get, t ++ "?$select=tid&$filter=c eq 1".toList, (none : Option Text))
    let body : Text := "\x7b\"c\":null,\"n\":\"'\\\"\"\x7d".toList
    (s.Confines update (s.run update answers) ∧ (s.run update answers).sent.map shown =
      [lookup, (.patch, t ++ "(a)".toList, some body), (.patch, t ++ "(2)".toList, some body)]) ∧
    (s.Confines delete (s.run delete answers) ∧ (s.run delete answers).sent.map shown =
      [lookup, (.delete, t ++ "(a)".toList, none), (.delete, t ++ "(2)".toList, none)]) :=
  ⟨⟨run_confined _ _ _, by decide +kernel⟩, ⟨run_confined _ _ _, by decide +kernel⟩⟩

/-! ## Blank filters -/

/-- A blank filter names no record. -/
theorem recordId?_of_isBlank {filter : Text} (h : filter.isBlank = true) :
    Filter.recordId? filter = none := by
  have ht : filter.trimStart = [] := List.dropWhile_eq_nil_iff.2 (List.all_eq_true.1 h)
  simp [Filter.recordId?, Filter.idLiteral?, ht, Filter.isIdField]

theorem filter_mem_params_lookupQuery (entity filter : Text) :
    ("$filter".toList, filter) ∈ (lookupQuery entity filter).params := by
  simp [lookupQuery, Select.params]

/-- A blank filter is looked up: there is a bulk plan whose lookup carries it, and a run starts with
    that lookup. -/
theorem plan_of_blank_filter {s : Service} {q : Query} {filter : Text}
    (hq : q.operation = .update ∨ q.operation = .delete) (hf : q.filter = some filter)
    (hb : filter.isBlank = true) :
    ∃ p, s.plan q = .ok (.bulk p) ∧ ("$filter".toList, filter) ∈ p.lookup.params ∧
      s.request q = .error (.ambiguousTarget q.operation q.entity filter) ∧
      ∀ answers, (s.run q answers).sent.head? = some p.lookup := by
  obtain ⟨m, -, hp⟩ := plan_of_filter (s := s) hq hf
  rw [planFor_of_not_recordId (recordId?_of_isBlank hb)] at hp
  refine ⟨_, hp, filter_mem_params_lookupQuery q.entity filter, ?_, ?_⟩
  · rw [request_of_plan_bulk hp, hf]
    rfl
  · intro answers
    rw [run_of_plan hp answers, Exchange.map, MutationPlan.apply, Execution.head?_sent_apply_bulk]

/-! ## Refusals -/

section

variable {s : Service} {q : Query} {filter : Text}

/-- A query with a filter has a plan. -/
theorem plan_ne_error (hq : q.operation = .update ∨ q.operation = .delete)
    (hf : q.filter = some filter) (cause : Request.Error) : s.plan q ≠ .error cause := by
  obtain ⟨m, -, hp⟩ := plan_of_filter (s := s) hq hf
  rw [hp]
  intro h
  cases h

/-- A query with a filter may have no single request, but not for want of a filter. -/
theorem request_ne_missingFilter (hq : q.operation = .update ∨ q.operation = .delete)
    (hf : q.filter = some filter) (operation : Operation) (entity : Text) :
    s.request q ≠ .error (.missingFilter operation entity) := by
  obtain ⟨m, -, hp⟩ := plan_of_filter (s := s) hq hf
  rw [request_of_plan hq, hp]
  intro h
  cases hplan : s.planFor m q.entity filter with
  | direct r =>
    rw [hplan] at h
    cases h
  | bulk p =>
    rw [hplan] at h
    cases h

/-- The run of a query with a filter sends at least one request. -/
theorem sent_run_ne_nil (hq : q.operation = .update ∨ q.operation = .delete)
    (hf : q.filter = some filter) (answers : List Answer) : (s.run q answers).sent ≠ [] := by
  obtain ⟨m, -, hp⟩ := plan_of_filter (s := s) hq hf
  rw [run_of_plan hp answers, Exchange.map]
  cases s.planFor m q.entity filter with
  | direct r => exact List.cons_ne_nil r []
  | bulk p =>
    intro hnil
    have hfirst := Execution.head?_sent_apply_bulk p answers
    rw [show (p.apply answers).sent = [] from hnil] at hfirst
    cases hfirst

/-- Only a query without any filter is refused, be it for its plan, for its single request or in a
    run, and only the run of such a query sends nothing. One with a blank filter gets a bulk plan for
    whatever the service finds, and no single request. -/
theorem refused_iff_filter_absent (hq : q.operation = .update ∨ q.operation = .delete) :
    (s.RefusesUnscoped q ↔ q.filter = none) ∧
    (s.plan q = .error (.missingFilter q.operation q.entity) ↔ q.filter = none) ∧
    (s.request q = .error (.missingFilter q.operation q.entity) ↔ q.filter = none) ∧
    (∀ answers,
      ((s.run q answers).result = .error (.request (.missingFilter q.operation q.entity)) ∧
        (s.run q answers).sent = [] ↔ q.filter = none) ∧
      ((s.run q answers).sent = [] ↔ q.filter = none)) ∧
    ∀ filter, q.filter = some filter → filter.isBlank = true →
      ∃ p, s.plan q = .ok (.bulk p) ∧ ("$filter".toList, filter) ∈ p.lookup.params ∧
        s.request q = .error (.ambiguousTarget q.operation q.entity filter) ∧
        ∀ answers, (s.run q answers).sent.head? = some p.lookup := by
  have hrefused := refusesUnscoped_of_filter_none (s := s) hq
  have hplan (h : s.plan q = .error (.missingFilter q.operation q.entity)) : q.filter = none :=
    Option.eq_none_iff_forall_ne_some.2 fun filter hf => plan_ne_error hq hf _ h
  have hrequest (h : s.request q = .error (.missingFilter q.operation q.entity)) :
      q.filter = none :=
    Option.eq_none_iff_forall_ne_some.2 fun filter hf => request_ne_missingFilter hq hf _ _ h
  have hrun (answers : List Answer) (h : (s.run q answers).sent = []) : q.filter = none :=
    Option.eq_none_iff_forall_ne_some.2 fun filter hf => sent_run_ne_nil hq hf answers h
  refine ⟨⟨fun h => hplan h.plan_eq, hrefused⟩, ⟨hplan, fun hf => (hrefused hf).plan_eq⟩,
    ⟨hrequest, fun hf => (hrefused hf).request_eq⟩, fun answers => ⟨?_, ?_⟩,
    fun filter => plan_of_blank_filter hq⟩
  · refine ⟨fun h => hrun answers h.2, fun hf => ?_⟩
    rw [(hrefused hf).run_eq answers]
    exact ⟨rfl, rfl⟩
  · refine ⟨hrun answers, fun hf => ?_⟩
    rw [(hrefused hf).run_eq answers]
    rfl

end

theorem refused_iff_filter_absent_of_space :
    let s : Service := ⟨[], "9.2".toList⟩
    let q : Query := .delete ⟨"t".toList, some [' ']⟩
    ¬ s.RefusesUnscoped q ∧ ∀ answers, ∃ lookup, (s.run q answers).sent.head? = some lookup ∧
      lookup.url = "/api/data/v9.2/t?$select=tid&$filter= ".toList := by
  intro s q
  obtain ⟨hiff, -, -, -, hblank⟩ := refused_iff_filter_absent (s := s) (q := q) (.inr rfl)
  obtain ⟨p, hp, -, -, hrun⟩ := hblank [' '] rfl rfl
  constructor
  · intro h
    cases hiff.1 h
  · intro answers
    refine ⟨p.lookup, hrun answers, ?_⟩
    have hplan : s.plan q = .ok (s.planFor .remove "t".toList [' ']) := rfl
    rw [hp, planFor_of_not_recordId (recordId?_of_isBlank rfl)] at hplan
    cases hplan
    decide

/-- Not every query whose filter is absent or blank is refused: the empty filter is accepted. -/
theorem empty_filter_not_refused :
    ¬ ∀ (s : Service) (q : Query), q.operation = .update ∨ q.operation = .delete →
      (q.filter.getD []).isBlank = true → s.RefusesUnscoped q := by
  intro h
  have hq := h ⟨[], "9.2".toList⟩ (.delete ⟨"t".toList, some []⟩) (.inr rfl) rfl
  cases hq.plan_eq

end Service

end EntityQuery
