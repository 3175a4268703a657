-- SUMMARY: Bulk mutations are reported exactly: what is sent after the lookup, and what comes of it for every run of answers.
import EntityQuery.Proofs.Execution.Paging
import EntityQuery.Proofs.Request.Plan
import Mathlib.Data.List.Forall2

/-!
# Bulk mutations

A bulk mutation looks up its records, takes their ids, and goes from record to
record. The three steps are separate: nothing is changed before all ids are
known, and the first request that fails is the last one that is sent.
-/

namespace EntityQuery.Execution

/-! ## Runs of answers -/

/-- How many requests in a row are carried out, given the answers to them. -/
def successes : List Answer → Nat
  | [] => 0
  | answer :: answers => if succeeds (some answer) then successes answers + 1 else 0

theorem succeeds_of_lt_successes {answers : List Answer} {i : Nat} (h : i < successes answers) :
    succeeds answers[i]? = true := by
  induction answers generalizing i with
  | nil => cases h
  | cons answer answers ih =>
    rw [successes] at h
    split at h
    · next hs =>
      cases i with
      | zero => exact hs
      | succ i => exact ih (by omega)
    · cases h

theorem not_succeeds_successes (answers : List Answer) :
    succeeds answers[successes answers]? = false := by
  induction answers with
  | nil => rfl
  | cons answer answers ih =>
    rw [successes]
    split
    · simpa using ih
    · next hs => simpa using hs

theorem le_successes_iff {answers : List Answer} {n : Nat} :
    n ≤ successes answers ↔ ∀ i < n, succeeds answers[i]? = true := by
  constructor
  · intro h i hi
    exact succeeds_of_lt_successes (by omega)
  · intro h
    rcases Nat.lt_or_ge (successes answers) n with hlt | hle
    · have hs := h (successes answers) hlt
      rw [not_succeeds_successes] at hs
      cases hs
    · exact hle

theorem successes_eq_iff {answers : List Answer} {k : Nat} :
    successes answers = k ↔
      (∀ i < k, succeeds answers[i]? = true) ∧ succeeds answers[k]? = false := by
  constructor
  · rintro rfl
    exact ⟨fun i hi => succeeds_of_lt_successes hi, not_succeeds_successes answers⟩
  · rintro ⟨hlt, hk⟩
    rcases Nat.lt_or_eq_of_le (le_successes_iff.2 hlt) with hk' | rfl
    · have hs := succeeds_of_lt_successes hk'
      rw [hk] at hs
      cases hs
    · rfl

/-! ## Ids -/

theorem keysOf_of_mem {field : Text} {records : List Json} {record : Json} (hm : record ∈ records)
    (hk : Response.keyOf field record = none) :
    keysOf field records = .error (.missingKey field) := by
  induction records with
  | nil => cases hm
  | cons first records ih =>
    simp only [keysOf, List.mapM_cons, bind, Except.bind]
    cases hf : Response.keyOf field first with
    | none => rfl
    | some key =>
      rcases List.mem_cons.1 hm with rfl | hm
      · rw [hk] at hf
        cases hf
      · have hi := ih hm
        rw [keysOf] at hi
        simp [hi]

theorem keysOf_of_forall {field : Text} {records : List Json}
    (h : ∀ record ∈ records, (Response.keyOf field record).isSome) :
    keysOf field records = .ok (records.filterMap (Response.keyOf field)) := by
  induction records with
  | nil => rfl
  | cons first records ih =>
    obtain ⟨hf, hr⟩ := List.forall_mem_cons.1 h
    obtain ⟨key, hk⟩ := Option.isSome_iff_exists.1 hf
    have hi := ih hr
    rw [keysOf] at hi
    simp [keysOf, List.mapM_cons, bind, Except.bind, hk, hi, pure, Except.pure]

/-! ## One record after the other -/

variable {p : BulkPlan} {total applied : Nat} {ids : List Text} {answers : List Answer}

theorem applyEach_cons_of_succeeds {id : Text} (h : succeeds answers.head? = true) :
    applyEach p total applied (id :: ids) answers =
      let more := applyEach p total (applied + 1) ids answers.tail
      ⟨p.requestFor id :: more.sent, more.unread, more.result⟩ := by
  obtain ⟨response, hr⟩ := outcomeOf_of_succeeds (p.requestFor id) h
  simp [applyEach, hr]

theorem applyEach_cons_of_error {id : Text} {cause : Execution.Error}
    (h : outcomeOf (p.requestFor id) answers.head? = .error cause) :
    applyEach p total applied (id :: ids) answers =
      ⟨[p.requestFor id], answers.tail,
        .error (.partialFailure p.mutation.operation applied total id cause)⟩ := by
  simp [applyEach, h]

/-- The requests go from record to record and end with the first one that fails. -/
theorem sent_applyEach :
    (applyEach p total applied ids answers).sent =
      (ids.take (successes answers + 1)).map p.requestFor := by
  induction ids generalizing applied answers with
  | nil => simp [applyEach, Exchange.silent]
  | cons id ids ih =>
    cases hs : succeeds answers.head? with
    | true =>
      rw [applyEach_cons_of_succeeds hs]
      cases answers with
      | nil => cases hs
      | cons answer answers => simp [successes, show succeeds (some answer) = true from hs, ih]
    | false =>
      obtain ⟨cause, hc⟩ := outcomeOf_of_not_succeeds (p.requestFor id) hs
      rw [applyEach_cons_of_error hc]
      cases answers with
      | nil => simp [successes]
      | cons answer answers => simp [successes, show succeeds (some answer) = false from hs]

theorem result_applyEach_of_le (h : ids.length ≤ successes answers) :
    (applyEach p total applied ids answers).result = .ok (applied + ids.length) := by
  induction ids generalizing applied answers with
  | nil => rfl
  | cons id ids ih =>
    cases answers with
    | nil => cases h
    | cons answer answers =>
      rw [successes] at h
      split at h
      · next hs =>
        have hs : succeeds (answer :: answers).head? = true := hs
        rw [applyEach_cons_of_succeeds hs]
        simp only [List.tail_cons, List.length_cons] at h ⊢
        rw [ih (by omega), Nat.add_assoc, Nat.add_comm 1]
      · cases h

variable (p total applied) in
theorem result_applyEach_of_lt (h : successes answers < ids.length) :
    ∃ cause,
      outcomeOf (p.requestFor ids[successes answers]) answers[successes answers]? = .error cause ∧
      (applyEach p total applied ids answers).result =
        .error (.partialFailure p.mutation.operation (applied + successes answers) total
          ids[successes answers] cause) := by
  induction ids generalizing applied answers with
  | nil => cases h
  | cons id ids ih =>
    cases hs : succeeds answers.head? with
    | true =>
      cases answers with
      | nil => cases hs
      | cons answer answers =>
        have hk : successes (answer :: answers) = successes answers + 1 := by
          simp [successes, show succeeds (some answer) = true from hs]
        simp only [hk, List.length_cons] at h
        obtain ⟨cause, hc, hr⟩ := ih (applied + 1) (Nat.lt_of_succ_lt_succ h)
        rw [applyEach_cons_of_succeeds hs]
        simp only [hk, List.getElem_cons_succ, List.getElem?_cons_succ, List.tail_cons]
        refine ⟨cause, hc, ?_⟩
        rw [hr, Nat.add_assoc, Nat.add_comm 1]
    | false =>
      obtain ⟨cause, hc⟩ := outcomeOf_of_not_succeeds (p.requestFor id) hs
      have hk : successes answers = 0 := by
        cases answers with
        | nil => rfl
        | cons answer answers => simp [successes, show succeeds (some answer) = false from hs]
      simp only [hk, List.getElem_cons_zero, Nat.add_zero]
      refine ⟨cause, ?_, ?_⟩
      · rw [← List.head?_eq_getElem?]
        exact hc
      · rw [applyEach_cons_of_error hc]

/-! ## Lookup, ids and mutations in turn -/

variable {records : List Json}

theorem apply_of_lookup_error {cause : Execution.Error}
    (h : (readAll p.lookup answers).result = .error cause) :
    p.apply answers =
      ⟨(readAll p.lookup answers).sent, (readAll p.lookup answers).unread, .error cause⟩ := by
  simp [BulkPlan.apply, Exchange.andThen, h]

theorem apply_of_keys_error {cause : Execution.Error}
    (h : (readAll p.lookup answers).result = .ok records)
    (hk : keysOf p.keyField records = .error cause) :
    p.apply answers =
      ⟨(readAll p.lookup answers).sent, (readAll p.lookup answers).unread, .error cause⟩ := by
  simp [BulkPlan.apply, Exchange.andThen, Exchange.silent, h, hk]

theorem apply_of_keys (h : (readAll p.lookup answers).result = .ok records)
    (hk : keysOf p.keyField records = .ok ids) :
    p.apply answers =
      let more := applyEach p ids.length 0 ids (readAll p.lookup answers).unread
      ⟨(readAll p.lookup answers).sent ++ more.sent, more.unread, more.result⟩ := by
  simp [BulkPlan.apply, Exchange.andThen, h, hk]

theorem forall₂_filterMap {α β : Type} {f : α → Option β} {l : List α}
    (h : ∀ a ∈ l, (f a).isSome) : List.Forall₂ (fun a b => f a = some b) l (l.filterMap f) := by
  induction l with
  | nil => exact .nil
  | cons a l ih =>
    obtain ⟨ha, hl⟩ := List.forall_mem_cons.1 h
    obtain ⟨b, hb⟩ := Option.isSome_iff_exists.1 ha
    rw [List.filterMap_cons_some hb]
    exact .cons hb (ih hl)

/-- After a lookup requests are sent for the keys of its records, as far as they go. -/
theorem sent_apply_of_lookup (h : (readAll p.lookup answers).result = .ok records) :
    ∃ n ids, List.Forall₂ (fun record id => Response.keyOf p.keyField record = some id)
        (records.take n) ids ∧
      (p.apply answers).sent = (readAll p.lookup answers).sent ++ ids.map p.requestFor := by
  by_cases hk : ∀ record ∈ records, (Response.keyOf p.keyField record).isSome
  · rw [apply_of_keys h (keysOf_of_forall hk)]
    exact ⟨_, _, List.forall₂_take _ (forall₂_filterMap hk), congrArg _ sent_applyEach⟩
  · obtain ⟨record, hr, hkey⟩ : ∃ record ∈ records, Response.keyOf p.keyField record = none := by
      simpa using hk
    rw [apply_of_keys_error h (keysOf_of_mem hr hkey)]
    exact ⟨0, [], .nil, by simp⟩

/-- All records are reported as changed exactly if every request for one was carried out. -/
theorem result_applyEach_eq_ok_iff {n : Nat} :
    (applyEach p ids.length 0 ids answers).result = .ok n ↔
      n = ids.length ∧ ∀ i < n, succeeds answers[i]? = true := by
  rcases Nat.lt_or_ge (successes answers) ids.length with hlt | hle
  · obtain ⟨cause, -, hr⟩ := result_applyEach_of_lt p ids.length 0 hlt
    rw [hr]
    constructor
    · intro h
      cases h
    · rintro ⟨rfl, hs⟩
      have := le_successes_iff.2 hs
      omega
  · rw [result_applyEach_of_le hle, Nat.zero_add, Except.ok.injEq]
    constructor
    · rintro rfl
      exact ⟨rfl, le_successes_iff.1 hle⟩
    · rintro ⟨rfl, -⟩
      rfl

/-- A failure after `k` records is reported exactly if the requests for the first `k` records were
    carried out and the one for the next record was not. -/
theorem result_applyEach_eq_error_iff {op : Operation} {k : Nat} {id : Text}
    {cause : Execution.Error} :
    (applyEach p ids.length 0 ids answers).result = .error (.partialFailure op k total id cause) ↔
      op = p.mutation.operation ∧ total = ids.length ∧ ids[k]? = some id ∧
      (∀ i < k, succeeds answers[i]? = true) ∧
      outcomeOf (p.requestFor id) answers[k]? = .error cause := by
  constructor
  · intro h
    rcases Nat.lt_or_ge (successes answers) ids.length with hlt | hle
    · obtain ⟨cause', hc, hr⟩ := result_applyEach_of_lt p ids.length 0 hlt
      rw [hr, Nat.zero_add] at h
      cases h
      exact ⟨rfl, rfl, List.getElem?_eq_getElem hlt, le_successes_iff.1 (Nat.le_refl _), hc⟩
    · rw [result_applyEach_of_le hle] at h
      cases h
  · rintro ⟨rfl, rfl, hid, hs, hc⟩
    have hf : succeeds answers[k]? = false := by
      cases hk : succeeds answers[k]? with
      | false => rfl
      | true =>
        obtain ⟨response, hr⟩ := outcomeOf_of_succeeds (p.requestFor id) hk
        rw [hc] at hr
        cases hr
    obtain rfl := successes_eq_iff.2 ⟨hs, hf⟩
    obtain ⟨hlt, rfl⟩ := List.getElem?_eq_some_iff.1 hid
    obtain ⟨cause', hc', hr⟩ := result_applyEach_of_lt p ids.length 0 hlt
    rw [hc] at hc'
    cases hc'
    rw [hr, Nat.zero_add]

/-- What a bulk mutation sends and reports, for every run of answers. If the lookup fails, or if a
    record has no id, only the lookup was sent. Otherwise the ids are those of the records of all
    pages in order; a request is sent for one after the other, up to the first that fails, and the
    result tells how far it went. -/
theorem bulk_reported_exactly {s : Service} {q : Query} {p : BulkPlan}
    (h : s.plan q = .ok (.bulk p)) (answers : List Answer) :
    let lookup := readAll p.lookup answers
    let rest := answers.drop lookup.sent.length
    let e := (MutationPlan.bulk p).apply answers
    (∀ r ∈ lookup.sent, r.method = .get) ∧
    (∀ cause, lookup.result = .error cause → e.sent = lookup.sent ∧ e.result = .error cause) ∧
    (∀ records, lookup.result = .ok records →
      (∃ record ∈ records, Response.keyOf p.keyField record = none) →
      e.sent = lookup.sent ∧ e.result = .error (.missingKey p.keyField)) ∧
    (∀ records, lookup.result = .ok records →
      (∀ record ∈ records, (Response.keyOf p.keyField record).isSome) →
      let ids := records.filterMap (Response.keyOf p.keyField)
      (∃ pages : List Json,
        (answers.take lookup.sent.length).map pageIn? = pages.map some ∧
        records = pages.flatMap Response.recordsOf) ∧
      e.sent = lookup.sent ++ (ids.take (successes rest + 1)).map p.requestFor ∧
      (∀ n, e.result = .ok n ↔ n = ids.length ∧ ∀ i < n, succeeds rest[i]? = true) ∧
      (∀ op k total id cause, e.result = .error (.partialFailure op k total id cause) ↔
        op = q.operation ∧ total = ids.length ∧ ids[k]? = some id ∧
        (∀ i < k, succeeds rest[i]? = true) ∧
        outcomeOf (p.requestFor id) rest[k]? = .error cause)) := by
  obtain ⟨m, filter, hm, -, hp⟩ := Service.plan_bulk_cases h
  have hop : q.operation = p.mutation.operation := by rw [hm, hp]
  have hget : p.lookup.method = .get ∧ p.lookup.body = none := by rw [hp]; exact ⟨rfl, rfl⟩
  have hrest : (readAll p.lookup answers).unread =
      answers.drop (readAll p.lookup answers).sent.length := unread_readPages [] p.lookup answers
  refine ⟨fun r hr => (sent_readAll hget.1 hget.2 answers r hr).1, ?_, ?_, ?_⟩
  · intro cause hl
    simp [MutationPlan.apply, apply_of_lookup_error hl]
  · rintro records hl ⟨record, hr, hk⟩
    simp [MutationPlan.apply, apply_of_keys_error hl (keysOf_of_mem hr hk)]
  · intro records hl hk
    simp only [MutationPlan.apply, apply_of_keys hl (keysOf_of_forall hk), hrest, hop]
    exact ⟨records_readPages hl, congrArg _ sent_applyEach, fun n => result_applyEach_eq_ok_iff,
      fun op k total id cause => result_applyEach_eq_error_iff⟩

/-- Of three records on two pages the second one fails: one was changed, and no request is sent for
    the third. -/
theorem bulk_reported_exactly_second_of_three :
    let s : Service := ⟨[], "9.2".toList⟩
    let q : Query := .delete ⟨"t".toList, some "a eq 1".toList⟩
    let p : BulkPlan := ⟨.remove, s.collectionUrl "t".toList, "tid".toList,
      s.read (lookupQuery "t".toList "a eq 1".toList)⟩
    let first : Text := "\x7b\"value\":[\x7b\"tid\":\"a\"\x7d,\x7b\"tid\":7\x7d],".toList ++
      "\"@odata.nextLink\":\"/n\"\x7d".toList
    let answers : List Answer := [
      .ok ⟨200, [], first⟩,
      .ok ⟨200, [], "\x7b\"value\":[\x7b\"tid\":\"c\"\x7d]\x7d".toList⟩,
      .ok ⟨204, [], []⟩, .ok ⟨500, [], []⟩, .ok ⟨204, [], []⟩]
    s.plan q = .ok (.bulk p) ∧
    ((MutationPlan.bulk p).apply answers).sent =
      [p.lookup, Request.get "/n".toList, p.requestFor "a".toList, p.requestFor "7".toList] ∧
    ((MutationPlan.bulk p).apply answers).result = .error (.partialFailure .delete 1 3 "7".toList
      (.status .delete "/api/data/v9.2/t(7)".toList 500 [])) := by
  intro s q p first answers
  have hplan : s.plan q = .ok (.bulk p) :=
    congrArg Except.ok (Service.planFor_of_not_recordId (by decide +kernel))
  have hsent : (readAll p.lookup answers).sent = [p.lookup, Request.get "/n".toList] := by
    decide +kernel
  have hkeys : (readAll p.lookup answers).result.toOption.map
      (fun records => records.map (Response.keyOf p.keyField)) =
        some [some "a".toList, some "7".toList, some "c".toList] := by
    decide +kernel
  cases hlookup : (readAll p.lookup answers).result with
  | error cause =>
    rw [hlookup] at hkeys
    cases hkeys
  | ok records =>
    rw [hlookup] at hkeys
    have hmap : records.map (Response.keyOf p.keyField) =
        [some "a".toList, some "7".toList, some "c".toList] := Option.some.inj hkeys
    have hsome : ∀ key ∈ records.map (Response.keyOf p.keyField), key.isSome = true := by
      rw [hmap]
      decide
    have hids : records.filterMap (Response.keyOf p.keyField) =
        ["a".toList, "7".toList, "c".toList] := by
      have hflat := congrArg (List.filterMap id) hmap
      rwa [List.filterMap_map, Function.id_comp] at hflat
    obtain ⟨-, hs, -, hr⟩ := (bulk_reported_exactly hplan answers).2.2.2 _ hlookup
      fun record hrecord => hsome _ (List.mem_map_of_mem hrecord)
    rw [hsent, hids] at hs
    rw [hsent, hids] at hr
    exact ⟨hplan, hs, (hr .delete 1 3 "7".toList _).2 ⟨rfl, rfl, by decide, by decide, rfl⟩⟩

end EntityQuery.Execution
