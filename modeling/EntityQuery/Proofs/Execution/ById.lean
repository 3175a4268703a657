-- SUMMARY: A change whose condition compares an id field with a literal sends one request, to the record with this id.
import EntityQuery.Proofs.Execution.Scope
import EntityQuery.Proofs.Filter.RecordId
import EntityQuery.Proofs.Statement.Change

/-!
# Changing a record by its id

The condition of a statement may name one record by a comparison of an id field
with a literal. However such a statement is written and whatever is in the
literal, it is carried out by one request, to the record that the literal names.
-/

namespace EntityQuery

namespace Statement

/-- What happens to the records that a statement changes or deletes. -/
def Change.mutation : Change → Mutation
  | set assignments => .change (Assignments.ofList (assignments.map Assignment.pair))
  | remove _ => .remove

/-- How a field is compared with a text. -/
def comparisonMarks (field value : Text) : List Mark :=
  [.text field, .space, .text "=".toList, .space, .text value.quoted]

/-- What a comparison with a text is written as. -/
theorem exists_comparison {field value c : Text} (hc : Written (comparisonMarks field value) c) :
    ∃ l r : Text, l.isBlank = true ∧ r.isBlank = true ∧
      c = field ++ (l ++ '=' :: (r ++ value.quoted)) := by
  obtain ⟨_, _, rfl, rfl, l, _, rfl, hl, _, _, rfl, rfl, r, t, rfl, hr, ht⟩ := hc
  exact ⟨l, r, hl, hr, by rw [written_text.1 ht]; rfl⟩

/-- A comparison with a text is a condition, whatever the text is. -/
theorem isCondition_comparison {field value c : Text} (hfield : field.isIdentifier = true)
    (hvalue : '\'' ∉ value) (hc : Written (comparisonMarks field value) c) : IsCondition [] c := by
  obtain ⟨l, r, hl, hr, rfl⟩ := exists_comparison hc
  have hplain := Text.isPlain_of_isIdentifier hfield
  have hquote := Filter.notMem_comparison hl hr rfl (by decide) hplain.quote_notMem
  have hwhole : field ++ (l ++ '=' :: (r ++ value.quoted)) =
      field ++ (l ++ '=' :: r) ++ value.quoted := by simp
  obtain ⟨hclosed, hmask⟩ := mask_append_of_notMem hquote (Text.quotesClosed_quoted hvalue)
  have hsemicolon : ';' ∉ mask (field ++ (l ++ '=' :: r) ++ value.quoted) := by
    rw [hmask, List.mem_append, not_or]
    exact ⟨Filter.notMem_comparison hl hr rfl (by decide) hplain.semicolon_notMem,
      (Literal.isBody_mask_quoted hvalue).1.semicolon_notMem⟩
  exact ⟨by simpa using hplain.trim_append_quoted (l ++ '=' :: r) value, by simp [hplain.1],
    hwhole ▸ hclosed, hwhole ▸ hsemicolon, by simp⟩

end Statement

open Statement

namespace Service

variable {change : Change} {entity : Text}

theorem plan_change (s : Service) (filter : Text) :
    s.plan (change.query entity (some filter)) = .ok (s.planFor change.mutation entity filter) := by
  cases change <;> rfl

/-- A statement that names one record by its id sends one request, to the URL of this record: a PATCH
    with the values that it sets, or a DELETE. -/
theorem run_by_id (s : Service) (hchange : change.Valid) (hentity : entity.IsEntityName)
    {field value : Text} (hfield : field.IsIdName) (hvalue : '\'' ∉ value)
    (hid : (Filter.withoutBraces value).isBlank = false) {t : Text}
    (ht : States (change.marks entity ++
      Mark.clause ["where".toList] (comparisonMarks field value)) t) (checks : Checks) :
    ∃ q, Query.ofText checks t = .ok q ∧ ∀ answers,
      (∃ r, (s.run q answers).sent = [r] ∧ change.mutation.IsDoneBy s entity r ∧ r.params = [] ∧
        r.endpoint = s.collectionUrl entity ++ '(' :: (Filter.withoutBraces value).trim ++ [')'] ∧
        r.headers = Request.standardHeaders r.body.isSome ∧ r.body = change.mutation.body) ∧
      ∀ response, answers.head? = some (.ok response) →
        200 ≤ response.status → response.status < 300 →
        (s.run q answers).result = .ok (.affected 1) := by
  have hcondition {c : Text} (hc : Written (comparisonMarks field value) c) :
      IsCondition [] c ∧ Filter.ofCondition c = field ++ (" eq ".toList ++ value.quoted) := by
    refine ⟨isCondition_comparison hfield.1 hvalue hc, ?_⟩
    obtain ⟨l, r, hl, hr, rfl⟩ := exists_comparison hc
    exact Filter.ofCondition_id hfield hl hr hvalue
  have ht : States (change.marks entity ++ Mark.optional ((some ()).map fun _ =>
      Mark.clause ["where".toList] (comparisonMarks field value))) t := ht
  refine ⟨_, ofText_change hchange hentity (fun _ _ _ => hcondition) ht (.inr (by simp)),
    fun answers => ?_⟩
  have hread := Filter.recordId?_id hfield hvalue hid
  have hplan : s.plan (change.query entity (some (field ++ (" eq ".toList ++ value.quoted)))) =
      .ok (.direct (change.mutation.requestFor (s.collectionUrl entity)
        (Filter.withoutBraces value).trim)) := by
    rw [plan_change, planFor_of_recordId hread]
  have hrun := run_of_plan hplan answers
  have hdone := change.mutation.isDoneBy_requestFor s entity (Filter.recordId?_ne_nil hread)
  refine ⟨⟨_, congrArg Exchange.sent hrun, hdone, rfl, rfl, rfl, rfl⟩,
    fun response hanswer hlow hhigh => ?_⟩
  have hsuccess : response.isSuccess = true := by simp [Response.isSuccess, hlow, hhigh]
  refine (congrArg Exchange.result hrun).trans ?_
  simp [MutationPlan.apply, Exchange.map, Execution.send, Execution.outcomeOf, hanswer, hsuccess,
    Except.map]

/-- The ids in these statements have the characters that end a statement and a key in a URL. -/
theorem run_by_id_of_delimiters :
    (∃ q, Query.ofText .strict
        "update t\nSET n = 'x, WHERE y' where TId='\x7ba;b)\x7d' ;".toList = .ok q ∧
      (run ⟨[], defaultVersion⟩ q [.ok ⟨204, [], []⟩]).sent =
        [⟨.patch, "/api/data/v9.2/t(a;b))".toList, [], Request.standardHeaders true,
          some "\x7b\"n\":\"x, WHERE y\"\x7d".toList⟩] ∧
      (run ⟨[], defaultVersion⟩ q [.ok ⟨204, [], []⟩]).result = .ok (.affected 1)) ∧
    ∃ q, Query.ofText .strict "Delete From t\twhere tid = ' a;b) or '".toList = .ok q ∧
      (run ⟨[], defaultVersion⟩ q [.ok ⟨204, [], []⟩]).sent =
        [⟨.delete, "/api/data/v9.2/t(a;b) or)".toList, [], Request.standardHeaders false, none⟩] ∧
      (run ⟨[], defaultVersion⟩ q [.ok ⟨204, [], []⟩]).result = .ok (.affected 1) := by
  constructor
  · have hchange : (Change.set [⟨"n".toList, .text "x, WHERE y".toList⟩]).Valid :=
      ⟨by decide, by decide⟩
    have ht : States ((Change.set [⟨"n".toList, .text "x, WHERE y".toList⟩]).marks "t".toList ++
        Mark.clause ["where".toList] (comparisonMarks "TId".toList "\x7ba;b)\x7d".toList))
        "update t\nSET n = 'x, WHERE y' where TId='\x7ba;b)\x7d' ;".toList :=
      ⟨"update t\nSET n = 'x, WHERE y' where TId='\x7ba;b)\x7d'".toList, by decide +kernel,
        .inr ⟨[' '], by decide, by decide +kernel⟩⟩
    obtain ⟨q, hq, hrun⟩ := run_by_id ⟨[], defaultVersion⟩ hchange (by decide) (by decide)
      (by decide) (by decide) ht .strict
    obtain ⟨⟨r, hsent, ⟨-, hmethod, -⟩, hparams, hendpoint, hheaders, hbody⟩, hresult⟩ :=
      hrun [.ok ⟨204, [], []⟩]
    have hr : r = ⟨r.method, r.endpoint, r.params, r.headers, r.body⟩ := rfl
    refine ⟨q, hq, ?_, hresult ⟨204, [], []⟩ rfl (by decide) (by decide)⟩
    rw [hsent, hr, hmethod, hendpoint, hparams, hheaders, hbody]
    decide +kernel
  · have ht : States ((Change.remove true).marks "t".toList ++
        Mark.clause ["where".toList] (comparisonMarks "tid".toList " a;b) or ".toList))
        "Delete From t\twhere tid = ' a;b) or '".toList :=
      ⟨_, by decide +kernel, .inl rfl⟩
    have hchange : (Change.remove true).Valid := trivial
    obtain ⟨q, hq, hrun⟩ := run_by_id ⟨[], defaultVersion⟩ hchange (by decide) (by decide)
      (by decide) (by decide) ht .strict
    obtain ⟨⟨r, hsent, ⟨-, hmethod, hbody⟩, hparams, hendpoint, hheaders, -⟩, hresult⟩ :=
      hrun [.ok ⟨204, [], []⟩]
    have hr : r = ⟨r.method, r.endpoint, r.params, r.headers, r.body⟩ := rfl
    refine ⟨q, hq, ?_, hresult ⟨204, [], []⟩ rfl (by decide) (by decide)⟩
    rw [hsent, hr, hmethod, hendpoint, hparams, hheaders, hbody]
    decide +kernel

end Service

end EntityQuery
