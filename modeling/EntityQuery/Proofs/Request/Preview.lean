-- SUMMARY: The lookup of a bulk mutation is the request of the SELECT statement that shows the same records.
import EntityQuery.Proofs.Execution.ById
import EntityQuery.Proofs.Statement.Select

/-!
# Previews of bulk mutations

Before records are changed or deleted they can be looked at: a SELECT statement
with the same condition shows the ids of the records that a statement is about
to reach. The two statements have the same filter, and the lookup that a bulk
plan starts with is the request for the preview.
-/

namespace EntityQuery

namespace Statement

/-- The selection of the ids of the records of an entity that a condition selects. -/
def preview (entity condition : Text) : Selection where
  fields := [entity ++ "id".toList]
  entity := entity
  condition := some condition

/-- The key field of an entity is a field that can be selected. -/
theorem isIdentifier_keyFieldOf {entity : Text} (h : entity.isIdentifier = true) :
    (keyFieldOf entity).isIdentifier = true := by
  cases entity with
  | nil => cases h
  | cons c entity =>
    obtain ⟨hc, hall⟩ := Bool.and_eq_true_iff.1 h
    have hkey : ((c :: entity) ++ ['i', 'd']).all isIdentifierChar = true := by
      rw [List.all_append, hall]
      rfl
    exact Bool.and_eq_true_iff.2 ⟨hc, hkey⟩

theorem keyFieldOf_not_from (entity : Text) :
    (keyFieldOf entity).sameWord "from".toList = false := by
  rw [Text.sameWord, beq_eq_false_iff_ne]
  intro h
  have hlast := congrArg List.getLast? h
  simp [keyFieldOf, Text.lower] at hlast

variable {entity condition : Text}

theorem preview_valid (hentity : entity.IsEntityName)
    (hcondition : IsCondition ["order".toList, "limit".toList] condition) :
    (preview entity condition).Valid where
  fields := .inr ⟨List.cons_ne_nil _ _, by
    simpa [preview] using ⟨isIdentifier_keyFieldOf hentity.1, keyFieldOf_not_from entity⟩⟩
  entity := hentity
  condition := by simpa [preview] using hcondition
  order := by simp [preview]

/-- A condition that some words would end is a condition also where they would not. -/
theorem IsCondition.mono {stops fewer : List Text} {c : Text} (h : IsCondition stops c)
    (hsub : fewer ⊆ stops) : IsCondition fewer c :=
  { h with words := fun w hw stop hstop => h.words w hw stop (hsub hstop) }

end Statement

open Statement

namespace Service

variable {change : Change} {entity condition : Text}

theorem eq_of_plan_bulk {s : Service} {filter : Text} {p : BulkPlan}
    (h : s.plan (change.query entity (some filter)) = .ok (.bulk p)) :
    p = ⟨change.mutation, s.collectionUrl entity, keyFieldOf entity,
      s.read (lookupQuery entity filter)⟩ := by
  rw [plan_change] at h
  exact eq_of_planFor_bulk (Except.ok.inj h)

theorem exists_of_plan_direct {s : Service} {filter : Text} {r : Request}
    (h : s.plan (change.query entity (some filter)) = .ok (.direct r)) :
    ∃ id, r = change.mutation.requestFor (s.collectionUrl entity) id := by
  rw [plan_change] at h
  obtain ⟨id, -, hr⟩ := exists_of_planFor_direct (Except.ok.inj h)
  exact ⟨id, hr⟩

/-- A statement that changes or deletes records and the SELECT statement for their ids have the same
    filter. If the records have to be looked up, the lookup is the request for that SELECT
    statement, and a record that is found gets the request that it would get if the filter named
    it. -/
theorem lookup_eq_preview (s : Service) (hchange : change.Valid) (hentity : entity.IsEntityName)
    (hcondition : IsCondition ["order".toList, "limit".toList] condition) {t shown : Text}
    (ht : States (change.marks entity ++ Mark.clause ["where".toList] [.text condition]) t)
    (hshown : States (preview entity condition).marks shown) (checks : Checks) :
    ∃ q selection, Query.ofText checks t = .ok q ∧
      Query.ofText checks shown = .ok (.select selection) ∧
      q = change.query entity selection.filter ∧ selection = (preview entity condition).query ∧
      ∀ p, s.plan q = .ok (.bulk p) →
        s.request (.select selection) = .ok p.lookup ∧ p.keyField = entity ++ "id".toList ∧
        ∀ named direct, s.plan (change.query entity (some named)) = .ok (.direct direct) →
          ∀ id, p.requestFor id =
            { direct with endpoint := recordUrl (s.collectionUrl entity) id } := by
  have hmarks : ∀ b ∈ some condition, ∀ c, Written [.text b] c →
      IsCondition [] c ∧ Filter.ofCondition c = Filter.ofCondition b := by
    intro b hb c hc
    obtain rfl := written_text.1 hc
    cases hb
    exact ⟨hcondition.mono (List.nil_subset _), rfl⟩
  obtain ⟨statement, hstatement, hword, hread⟩ :=
    (preview_valid hentity hcondition).exists_statement hshown
  refine ⟨_, _, ofText_change hchange hentity hmarks ht (.inr (by simp)),
    ofText_of_readSelect hstatement hword hread, rfl, rfl, fun p hp => ?_⟩
  obtain rfl := eq_of_plan_bulk hp
  refine ⟨rfl, rfl, fun named direct hdirect id => ?_⟩
  obtain ⟨other, rfl⟩ := exists_of_plan_direct hdirect
  rfl

/-- The condition of this statement has in its literal what would end it, and outside a word that
    ends assignments. -/
theorem lookup_eq_preview_of_keywords :
    ∃ q selection, Query.ofText .strict
        "update t SET n = 'x, WHERE' where a='; LIMIT 1' AND Where > 2;".toList = .ok q ∧
      Query.ofText .strict "SELECT tid FROM t WHERE a='; LIMIT 1' AND Where > 2".toList =
        .ok (.select selection) ∧ q.filter = selection.filter ∧
      ∃ p, plan ⟨[], defaultVersion⟩ q = .ok (.bulk p) ∧
        request ⟨[], defaultVersion⟩ (.select selection) = .ok p.lookup ∧
        p.keyField = "tid".toList ∧
        ∀ id, p.requestFor id = Request.make .patch ("/api/data/v9.2/t(".toList ++ id ++ [')']) []
          (some "\x7b\"n\":\"x, WHERE\"\x7d".toList) := by
  have hchange : (Change.set [⟨"n".toList, .text "x, WHERE".toList⟩]).Valid :=
    ⟨by simp, by decide⟩
  have hentity : Text.IsEntityName "t".toList := by decide
  have hcondition : IsCondition ["order".toList, "limit".toList]
      "a='; LIMIT 1' AND Where > 2".toList := by
    decide +kernel
  have ht : States ((Change.set [⟨"n".toList, .text "x, WHERE".toList⟩]).marks "t".toList ++
      Mark.clause ["where".toList] [.text "a='; LIMIT 1' AND Where > 2".toList])
      "update t SET n = 'x, WHERE' where a='; LIMIT 1' AND Where > 2;".toList :=
    ⟨"update t SET n = 'x, WHERE' where a='; LIMIT 1' AND Where > 2".toList, by decide +kernel,
      .inr ⟨[], by decide, by decide +kernel⟩⟩
  have hshown : States (preview "t".toList "a='; LIMIT 1' AND Where > 2".toList).marks
      "SELECT tid FROM t WHERE a='; LIMIT 1' AND Where > 2".toList :=
    ⟨"SELECT tid FROM t WHERE a='; LIMIT 1' AND Where > 2".toList, by decide +kernel,
      .inl (by decide +kernel)⟩
  obtain ⟨q, selection, hread, hselection, rfl, rfl, hplan⟩ :=
    lookup_eq_preview ⟨[], defaultVersion⟩ hchange hentity hcondition ht hshown .strict
  have hbulk : ∃ p, plan ⟨[], defaultVersion⟩
      ((Change.set [⟨"n".toList, .text "x, WHERE".toList⟩]).query "t".toList
        (some "a eq '; LIMIT 1' and Where gt 2".toList)) = .ok (.bulk p) :=
    ⟨_, plan_change _ _ |>.trans (congrArg Except.ok (planFor_of_not_recordId (by decide +kernel)))⟩
  have hnamed : plan ⟨[], defaultVersion⟩
      ((Change.set [⟨"n".toList, .text "x, WHERE".toList⟩]).query "t".toList
        (some "tid eq '1'".toList)) = .ok (.direct (Request.make .patch
          "/api/data/v9.2/t(1)".toList [] (some "\x7b\"n\":\"x, WHERE\"\x7d".toList))) := by
    decide +kernel
  have hfilter : (preview "t".toList "a='; LIMIT 1' AND Where > 2".toList).query.filter =
      some "a eq '; LIMIT 1' and Where gt 2".toList := by
    decide +kernel
  obtain ⟨p, hp⟩ := hfilter ▸ hbulk
  obtain ⟨hlookup, hkey, hdirect⟩ := hplan p hp
  refine ⟨_, _, hread, hselection, Change.filter_query _ _ _, p, hp, hlookup, hkey, fun id => ?_⟩
  rw [hdirect _ _ hnamed id]
  simp [Request.make, recordUrl, collectionUrl, defaultVersion]

end Service

end EntityQuery
