-- SUMMARY: The text that a query is shown as determines the query, and is read as one JSON value in every form.
import EntityQuery.CommandLine.Command
import EntityQuery.Proofs.Json.Injective
import EntityQuery.Proofs.Request.Body

/-!
# Queries as they are shown

A query is shown as a JSON object with its members in the order of their names.
The text determines every part of the query: what is left out is not there, and
what is there has the kind and the content that it is shown with. Read as JSON,
it is the same value in both layouts and also in the order of the clauses.
-/

namespace EntityQuery

/-! ## Members in the order of their names -/

namespace Json

theorem sortedItems_eq_map (items : List Json) : sortedItems items = items.map sorted := by
  induction items with
  | nil => rfl
  | cons v items ih => rw [sortedItems, ih, List.map_cons]

theorem sortedMembers_eq_map (members : List (Text × Json)) :
    sortedMembers members = members.map fun (name, v) => (name, sorted v) := by
  induction members with
  | nil => rfl
  | cons m members ih => rw [sortedMembers, ih, List.map_cons]

/-- The order of its names makes no difference to the members of an object. -/
theorem member?_sorted (members : List (Text × Json)) (name : Text) :
    (object members).sorted.member? name = (members.reverse.lookup name).map sorted := by
  rw [sorted, member?, Keyed.find?_ofList, sortedMembers_eq_map, ← List.map_reverse, Keyed.lookup_map]

end Json

/-! ## The JSON form of a query can be read -/

open Json (Readable)

namespace Query

theorem readable_optionalMember {depth : Nat} {name : Text} {value : Option Json}
    (h : ∀ v, value = some v → Readable depth v) :
    ∀ m ∈ optionalMember name value, Readable depth m.2 := by
  cases value with
  | none => rintro m ⟨⟩
  | some v => simpa [optionalMember] using h v rfl

/-- The JSON form of a query nests three deep at most. -/
theorem readable_toJson (q : Query) : Readable 127 q.toJson := by
  have hstring (t : Text) (depth : Nat) : Readable depth (.string t) := .string t
  have hfilter : ∀ m ∈ optionalMember "filter".toList (q.filter.map .string), Readable 126 m.2 := by
    refine readable_optionalMember fun v hv => ?_
    obtain ⟨t, -, rfl⟩ := Option.map_eq_some_iff.1 hv
    exact .string t
  refine .object ?_
  cases q with
  | select s =>
    have hfields : Readable 126 (.array (s.fields.map .string)) := by
      refine .array fun v hv => ?_
      obtain ⟨t, -, rfl⟩ := List.mem_map.1 hv
      exact .string t
    have horder : ∀ m ∈ optionalMember "order_by".toList
        (s.orderBy.map fun os => .array (os.map orderJson)), Readable 126 m.2 := by
      refine readable_optionalMember fun v hv => ?_
      obtain ⟨os, -, rfl⟩ := Option.map_eq_some_iff.1 hv
      refine .array fun v hv => ?_
      obtain ⟨o, -, rfl⟩ := List.mem_map.1 hv
      exact .object (by simp [hstring])
    have hlimit : ∀ m ∈ optionalMember "limit".toList (s.limit.map fun n => .int n.toNat),
        Readable 126 m.2 := by
      refine readable_optionalMember fun v hv => ?_
      obtain ⟨n, -, rfl⟩ := Option.map_eq_some_iff.1 hv
      have hlt := n.toNat_lt
      exact .int (by omega) (by omega)
    simp only [List.forall_mem_append, List.forall_mem_cons, List.not_mem_nil, false_imp_iff,
      implies_true, and_true]
    exact ⟨⟨hstring _ _, hstring _ _⟩, ⟨⟨hfields, hfilter⟩, horder⟩, hlimit⟩
  | insert i => simp [hstring, i.values.readable_toJson 125]
  | update u =>
    simp only [List.forall_mem_append, List.forall_mem_cons, List.not_mem_nil, false_imp_iff,
      implies_true, and_true]
    exact ⟨⟨hstring _ _, hstring _ _⟩, u.values.readable_toJson 125, hfilter⟩
  | delete d =>
    simp only [List.forall_mem_append, List.forall_mem_cons, List.not_mem_nil, false_imp_iff,
      implies_true, and_true]
    exact ⟨⟨hstring _ _, hstring _ _⟩, hfilter⟩

/-! ## The members of the JSON form -/

/-- A member of the JSON form of a query. -/
def jsonMember? (name : Text) (q : Query) : Option Json :=
  q.toJson.sorted.member? name

theorem jsonMember?_spec (q : Query) :
    q.jsonMember? "operation".toList = some (.string q.operation.word) ∧
      q.jsonMember? "entity".toList = some (.string q.entity) ∧
      q.jsonMember? "filter".toList = q.filter.map .string := by
  unfold jsonMember? toJson
  dsimp only
  rw [Json.member?_sorted, Json.member?_sorted, Json.member?_sorted]
  obtain ⟨entity, fields, _ | filter, _ | order, _ | limit⟩ | i | ⟨entity, values, _ | filter⟩ |
    ⟨entity, _ | filter⟩ := q <;> exact ⟨rfl, rfl, rfl⟩

theorem jsonMember?_select (s : Select) :
    (select s).jsonMember? "fields".toList = some (.array (Json.sortedItems (s.fields.map .string))) ∧
      (select s).jsonMember? "order_by".toList =
        s.orderBy.map (fun os => .array (Json.sortedItems (os.map orderJson))) ∧
      (select s).jsonMember? "limit".toList = s.limit.map fun n => .int n.toNat := by
  unfold jsonMember? toJson
  dsimp only
  rw [Json.member?_sorted, Json.member?_sorted, Json.member?_sorted]
  obtain ⟨entity, fields, _ | filter, _ | order, _ | limit⟩ := s <;> exact ⟨rfl, rfl, rfl⟩

/-- The columns of a query that gives columns values. -/
def values? : Query → Option Assignments
  | insert i => some i.values
  | update u => some u.values
  | _ => none

theorem jsonMember?_values (q : Query) :
    q.jsonMember? "values".toList = q.values?.map fun values => values.toJson.sorted := by
  unfold jsonMember? toJson
  dsimp only
  rw [Json.member?_sorted]
  obtain ⟨entity, fields, _ | filter, _ | order, _ | limit⟩ | i | ⟨entity, values, _ | filter⟩ |
    ⟨entity, _ | filter⟩ := q <;> rfl

end Query

/-! ## What the members tell -/

/-- Whether the doubles of a query are finite. -/
def Query.isFinite : Query → Bool
  | insert i => i.values.isFinite
  | update u => u.values.isFinite
  | _ => true

/-- The JSON form of a value tells its kind and its content. -/
theorem Value.toJson_inj {v w : Value} (hv : v.isFinite = true) (hw : w.isFinite = true)
    (h : v.toJson = w.toJson) : v = w := by
  have hfloat {x : Float} (hx : (Value.float x).isFinite = true) : (Value.float x).toJson = .float x :=
    if_pos hx
  cases v with
  | float x =>
    rw [hfloat hv] at h
    cases w with
    | float y =>
      rw [hfloat hw] at h
      cases h
      rfl
    | _ => cases h
  | integer n =>
    cases w with
    | float y =>
      rw [hfloat hw] at h
      cases h
    | integer m => rw [Int64.toInt_inj.1 (Json.int.inj h)]
    | _ => cases h
  | _ =>
    cases w with
    | float y =>
      rw [hfloat hw] at h
      cases h
    | _ => cases h <;> rfl

theorem Value.sorted_toJson (v : Value) : v.toJson.sorted = v.toJson := by
  cases v with
  | float x =>
    rw [toJson]
    split <;> rfl
  | _ => rfl

/-- The columns are in order already. -/
theorem Assignments.sorted_toJson (values : Assignments) : values.toJson.sorted = values.toJson := by
  have hmembers : Json.sortedMembers values.members = values.members := by
    rw [Json.sortedMembers_eq_map, members, List.map_map]
    exact List.map_congr_left fun entry _ => Prod.ext rfl (Value.sorted_toJson entry.2)
  rw [toJson, Json.sorted, ← members, hmembers, Keyed.ofList_of_sorted values.sorted_members]

theorem Assignments.toJson_inj {a b : Assignments} (ha : a.isFinite = true) (hb : b.isFinite = true)
    (h : a.toJson = b.toJson) : a = b := by
  have hmembers : a.members = b.members := Json.object.inj h
  apply ext_entries
  unfold members at hmembers
  rw [isFinite, List.all_eq_true] at ha hb
  generalize a.entries = entries at ha hmembers ⊢
  generalize b.entries = others at hb hmembers ⊢
  induction entries generalizing others with
  | nil => exact (List.map_eq_nil_iff.1 hmembers.symm).symm
  | cons entry entries ih =>
    cases others with
    | nil => cases hmembers
    | cons other others =>
      obtain ⟨hfirst, hrest⟩ := List.cons.inj hmembers
      obtain ⟨hentry, ha⟩ := List.forall_mem_cons.1 ha
      obtain ⟨hother, hb⟩ := List.forall_mem_cons.1 hb
      obtain ⟨hname, hvalue⟩ := Prod.mk.inj hfirst
      rw [Prod.ext hname (Value.toJson_inj hentry hother hvalue), ih ha others hb hrest]

theorem Operation.word_inj {o p : Operation} (h : o.word = p.word) : o = p := by
  revert h
  cases o <;> cases p <;> decide

theorem Direction.word_inj {d e : Direction} (h : d.word = e.word) : d = e := by
  revert h
  cases d <;> cases e <;> decide

namespace Query

theorem sorted_orderJson_injective : Function.Injective fun o => (orderJson o).sorted := by
  rintro ⟨field, direction⟩ ⟨field', direction'⟩ h
  have hmembers : [("direction".toList, Json.string direction.word), ("field".toList, Json.string field)] =
      [("direction".toList, Json.string direction'.word), ("field".toList, Json.string field')] :=
    Json.object.inj h
  simp only [List.cons.injEq, Prod.mk.injEq, Json.string.injEq, true_and, and_true] at hmembers
  rw [Direction.word_inj hmembers.1, hmembers.2]

theorem jsonMember?_congr {p q : Query} (h : p.toJson.sorted = q.toJson.sorted) (name : Text) :
    p.jsonMember? name = q.jsonMember? name :=
  congrArg (Json.member? name) h

/-- The parts that queries of every kind have. -/
theorem parts_eq_of_sorted_toJson {p q : Query} (h : p.toJson.sorted = q.toJson.sorted) :
    p.operation = q.operation ∧ p.entity = q.entity ∧ p.filter = q.filter := by
  obtain ⟨hoperation, hentity, hfilter⟩ := jsonMember?_spec p
  obtain ⟨hoperation', hentity', hfilter'⟩ := jsonMember?_spec q
  rw [jsonMember?_congr h, hoperation'] at hoperation
  rw [jsonMember?_congr h, hentity'] at hentity
  rw [jsonMember?_congr h, hfilter'] at hfilter
  exact ⟨(Operation.word_inj (Json.string.inj (Option.some.inj hoperation))).symm,
    (Json.string.inj (Option.some.inj hentity)).symm,
    (Option.map_injective (fun _ _ => Json.string.inj) hfilter).symm⟩

/-- The parts of a selection alone: the fields in their order, and the order and the limit if there are
    any. -/
theorem select_parts_eq_of_sorted_toJson {s t : Select}
    (h : (select s).toJson.sorted = (select t).toJson.sorted) :
    s.fields = t.fields ∧ s.orderBy = t.orderBy ∧ s.limit = t.limit := by
  obtain ⟨hfields, horder, hlimit⟩ := jsonMember?_select s
  obtain ⟨hfields', horder', hlimit'⟩ := jsonMember?_select t
  rw [jsonMember?_congr h, hfields', Json.sortedItems_eq_map, Json.sortedItems_eq_map, List.map_map,
    List.map_map] at hfields
  rw [jsonMember?_congr h, horder'] at horder
  rw [jsonMember?_congr h, hlimit'] at hlimit
  refine ⟨?_, ?_, ?_⟩
  · have hstring : Function.Injective (Json.sorted ∘ Json.string) := fun _ _ => Json.string.inj
    exact (List.map_injective_iff.2 hstring (Json.array.inj (Option.some.inj hfields))).symm
  · have hitems : Function.Injective
        fun os => Json.array (Json.sortedItems (List.map orderJson os)) := by
      intro os os' heq
      have hmap := Json.array.inj heq
      rw [Json.sortedItems_eq_map, Json.sortedItems_eq_map, List.map_map, List.map_map] at hmap
      exact List.map_injective_iff.2 sorted_orderJson_injective hmap
    exact (Option.map_injective hitems horder).symm
  · have hcount : Function.Injective fun n : UInt64 => Json.int n.toNat := by
      intro n n' heq
      have hnat : n.toNat = n'.toNat := by
        have := Json.int.inj heq
        omega
      exact UInt64.toNat_inj.1 hnat
    exact (Option.map_injective hcount hlimit).symm

theorem isFinite_of_mem_values? {q : Query} (h : q.isFinite = true) {values : Assignments}
    (hvalues : q.values? = some values) : values.isFinite = true := by
  cases q with
  | insert i => exact Option.some.inj hvalues ▸ h
  | update u => exact Option.some.inj hvalues ▸ h
  | _ => cases hvalues

/-- The columns, if there are any. -/
theorem values_eq_of_sorted_toJson {p q : Query} (hp : p.isFinite = true) (hq : q.isFinite = true)
    (h : p.toJson.sorted = q.toJson.sorted) : p.values? = q.values? := by
  have hvalues := jsonMember?_values p
  rw [jsonMember?_congr h, jsonMember?_values q] at hvalues
  cases hleft : p.values? with
  | none =>
    rw [hleft] at hvalues
    exact (Option.map_eq_none_iff.1 hvalues).symm
  | some left =>
    rw [hleft] at hvalues
    obtain ⟨right, hright, heq⟩ := Option.map_eq_some_iff.1 hvalues
    simp only [Assignments.sorted_toJson] at heq
    rw [hright, Assignments.toJson_inj (isFinite_of_mem_values? hp hleft)
      (isFinite_of_mem_values? hq hright) heq.symm]

/-- The JSON form of a query tells the query. -/
theorem sorted_toJson_inj {p q : Query} (hp : p.isFinite = true) (hq : q.isFinite = true)
    (h : p.toJson.sorted = q.toJson.sorted) : p = q := by
  obtain ⟨hoperation, hentity, hfilter⟩ := parts_eq_of_sorted_toJson h
  have hvalues := values_eq_of_sorted_toJson hp hq h
  cases p with
  | select s =>
    cases q with
    | select t =>
      obtain ⟨hfields, horder, hlimit⟩ := select_parts_eq_of_sorted_toJson h
      obtain ⟨entity, fields, filter, orderBy, limit⟩ := s
      cases t
      cases hentity
      cases hfilter
      cases hfields
      cases horder
      cases hlimit
      rfl
    | _ => cases hoperation
  | insert i =>
    cases q with
    | insert j =>
      obtain ⟨entity, values⟩ := i
      cases j
      cases hentity
      cases hvalues
      rfl
    | _ => cases hoperation
  | update u =>
    cases q with
    | update w =>
      obtain ⟨entity, values, filter⟩ := u
      cases w
      cases hentity
      cases hvalues
      cases hfilter
      rfl
    | _ => cases hoperation
  | delete d =>
    cases q with
    | delete e =>
      obtain ⟨entity, filter⟩ := d
      cases e
      cases hentity
      cases hfilter
      rfl
    | _ => cases hoperation

/-! ## Queries as they are shown -/

/-- The text that a query is shown as. -/
def shown (layout : Json.Layout) (q : Query) : Text :=
  q.toJson.sorted.textIn layout

theorem shown_inj {layout : Json.Layout} {p q : Query} (hp : p.isFinite = true) (hq : q.isFinite = true)
    (h : p.shown layout = q.shown layout) : p = q :=
  sorted_toJson_inj hp hq (Json.textIn_inj (.sorted _ p.readable_toJson) (.sorted _ q.readable_toJson) h)

theorem ofText?_shown (layout : Json.Layout) (q : Query) :
    Json.ofText? (q.shown layout) = some q.toJson.reread := by
  rw [shown, Json.ofText?_textIn (.sorted _ q.readable_toJson), Json.reread_sorted]

/-- The text that a query is shown as determines the query, if its doubles are finite, and all its forms
    are read as one JSON value: both layouts, with the members in the order of their names or in that of
    the clauses. -/
theorem shown_determines :
    (∀ layout checks statement, CommandLine.showQuery layout checks statement =
      (CommandLine.queryOf checks statement).map (shown layout)) ∧
    (∀ (layout : Json.Layout) (p q : Query), p.isFinite = true → q.isFinite = true →
      p.shown layout = q.shown layout → p = q) ∧
    ∀ (q : Query) (layout : Json.Layout), Json.ofText? (q.shown layout) = some q.toJson.reread ∧
      Json.ofText? (q.toJson.textIn layout) = some q.toJson.reread := by
  refine ⟨fun layout checks statement => ?_, fun _ _ _ => shown_inj, fun q layout =>
    ⟨ofText?_shown layout q, Json.ofText?_textIn q.readable_toJson layout⟩⟩
  rw [CommandLine.showQuery]
  cases CommandLine.queryOf checks statement <;> rfl

/-- An update that gives columns their values one after the other. -/
def ofColumns (columns : List (Text × Value)) : Query :=
  .update ⟨['t'], .ofList columns, none⟩

/-- Columns in two orders, with the least and the largest double, the negative zero, and strings that
    look like other values. -/
theorem shown_determines_of_columns :
    let columns : List (Text × Value) := [("b".toList, .float 1.7976931348623157e308),
      ("a\"".toList, .string "null".toList), ("a".toList, .null), ("c".toList, .float (-0.0)),
      ("d".toList, .float 5e-324), ("\\".toList, .integer (-9223372036854775808))]
    (ofColumns columns).isFinite = true ∧ (ofColumns columns.reverse).isFinite = true ∧
      (ofColumns columns).shown .lines = (ofColumns columns.reverse).shown .lines ∧
      ofColumns columns = ofColumns columns.reverse ∧
      Json.ofText? ((ofColumns columns).shown .lines) = some (ofColumns columns).toJson.reread := by
  intro columns
  have hfinite : (ofColumns columns).isFinite = true := by decide +kernel
  have hfinite' : (ofColumns columns.reverse).isFinite = true := by decide +kernel
  have hshown : (ofColumns columns).shown .lines = (ofColumns columns.reverse).shown .lines := by
    decide +kernel
  exact ⟨hfinite, hfinite', hshown, shown_determines.2.1 _ _ _ hfinite hfinite' hshown,
    (shown_determines.2.2 _ _).1⟩

end Query

end EntityQuery
