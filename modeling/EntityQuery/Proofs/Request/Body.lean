-- SUMMARY: The body of a request is read back as the values that it was written from.
import EntityQuery.Proofs.Json.RoundTrip
import EntityQuery.Proofs.Request.Plan
import EntityQuery.Proofs.Keyed
import EntityQuery.Request.Display

/-!
# Bodies of requests

A body is a JSON object with a member for every column, whatever characters the
columns and the values have. The text of a double is not always read as the same
double, so what stands for a double in a body is its text. Without doubles the
body is read back as the values, and a request that is shown as JSON shows the
object and not its text.
-/

namespace EntityQuery

/-! ## The JSON form of values -/

/-- A value and the JSON value with the same content. -/
inductive Value.IsJson : Value → Json → Prop
  | null : IsJson .null .null
  | boolean (b : Bool) : IsJson (.boolean b) (.bool b)
  | integer (n : Int64) : IsJson (.integer n) (.int n.toInt)
  | string (s : Text) : IsJson (.string s) (.string s)

/-- No column has a double. -/
def Assignments.NoFloats (values : Assignments) : Prop :=
  ∀ entry ∈ values.entries, ∀ x, entry.2 ≠ .float x

theorem Value.isJson_toJson {v : Value} (h : ∀ x, v ≠ .float x) : v.IsJson v.toJson := by
  cases v with
  | null => exact .null
  | boolean b => exact .boolean b
  | integer n => exact .integer n
  | float x => exact absurd rfl (h x)
  | string s => exact .string s

theorem Value.readable_toJson (v : Value) (depth : Nat) : Json.Readable depth v.toJson := by
  cases v with
  | null => exact .null
  | boolean b => exact .bool b
  | integer n =>
    have hmin := n.le_toInt
    have hmax := n.toInt_lt
    exact .int hmin (by omega)
  | float x =>
    rw [toJson]
    split
    · next hx => exact .float hx
    · exact .null
  | string s => exact .string s

theorem Value.IsJson.reread_eq {v : Value} {j : Json} (h : v.IsJson j) : j.reread = j := by
  cases h <;> rfl

namespace Assignments

variable {values : Assignments}

/-- The members of the JSON object with a member for every column. -/
def members (values : Assignments) : Keyed Json :=
  values.entries.map fun (column, value) => (column, value.toJson)

theorem related_members (h : values.NoFloats) :
    List.Forall₂ (Keyed.Related Value.IsJson) values.entries values.members := by
  unfold members
  generalize hentries : values.entries = entries
  rw [NoFloats, hentries] at h
  clear hentries
  induction entries with
  | nil => exact .nil
  | cons entry entries ih =>
    obtain ⟨hentry, hrest⟩ := List.forall_mem_cons.1 h
    exact .cons ⟨rfl, Value.isJson_toJson hentry⟩ (ih hrest)

theorem sorted_members (values : Assignments) : values.members.Sorted :=
  Keyed.sorted_map _ values.sorted

theorem rereadMembers_eq {entries : Keyed Value} {members : Keyed Json}
    (h : List.Forall₂ (Keyed.Related Value.IsJson) entries members) :
    Json.rereadMembers members = members := by
  induction h with
  | nil => rfl
  | @cons entry m _ _ hm _ ih =>
    obtain ⟨name, j⟩ := m
    rw [Json.rereadMembers, Value.IsJson.reread_eq hm.2, ih]

theorem readable_members (values : Assignments) (depth : Nat) :
    ∀ m ∈ values.members, Json.Readable depth m.2 := by
  intro m hm
  obtain ⟨entry, -, rfl⟩ := List.mem_map.1 hm
  exact entry.2.readable_toJson depth

theorem readable_toJson (values : Assignments) (depth : Nat) :
    Json.Readable (depth + 1) values.toJson :=
  .object (values.readable_members depth)

/-- A body is read back as the object of what its members are read as. -/
theorem ofText?_bodyOf_eq (values : Assignments) :
    Json.ofText? (bodyOf values) = some (.object (Json.rereadMembers values.members)) := by
  have hreread : values.toJson.reread = .object (Json.rereadMembers values.members) := by
    rw [toJson, Json.reread, ← members, Json.rereadMembers_eq_map,
      Keyed.ofList_of_sorted (Keyed.sorted_map _ values.sorted_members)]
  rw [bodyOf, Json.text, Json.ofText?_textIn (values.readable_toJson 126), hreread]

/-- The body that writes values without doubles is read back as their JSON object. -/
theorem ofText?_bodyOf (h : values.NoFloats) :
    Json.ofText? (bodyOf values) = some (.object values.members) := by
  rw [ofText?_bodyOf_eq, rereadMembers_eq (related_members h)]

end Assignments

/-! ## What a body encodes -/

/-- Whether a member of a body stands for a value, by its text and by what that is read as. A double
    that is not finite has no JSON form; null stands for it. -/
inductive Value.WrittenAs : Value → Text × Json → Prop
  | null {t : Text} : WrittenAs .null (t, .null)
  | boolean {t : Text} (b : Bool) : WrittenAs (.boolean b) (t, .bool b)
  | integer {t : Text} (n : Int64) : WrittenAs (.integer n) (t, .int n.toInt)
  | float {t : Text} {n : Json.NumberParts} {x y : Float} : x.isFinite = true → n.StandsFor x →
      t = n.text → WrittenAs (.float x) (t, .float y)
  | notFinite {t : Text} {x : Float} : x.isFinite = false → WrittenAs (.float x) (t, .null)
  | string {t : Text} (s : Text) : WrittenAs (.string s) (t, .string s)

theorem Value.writtenAs_toJson (v : Value) (layout : Json.Layout) (k : Nat) :
    v.WrittenAs (v.toJson.textAt layout k, v.toJson.reread) := by
  cases v with
  | null => exact .null
  | boolean b => exact .boolean b
  | integer n => exact .integer n
  | float x =>
    by_cases hx : x.isFinite = true
    · obtain ⟨y, hy⟩ := Json.exists_value?_floatParts hx
      have htext : (Json.float x).textAt layout k = (Json.floatParts x).text :=
        (Json.text_floatParts hx).symm
      have hread : (Json.float x).reread = .float y := by rw [Json.reread, hy, Option.getD_some]
      rw [toJson, if_pos hx, htext, hread]
      exact .float hx (Json.standsFor_floatParts hx) rfl
    · rw [toJson, if_neg hx]
      exact .notFinite (Bool.eq_false_iff.2 hx)
  | string s => exact .string s

/-- Whether a value is no double or a finite one. -/
def Value.isFinite : Value → Bool
  | float x => x.isFinite
  | _ => true

/-- Whether the doubles in the columns are finite. -/
def Assignments.isFinite (values : Assignments) : Bool :=
  values.entries.all fun entry => entry.2.isFinite

/-- A member stands for one value only, but for the doubles that are not finite. -/
theorem Value.WrittenAs.eq {v w : Value} {m : Text × Json} (h : v.WrittenAs m) (hw : w.WrittenAs m)
    (hfinite : v.isFinite = true) (hfinite' : w.isFinite = true) : v = w := by
  cases h with
  | null =>
    cases hw with
    | null => rfl
    | notFinite hx => exact absurd hfinite' (Bool.eq_false_iff.1 hx)
  | boolean b =>
    cases hw
    rfl
  | integer n =>
    generalize hn : Json.int n.toInt = j at hw
    cases hw with
    | integer k => rw [Int64.toInt_inj.1 (Json.int.inj hn)]
    | _ => cases hn
  | float hx hn ht =>
    cases hw with
    | float hy hk ht' =>
      have hparts := Json.NumberParts.text_append_inj hn.written hk.written
        Json.endsNumber_nil Json.endsNumber_nil (by rw [← ht, ← ht'])
      rw [hn.eq (hparts.1 ▸ hk)]
  | notFinite hx => exact absurd hfinite (Bool.eq_false_iff.1 hx)
  | string s =>
    cases hw
    rfl

/-- Whether a text is that of a JSON object with a member for every column of some values and no
    others. Each member has the name of its column and stands for its value, and the text is read
    as the object with these members. -/
def Assignments.EncodedBy (values : Assignments) (body : Text) : Prop :=
  ∃ members, Json.HasMembers body members ∧
    Json.ofText? body = some (.object (Json.namedValues members)) ∧
    List.Forall₂ (Keyed.Related Value.WrittenAs) values.entries members

/-- The body that writes values encodes them, doubles included. -/
theorem Assignments.encodedBy_bodyOf (values : Assignments) : values.EncodedBy (bodyOf values) := by
  have hmembers : Json.HasMembers (bodyOf values) (Json.printedMembers .compact 1 values.members) :=
    Json.hasMembers_textIn (values.readable_members 126) .compact
  refine ⟨_, hmembers, ?_, ?_⟩
  · rw [ofText?_bodyOf_eq, Json.namedValues_printedMembers]
  · rw [Json.printedMembers, members, List.map_map, List.forall₂_map_right_iff, List.forall₂_same]
    exact fun entry _ => ⟨rfl, entry.2.writtenAs_toJson .compact 1⟩

/-- Of all values whose doubles are finite, a body encodes those of one query only. -/
theorem Assignments.EncodedBy.eq {values other : Assignments} {body : Text}
    (h : values.EncodedBy body) (hother : other.EncodedBy body) (hfinite : values.isFinite = true)
    (hfinite' : other.isFinite = true) : values = other := by
  obtain ⟨members, hmembers, -, hvalues⟩ := h
  obtain ⟨members', hmembers', -, hothers⟩ := hother
  obtain rfl := hmembers.unique hmembers'
  refine ext_entries ?_
  rw [isFinite, List.all_eq_true] at hfinite hfinite'
  generalize values.entries = entries at hvalues hfinite
  generalize other.entries = others at hothers hfinite'
  clear hmembers hmembers'
  induction hvalues generalizing others with
  | nil =>
    cases hothers
    rfl
  | @cons entry m _ _ hentry _ ih =>
    cases hothers with
    | @cons entry' _ _ _ hentry' hrest' =>
      obtain ⟨hx, hxs⟩ := List.forall_mem_cons.1 hfinite
      obtain ⟨hy, hys⟩ := List.forall_mem_cons.1 hfinite'
      have hvalue := hentry.2.eq hentry'.2 hx hy
      rw [Prod.ext (hentry.1.trans hentry'.1.symm) hvalue, ih hxs _ hrest' hys]

/-! ## Requests that carry values -/

/-- A request has a body that is read as the JSON object of some values, with the columns of the
    values and no others. Shown as JSON, the request has that object as its body. -/
def Request.Carries (values : Assignments) (r : Request) : Prop :=
  ∃ body members, r.body = some body ∧ Json.ofText? body = some (.object members) ∧
    List.Forall₂ (Keyed.Related Value.IsJson) values.entries members ∧
    ∀ encoded, (r.toJson encoded).member? "body".toList = some (.object members)

theorem Request.carries_of_body {values : Assignments} (h : values.NoFloats) {r : Request}
    (hbody : r.body = some (bodyOf values)) : r.Carries values := by
  have hread := Assignments.ofText?_bodyOf h
  refine ⟨bodyOf values, values.members, hbody, hread, Assignments.related_members h,
    fun encoded => ?_⟩
  simp [Request.toJson, hbody, Request.bodyJson, hread, Json.member?, Keyed.find?]

/-- Every request that creates or changes a record carries the values of its query: the request of
    an insertion, the request of an update whose filter names the record, and each of the requests
    of a bulk plan, which is what any other filter leads to. -/
theorem Service.requests_carry_values (s : Service) {values : Assignments} (h : values.NoFloats)
    (entity : Text) :
    (∃ r, s.request (.insert ⟨entity, values⟩) = .ok r ∧ r.Carries values) ∧
    (∀ filter id, Filter.recordId? filter = some id →
      ∃ r, s.request (.update ⟨entity, values, some filter⟩) = .ok r ∧ r.Carries values) ∧
    (∀ filter, Filter.recordId? filter = none →
      ∃ p, s.plan (.update ⟨entity, values, some filter⟩) = .ok (.bulk p) ∧
        ∀ id, (p.requestFor id).Carries values) := by
  refine ⟨⟨_, rfl, Request.carries_of_body h rfl⟩, ?_, ?_⟩
  · intro filter id hid
    have hplan : s.plan (.update ⟨entity, values, some filter⟩) =
        .ok (.direct ((Mutation.change values).requestFor (s.collectionUrl entity) id)) :=
      congrArg Except.ok (planFor_of_recordId hid)
    refine ⟨(Mutation.change values).requestFor (s.collectionUrl entity) id, ?_,
      Request.carries_of_body h rfl⟩
    simp [request, hplan]
  · intro filter hid
    exact ⟨_, congrArg Except.ok (planFor_of_not_recordId hid),
      fun id => Request.carries_of_body h rfl⟩

/-- Values whose columns and strings have quotation marks, backslashes, control characters and
    characters beyond ASCII, and the least integer. -/
def Assignments.awkward : Assignments where
  entries := [([], .null), (['\x00', '"', '\n'], .string ['\x1f', '\\', 'u', '"']),
    (['\\'], .integer (-9223372036854775808)), (['é', '\''], .boolean true)]
  sorted := by
    unfold Keyed.Sorted
    decide

theorem Service.requests_carry_awkward_values :
    Assignments.awkward.NoFloats ∧
    (∃ r, Service.request ⟨[], []⟩ (.insert ⟨['t'], .awkward⟩) = .ok r ∧ r.Carries .awkward) ∧
    Filter.recordId? "tid eq '1'".toList = some ['1'] ∧
    (∃ r, Service.request ⟨[], []⟩ (.update ⟨['t'], .awkward, some "tid eq '1'".toList⟩) = .ok r ∧
      r.Carries .awkward) := by
  have h : Assignments.awkward.NoFloats := by
    simp [Assignments.NoFloats, Assignments.awkward]
  have hid : Filter.recordId? "tid eq '1'".toList = some ['1'] := by decide +kernel
  obtain ⟨hinsert, hupdate, -⟩ := Service.requests_carry_values ⟨[], []⟩ h ['t']
  exact ⟨h, hinsert, hid, hupdate _ _ hid⟩

end EntityQuery
