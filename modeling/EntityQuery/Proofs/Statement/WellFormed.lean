-- SUMMARY: What holds of every query that a statement is read as.
import EntityQuery.Proofs.Keyed
import EntityQuery.Proofs.Skeleton.Settled
import EntityQuery.Proofs.Statement.Accepted

/-!
# Accepted queries

A text may be read as a query that nobody meant. Whatever it is read as, the
query is one that requests can be built from: it names an entity, its columns
have names and values that JSON can write, and its filter is one that taking it
for a condition once more does not change. Nothing is asked of the text.
-/

namespace EntityQuery

open Statement

/-! ## Queries -/

/-- What the name of an entity has to be: a name, and none of the words that stand for one only if
    it is missing. -/
structure IsEntity (name : Text) : Prop where
  ne_nil : name ≠ []
  isNameChar : ∀ c ∈ name, isNameChar c = true
  not_reserved : ∀ word ∈ reservedWords, name.sameWord word = false

/-- What a filter has to be: no blanks at its ends, something between them, and no operator left
    that would still be replaced. -/
structure IsFilter (filter : Text) : Prop where
  ne_nil : filter ≠ []
  trim_eq : filter.trim = filter
  ofCondition_eq : Filter.ofCondition filter = filter

/-- What columns and their values have to be. The separator is the character that ends a column in
    a statement. -/
structure Assignments.WellFormed (separator : Char) (a : Assignments) : Prop where
  ne_nil : a.entries ≠ []
  columns : ∀ entry ∈ a.entries, entry.1 ≠ [] ∧ entry.1.trim = entry.1 ∧ separator ∉ entry.1
  finite : ∀ entry ∈ a.entries, ∀ x, entry.2 = .float x → x.isFinite = true

/-- What the parts of a query have to be, given the checks that are made on top of the grammar. -/
structure Query.WellFormed (checks : Checks) (q : Query) : Prop where
  entity : IsEntity q.entity
  filter : ∀ filter ∈ q.filter, IsFilter filter
  select : ∀ s, q = .select s → s.WellFormed
  insert : ∀ i, q = .insert i → i.values.WellFormed ','
  update : ∀ u, q = .update u → u.values.WellFormed '='
  confined : checks.filter = true → q.operation = .update ∨ q.operation = .delete →
    ∃ filter, q.filter = some filter

namespace Statement

variable {α : Type} {t statement : Text}

/-! ## Entities -/

theorem exists_of_readNoise {keyword : Text} {k : Text → Option α} {a : α}
    (h : readNoise keyword k t = some a) : ∃ rest, k rest = some a := by
  rw [readNoise, Option.orElse_eq_orElse, Option.orElse_eq_or, Option.or_eq_some_iff] at h
  obtain h | ⟨-, h⟩ := h
  · obtain ⟨u, -, h⟩ := Option.bind_eq_some_iff.1 h
    obtain ⟨v, -, h⟩ := Option.bind_eq_some_iff.1 h
    exact ⟨v, h⟩
  · exact ⟨t, h⟩

/-- The name of the entity is read as a name in an insertion. -/
theorem exists_readName_of_insertShape {shape : InsertShape}
    (h : InsertShape.ofText? t = some shape) : ∃ u rest, readName u = some (shape.entity, rest) := by
  obtain ⟨u, -, h⟩ := Option.bind_eq_some_iff.1 h
  obtain ⟨v, h⟩ := exists_of_readNoise h
  obtain ⟨⟨entity, w⟩, hname, h⟩ := Option.bind_eq_some_iff.1 h
  obtain ⟨columns, -, h⟩ := Option.bind_eq_some_iff.1 h
  obtain ⟨x, -, h⟩ := Option.bind_eq_some_iff.1 h
  obtain ⟨y, -, h⟩ := Option.bind_eq_some_iff.1 h
  obtain ⟨values, -, h⟩ := Option.bind_eq_some_iff.1 h
  obtain ⟨⟨valuesEnd, ⟨⟩⟩, -, h⟩ := Option.bind_eq_some_iff.1 h
  cases h
  exact ⟨v, w, hname⟩

/-- The name of the entity is read as a name in a change. -/
theorem exists_readName_of_updateShape {shape : UpdateShape}
    (h : UpdateShape.ofText? t = some shape) : ∃ u rest, readName u = some (shape.entity, rest) := by
  obtain ⟨u, -, h⟩ := Option.bind_eq_some_iff.1 h
  obtain ⟨⟨entity, w⟩, hname, h⟩ := Option.bind_eq_some_iff.1 h
  obtain ⟨⟨assignments, filter⟩, -, h⟩ := Option.bind_eq_some_iff.1 h
  cases h
  exact ⟨u, w, hname⟩

/-- The name of the entity is read as a name in a deletion. -/
theorem exists_readName_of_deleteShape {shape : DeleteShape}
    (h : DeleteShape.ofText? t = some shape) : ∃ u rest, readName u = some (shape.entity, rest) := by
  obtain ⟨u, -, h⟩ := Option.bind_eq_some_iff.1 h
  obtain ⟨v, h⟩ := exists_of_readNoise h
  obtain ⟨⟨entity, w⟩, hname, h⟩ := Option.bind_eq_some_iff.1 h
  obtain ⟨filter, -, h⟩ := Option.bind_eq_some_iff.1 h
  cases h
  exact ⟨v, w, hname⟩

/-- A name that is accepted for an entity is one. -/
theorem isEntity_of_readEntity {e : Extent} {entity : Text} (h : readEntity e = .ok entity)
    (hname : e.text ≠ [] ∧ ∀ c ∈ e.text, isNameChar c = true) : IsEntity entity := by
  rw [eq_of_readEntity h]
  refine ⟨hname.1, hname.2, fun word hword => ?_⟩
  rw [readEntity] at h
  split at h
  · cases h
  · next hreserved =>
    by_contra hsame
    exact hreserved (List.any_eq_true.2 ⟨word, hword, by simpa using hsame⟩)

/-! ## Filters -/

theorem isFilter_of_readFilter {filter : Text} (h : readFilter t = some filter) :
    IsFilter filter := by
  rw [readFilter] at h
  split at h
  · cases h
  · next hne =>
    cases h
    exact ⟨by simpa using hne, Filter.trim_ofCondition t, Filter.ofCondition_ofCondition t⟩

theorem isFilter_of_mem_bind {text : Option Text} {filter : Text}
    (h : filter ∈ text.bind readFilter) : IsFilter filter := by
  obtain ⟨t, -, h⟩ := Option.bind_eq_some_iff.1 h
  exact isFilter_of_readFilter h

/-! ## Columns and values -/

/-- A literal never stands for a double that is not finite. -/
theorem isFinite_of_ofLiteral {x : Float} (h : Value.ofLiteral t = .float x) : x.isFinite = true := by
  unfold Value.ofLiteral at h
  dsimp only at h
  split at h
  · cases h
  · cases hnumber : Value.ofNumeral? t.trim with
    | some v =>
      rw [hnumber] at h
      obtain rfl : v = .float x := h
      unfold Value.ofNumeral? at hnumber
      split at hnumber
      · cases hnumber
      · next n _ _ =>
        split at hnumber
        · next hfinite => cases hnumber; exact hfinite
        · cases hnumber
      · cases hnumber
    | none =>
      rw [hnumber] at h
      unfold Value.ofWord? at h
      split at h
      · cases h
      · split at h
        · cases h
        · split at h <;> cases h

/-- Assignments are well-formed if what they are made from is. -/
theorem wellFormed_of_ofList {separator : Char} {pairs : List (Text × Value)}
    (hne : (Assignments.ofList pairs).isEmpty = false)
    (hcolumns : ∀ pair ∈ pairs, pair.1 ≠ [] ∧ pair.1.trim = pair.1 ∧ separator ∉ pair.1)
    (hvalues : ∀ pair ∈ pairs, ∃ literal, pair.2 = Value.ofLiteral literal) :
    (Assignments.ofList pairs).WellFormed separator := by
  have hmem : ∀ entry ∈ (Assignments.ofList pairs).entries, entry ∈ pairs := by
    intro entry hentry
    rw [Assignments.entries_ofList] at hentry
    exact Keyed.mem_ofList hentry
  refine ⟨List.isEmpty_eq_false_iff.1 hne, fun entry hentry => hcolumns entry (hmem entry hentry),
    fun entry hentry x hx => ?_⟩
  obtain ⟨literal, hliteral⟩ := hvalues entry (hmem entry hentry)
  exact isFinite_of_ofLiteral (hliteral.symm.trans hx)

/-- An assignment that is read has a column before its first equals sign, and a literal after it. -/
theorem forall_of_readAssignment {pair : Text × Value} (h : readAssignment t = .ok pair) :
    (pair.1 ≠ [] ∧ pair.1.trim = pair.1 ∧ '=' ∉ pair.1) ∧
      ∃ literal, pair.2 = Value.ofLiteral literal := by
  unfold readAssignment at h
  split at h
  · cases h
  · next column value hsplit =>
    obtain ⟨-, hequals⟩ := Text.splitFirst_eq_some hsplit
    dsimp only at h
    split at h
    · cases h
    · next hne =>
      split at h
      · cases h
      · cases h
        refine ⟨⟨by simpa using hne, Text.trim_trim column, ?_⟩, _, rfl⟩
        obtain ⟨l, r, -, -, heq⟩ := Text.exists_eq_append_trim column
        exact fun hmem => hequals (by rw [heq]; simp [hmem])

theorem forall_of_readColumns {columns : List Text} (h : readColumns t = .ok columns) :
    ∀ column ∈ columns, column ≠ [] ∧ column.trim = column ∧ ',' ∉ column := by
  simp only [readColumns] at h
  split at h
  · cases h
  · next hempty =>
    cases h
    intro column hcolumn
    refine ⟨?_, forall_of_mem_trimmedPieces hcolumn⟩
    rintro rfl
    exact hempty (List.any_eq_true.2 ⟨[], hcolumn, rfl⟩)

/-! ## Statements -/

theorem isEntity_of_readSelect {q : Select} (h : readSelect statement = .ok q) :
    IsEntity q.entity ∧ ∀ filter ∈ q.filter, IsFilter filter := by
  obtain ⟨shape, hshape, hentity, -, -, -, hfilter⟩ := exists_of_readSelect h
  exact ⟨isEntity_of_readEntity hentity (forall_of_selectShape hshape),
    fun filter hmem => isFilter_of_mem_bind (hfilter ▸ hmem)⟩

theorem wellFormed_of_readInsert {checks : Checks} {q : Insert}
    (h : readInsert checks statement = .ok q) : IsEntity q.entity ∧ q.values.WellFormed ',' := by
  obtain ⟨shape, columns, values, hshape, hentity, hcolumns, -, hpairs, hne⟩ :=
    exists_of_readInsert h
  obtain ⟨u, rest, hname⟩ := exists_readName_of_insertShape hshape
  refine ⟨isEntity_of_readEntity hentity (forall_of_readName hname), ?_⟩
  rw [hpairs] at hne ⊢
  refine wellFormed_of_ofList hne (fun pair hpair => ?_) fun pair hpair => ?_
  · exact forall_of_readColumns hcolumns pair.1 (List.of_mem_zip hpair).1
  · obtain ⟨literal, -, hliteral⟩ := List.mem_map.1 (List.of_mem_zip hpair).2
    exact ⟨literal, hliteral.symm⟩

theorem wellFormed_of_readUpdate {q : Update} (h : readUpdate statement = .ok q) :
    IsEntity q.entity ∧ q.values.WellFormed '=' ∧ ∀ filter ∈ q.filter, IsFilter filter := by
  obtain ⟨shape, items, pairs, hshape, hentity, -, hread, hpairs, hne, hfilter⟩ :=
    exists_of_readUpdate h
  obtain ⟨u, rest, hname⟩ := exists_readName_of_updateShape hshape
  have hpair : ∀ pair ∈ pairs, _ := fun pair hmem =>
    have ⟨item, _, hread⟩ := (forall_of_mapM hread).2 pair hmem
    forall_of_readAssignment hread
  refine ⟨isEntity_of_readEntity hentity (forall_of_readName hname), ?_,
    fun filter hmem => isFilter_of_mem_bind (hfilter ▸ hmem)⟩
  rw [hpairs] at hne ⊢
  exact wellFormed_of_ofList hne (fun pair hmem => (hpair pair hmem).1)
    fun pair hmem => (hpair pair hmem).2

theorem wellFormed_of_readDelete {q : Delete} (h : readDelete statement = .ok q) :
    IsEntity q.entity ∧ ∀ filter ∈ q.filter, IsFilter filter := by
  obtain ⟨shape, hshape, hentity, hfilter⟩ := exists_of_readDelete h
  obtain ⟨u, rest, hname⟩ := exists_readName_of_deleteShape hshape
  exact ⟨isEntity_of_readEntity hentity (forall_of_readName hname),
    fun filter hmem => isFilter_of_mem_bind (hfilter ▸ hmem)⟩

end Statement

namespace Query

/-- A query that is asked to have a filter and is accepted has one. -/
theorem exists_filter_of_isUnscoped {q : Query} (h : q.isUnscoped = false)
    (hop : q.operation = .update ∨ q.operation = .delete) : ∃ filter, q.filter = some filter := by
  have hscoped : (q.operation == .update || q.operation == .delete) = true := by simpa using hop
  rw [isUnscoped, hscoped, Bool.true_and] at h
  exact Option.isSome_iff_exists.1 (by simpa using h)

/-- Every text that is read as a query is read as a well-formed one. -/
theorem ofText_wellFormed {checks : Checks} {t : Text} {q : Query} (h : ofText checks t = .ok q) :
    q.WellFormed checks := by
  obtain ⟨statement, op, -, -, hread, hscoped⟩ := exists_of_ofText h
  have hconfined : checks.filter = true → q.operation = .update ∨ q.operation = .delete →
      ∃ filter, q.filter = some filter := fun hfilter =>
    exists_filter_of_isUnscoped (by simpa [hfilter] using hscoped)
  cases op with
  | select =>
    obtain ⟨s, hs, rfl⟩ := map_eq_ok.1 hread
    obtain ⟨hentity, hfilter⟩ := isEntity_of_readSelect hs
    exact ⟨hentity, hfilter, by rintro _ ⟨⟩; exact wellFormed_of_readSelect hs, by rintro _ ⟨⟩,
      by rintro _ ⟨⟩, hconfined⟩
  | insert =>
    obtain ⟨i, hi, rfl⟩ := map_eq_ok.1 hread
    obtain ⟨hentity, hvalues⟩ := wellFormed_of_readInsert hi
    exact ⟨hentity, by rintro _ ⟨⟩, by rintro _ ⟨⟩, by rintro _ ⟨⟩; exact hvalues, by rintro _ ⟨⟩,
      hconfined⟩
  | update =>
    obtain ⟨u, hu, rfl⟩ := map_eq_ok.1 hread
    obtain ⟨hentity, hvalues, hfilter⟩ := wellFormed_of_readUpdate hu
    exact ⟨hentity, hfilter, by rintro _ ⟨⟩, by rintro _ ⟨⟩, by rintro _ ⟨⟩; exact hvalues,
      hconfined⟩
  | delete =>
    obtain ⟨d, hd, rfl⟩ := map_eq_ok.1 hread
    obtain ⟨hentity, hfilter⟩ := wellFormed_of_readDelete hd
    exact ⟨hentity, hfilter, by rintro _ ⟨⟩, by rintro _ ⟨⟩, by rintro _ ⟨⟩, hconfined⟩

/-- A change whose filter has an operator in a literal, and ends with one. -/
def awkwardChange : Query :=
  .update ⟨['t'], .ofList [(['a'], .string "x=1".toList), (['b'], Value.ofLiteral "2.5".toList)],
    some "n contains 'a = b' and x ne null or".toList⟩

theorem ofText_wellFormed_of_awkwardChange :
    ofText .strict "UPDATE t SET a = 'x=1',b=2.5 WHERE n\u3000LIKE 'a = b'AND x IS\tNOT NULL or".toList =
      .ok awkwardChange ∧ awkwardChange.WellFormed .strict := by
  have hread : ofText .strict
      "UPDATE t SET a = 'x=1',b=2.5 WHERE n\u3000LIKE 'a = b'AND x IS\tNOT NULL or".toList =
      .ok awkwardChange := by
    decide +kernel
  exact ⟨hread, ofText_wellFormed hread⟩

end Query

end EntityQuery
