-- SUMMARY: What holds of every selection that a statement is read as.
import EntityQuery.Proofs.Statement.Body
import EntityQuery.Statement.Read

/-!
# Accepted selections

A statement may have any text in the places of its parts. If it is read as a
selection nevertheless, then the parts of the selection are what they are taken
for: a name, fields without commas, and fields to order by that are words.
-/

namespace EntityQuery

/-- What the parts of a selection have to be. -/
structure Select.WellFormed (q : Select) : Prop where
  entity : q.entity ≠ [] ∧ ∀ c ∈ q.entity, Statement.isNameChar c = true
  fields : q.fields ≠ [] ∧ ∀ field ∈ q.fields, field ≠ [] ∧ field.trim = field ∧ ',' ∉ field
  wildcard : wildcard ∈ q.fields → q.fields = [wildcard]
  orderBy : ∀ os ∈ q.orderBy, os ≠ [] ∧
    ∀ o ∈ os, o.field ≠ [] ∧ (∀ c ∈ o.field, isBlank c = false) ∧ ',' ∉ o.field

namespace Statement

variable {α β ε : Type} {k : Text → Option α}

/-! ## Steps -/

theorem bind_eq_ok {x : Except ε α} {f : α → Except ε β} {b : β} :
    x >>= f = .ok b ↔ ∃ a, x = .ok a ∧ f a = .ok b := by
  cases x <;> simp [bind, Except.bind]

theorem map_eq_ok {x : Except ε α} {f : α → β} {b : β} :
    x.map f = .ok b ↔ ∃ a, x = .ok a ∧ f a = b := by
  cases x <;> simp [Except.map]

/-- If all items of a list are read, then each result is read from one of them. -/
theorem forall_of_mapM {f : α → Except ε β} {l : List α} {m : List β} (h : l.mapM f = .ok m) :
    m.length = l.length ∧ ∀ b ∈ m, ∃ a ∈ l, f a = .ok b := by
  induction l generalizing m with
  | nil =>
    cases h
    simp
  | cons a l ih =>
    rw [List.mapM_cons] at h
    obtain ⟨b, hb, h⟩ := bind_eq_ok.1 h
    obtain ⟨m, hm, h⟩ := bind_eq_ok.1 h
    cases h
    obtain ⟨hlength, hall⟩ := ih hm
    refine ⟨congrArg Nat.succ hlength, List.forall_mem_cons.2 ⟨⟨a, .head _, hb⟩, fun c hc => ?_⟩⟩
    obtain ⟨d, hd, hread⟩ := hall c hc
    exact ⟨d, .tail _ hd, hread⟩

theorem exists_of_option_mapM {f : α → Except ε β} {x : Option α} {y : Option β}
    (h : x.mapM f = .ok y) : ∀ b ∈ y, ∃ a ∈ x, f a = .ok b := by
  cases x with
  | none =>
    cases h
    simp
  | some a =>
    obtain ⟨b, hb, h⟩ := bind_eq_ok.1 h
    cases h
    simpa using hb

/-! ## Readers -/

/-- What is read after a run is read from some place. -/
theorem exists_of_readLongest {p : Char → Bool} {t : Text} {a : α}
    (h : readLongest p k t = some a) : ∃ rest, k rest = some a := by
  induction t with
  | nil => cases h
  | cons c t ih =>
    rw [readLongest] at h
    split at h
    · rw [Option.orElse_eq_orElse, Option.orElse_eq_or, Option.or_eq_some_iff] at h
      obtain h | ⟨-, h⟩ := h
      · exact ih h
      · exact ⟨t, h⟩
    · cases h

theorem exists_of_readShortest {t stop : Text} {a : α}
    (h : readShortest k t = some (stop, a)) : ∃ rest, k rest = some a := by
  induction t with
  | nil =>
    obtain ⟨b, hb, heq⟩ := Option.map_eq_some_iff.1 h
    cases heq
    exact ⟨[], hb⟩
  | cons c t ih =>
    rw [readShortest] at h
    split at h
    · next b hb =>
      cases h
      exact ⟨c :: t, hb⟩
    · exact ih h

theorem exists_of_readBody {t : Text} {e : Extent} {a : α} (h : readBody k t = some (e, a)) :
    ∃ rest, k rest = some a := by
  obtain ⟨start, hbody⟩ := exists_of_readLongest h
  cases start with
  | nil => cases hbody
  | cons c start =>
    obtain ⟨⟨stop, b⟩, hb, heq⟩ := Option.map_eq_some_iff.1 hbody
    cases heq
    exact exists_of_readShortest hb

/-- A name is a character that starts names and characters of names after it. -/
theorem exists_of_readName {t rest : Text} {e : Extent} (h : readName t = some (e, rest)) :
    ∃ (c : Char) (name : Text), t = c :: name ++ rest ∧ e.text = c :: name ∧
      isNameStart c = true ∧ ∀ d ∈ c :: name, isNameChar d = true := by
  cases t with
  | nil => cases h
  | cons c t =>
    rw [readName] at h
    split at h
    · next hc =>
      cases h
      have htext := Extent.text_append (c :: t.takeWhile isNameChar) (t.dropWhile isNameChar)
      rw [List.cons_append, List.takeWhile_append_dropWhile] at htext
      refine ⟨c, t.takeWhile isNameChar, by simp, htext, hc, ?_⟩
      exact List.forall_mem_cons.2 ⟨by simp [isNameChar, hc], fun d hd => List.mem_takeWhile_imp hd⟩
    · cases h

/-- A name consists of characters of names. -/
theorem forall_of_readName {t rest : Text} {e : Extent} (h : readName t = some (e, rest)) :
    e.text ≠ [] ∧ ∀ c ∈ e.text, isNameChar c = true := by
  obtain ⟨c, name, -, htext, -, hchars⟩ := exists_of_readName h
  rw [htext]
  exact ⟨List.cons_ne_nil _ _, hchars⟩

/-- The name of the entity is read as a name in a selection. -/
theorem exists_readName_of_selectShape {t : Text} {shape : SelectShape}
    (h : SelectShape.ofText? t = some shape) : ∃ u rest, readName u = some (shape.entity, rest) := by
  obtain ⟨u, -, h⟩ := Option.bind_eq_some_iff.1 h
  obtain ⟨⟨fields, entity, filter, order, limit⟩, hbody, h⟩ := Option.bind_eq_some_iff.1 h
  cases h
  obtain ⟨source, hsource⟩ := exists_of_readBody hbody
  obtain ⟨u, -, hsource⟩ := Option.bind_eq_some_iff.1 hsource
  obtain ⟨v, -, hsource⟩ := Option.bind_eq_some_iff.1 hsource
  obtain ⟨⟨name, rest⟩, hname, hsource⟩ := Option.bind_eq_some_iff.1 hsource
  obtain ⟨clauses, -, hsource⟩ := Option.bind_eq_some_iff.1 hsource
  cases hsource
  exact ⟨v, rest, hname⟩

theorem forall_of_selectShape {t : Text} {shape : SelectShape}
    (h : SelectShape.ofText? t = some shape) :
    shape.entity.text ≠ [] ∧ ∀ c ∈ shape.entity.text, isNameChar c = true := by
  obtain ⟨u, rest, hname⟩ := exists_readName_of_selectShape h
  exact forall_of_readName hname

/-! ## Parts -/

theorem eq_some_of_requireShape {shape : Option α} {a : α} (h : requireShape shape = .ok a) :
    shape = some a := by
  cases shape <;> cases h
  rfl

theorem eq_ok_of_atStatement {op : Operation} {statement : Text} {x : Except Fault α} {a : α}
    (h : atStatement op statement x = .ok a) : x = .ok a := by
  cases x <;> cases h
  rfl

theorem eq_ok_of_atLexer {statement : Text} {x : Except Lexer.Error α} {a : α}
    (h : atLexer statement x = .ok a) : x = .ok a := by
  cases x <;> cases h
  rfl

theorem eq_of_readEntity {e : Extent} {entity : Text} (h : readEntity e = .ok entity) :
    entity = e.text := by
  rw [readEntity] at h
  split at h
  · cases h
  · exact (Except.ok.inj h).symm

theorem forall_of_mem_trimmedPieces {t field : Text} (h : field ∈ trimmedPieces t) :
    field.trim = field ∧ ',' ∉ field := by
  obtain ⟨piece, hpiece, rfl⟩ := List.mem_map.1 h
  refine ⟨Text.trim_trim piece, fun hcomma => Text.notMem_of_mem_pieces hpiece ?_⟩
  obtain ⟨l, r, -, -, heq⟩ := Text.exists_eq_append_trim piece
  rw [heq]
  simp [hcomma]

theorem forall_of_readFields {t : Text} {fields : List Text} (h : readFields t = .ok fields) :
    fields ≠ [] ∧ (∀ field ∈ fields, field ≠ [] ∧ field.trim = field ∧ ',' ∉ field) ∧
      (wildcard ∈ fields → fields = [wildcard]) := by
  simp only [readFields] at h
  split at h
  · cases h
  · next hempty =>
    split at h
    · cases h
    · next hwildcard =>
      cases h
      have hne : trimmedPieces t ≠ [] := by
        simp [trimmedPieces, Text.pieces]
      refine ⟨hne, fun field hfield => ⟨?_, forall_of_mem_trimmedPieces hfield⟩, fun hmem => ?_⟩
      · rintro rfl
        exact hempty (List.any_eq_true.2 ⟨[], hfield, rfl⟩)
      · have hone : (trimmedPieces t).length ≤ 1 := by simpa [hmem] using hwildcard
        obtain ⟨field, hfield⟩ :=
          List.length_eq_one_iff.1 (Nat.le_antisymm hone (List.length_pos_of_mem hmem))
        rw [hfield, List.mem_singleton] at hmem
        rw [hfield, hmem]

theorem forall_of_readOrderItem {item : Text} {o : OrderBy} (h : readOrderItem item = .ok o) :
    o.field ∈ item.words := by
  rw [readOrderItem] at h
  split at h
  · next heq =>
    cases h
    simp [heq]
  · next heq =>
    cases h
    simp [heq]
  · cases h
  · cases h

theorem forall_of_readOrder {t : Text} {os : List OrderBy} (h : readOrder t = .ok os) :
    os ≠ [] ∧ ∀ o ∈ os, o.field ≠ [] ∧ (∀ c ∈ o.field, isBlank c = false) ∧ ',' ∉ o.field := by
  obtain ⟨hlength, hall⟩ := forall_of_mapM h
  have hne : t.pieces ',' ≠ [] := List.splitOn_ne_nil ',' t
  refine ⟨fun hnil => ?_, fun o ho => ?_⟩
  · rw [hnil, List.length_nil] at hlength
    exact hne (List.length_eq_zero_iff.1 hlength.symm)
  · obtain ⟨item, hitem, hread⟩ := hall o ho
    obtain ⟨hfield, hblank, hsub⟩ := Text.forall_of_mem_words (forall_of_readOrderItem hread)
    exact ⟨hfield, hblank, fun hcomma => Text.notMem_of_mem_pieces hitem (hsub hcomma)⟩

/-! ## Statements that are read -/

section

variable {statement : Text}

/-- What a SELECT statement is read from. -/
theorem exists_of_readSelect {q : Select} (h : readSelect statement = .ok q) :
    ∃ shape, SelectShape.ofText? (mask statement) = some shape ∧
      readEntity shape.entity = .ok q.entity ∧
      readFields (readPart statement shape.fields) = .ok q.fields ∧
      (shape.order.map (readPart statement)).mapM readOrder = .ok q.orderBy ∧
      (shape.limit.map (readPart statement)).mapM readLimitValue = .ok q.limit ∧
      q.filter = (shape.filter.map (readPart statement)).bind readFilter := by
  obtain ⟨shape, hshape, h⟩ := bind_eq_ok.1 (eq_ok_of_atStatement h)
  obtain ⟨entity, hentity, h⟩ := bind_eq_ok.1 h
  obtain ⟨fields, hfields, h⟩ := bind_eq_ok.1 h
  obtain ⟨orderBy, horder, h⟩ := bind_eq_ok.1 h
  obtain ⟨limit, hlimit, h⟩ := bind_eq_ok.1 h
  cases h
  exact ⟨shape, eq_some_of_requireShape hshape, hentity, hfields, horder, hlimit, rfl⟩

/-- An INSERT statement is read if its parts are, and if there are as many values as columns where
    that is checked. -/
theorem readInsert_eq_ok_iff {checks : Checks} {q : Insert} :
    readInsert checks statement = .ok q ↔
      ∃ shape columns values, InsertShape.ofText? (mask statement) = some shape ∧
        readEntity shape.entity = .ok q.entity ∧
        readColumns (readPart statement shape.columns) = .ok columns ∧
        splitList (readPart statement shape.values) = .ok values ∧
        values.any List.isEmpty = false ∧
        (checks.evenLists = true → columns.length = values.length) ∧
        q.values = .ofList (columns.zip (values.map Value.ofLiteral)) ∧
        q.values.isEmpty = false := by
  constructor
  · intro h
    obtain ⟨⟨entity, columns, valuesText⟩, hparts, h⟩ := bind_eq_ok.1 h
    obtain ⟨shape, hshape, hparts⟩ := bind_eq_ok.1 (eq_ok_of_atStatement hparts)
    obtain ⟨name, hentity, hparts⟩ := bind_eq_ok.1 hparts
    obtain ⟨list, hcolumns, hparts⟩ := bind_eq_ok.1 hparts
    cases hparts
    obtain ⟨values, hvalues, h⟩ := bind_eq_ok.1 h
    have hread := eq_ok_of_atStatement h
    split at hread
    · cases hread
    · next hfull =>
      split at hread
      · cases hread
      · next heven =>
        dsimp only at hread
        split at hread
        · cases hread
        · next hne =>
          cases hread
          exact ⟨shape, columns, values, eq_some_of_requireShape hshape, hentity, hcolumns,
            eq_ok_of_atLexer hvalues, Bool.eq_false_iff.2 hfull, by simpa using heven, rfl,
            Bool.eq_false_iff.2 hne⟩
  · rintro ⟨shape, columns, values, hshape, hentity, hcolumns, hvalues, hfull, heven, hpairs, hne⟩
    have heven : ¬ (checks.evenLists = true ∧ columns.length ≠ values.length) := by simpa using heven
    simp [readInsert, hshape, requireShape, hentity, hcolumns, hvalues, bind, Except.bind,
      atStatement, atLexer, hfull, heven, ← hpairs, hne]

/-- What an INSERT statement is read from. -/
theorem exists_of_readInsert {checks : Checks} {q : Insert}
    (h : readInsert checks statement = .ok q) :
    ∃ shape columns values, InsertShape.ofText? (mask statement) = some shape ∧
      readEntity shape.entity = .ok q.entity ∧
      readColumns (readPart statement shape.columns) = .ok columns ∧
      splitList (readPart statement shape.values) = .ok values ∧
      q.values = .ofList (columns.zip (values.map Value.ofLiteral)) ∧ q.values.isEmpty = false := by
  obtain ⟨shape, columns, values, hshape, hentity, hcolumns, hvalues, -, -, hrest⟩ :=
    readInsert_eq_ok_iff.1 h
  exact ⟨shape, columns, values, hshape, hentity, hcolumns, hvalues, hrest⟩

/-- What an UPDATE statement is read from. -/
theorem exists_of_readUpdate {q : Update} (h : readUpdate statement = .ok q) :
    ∃ shape items pairs, UpdateShape.ofText? (mask statement) = some shape ∧
      readEntity shape.entity = .ok q.entity ∧
      splitList (readPart statement shape.assignments) = .ok items ∧
      items.mapM readAssignment = .ok pairs ∧ q.values = .ofList pairs ∧
      q.values.isEmpty = false ∧
      q.filter = (shape.filter.map (readPart statement)).bind readFilter := by
  obtain ⟨⟨entity, assignmentsText, filterText⟩, hparts, h⟩ := bind_eq_ok.1 h
  obtain ⟨shape, hshape, hparts⟩ := bind_eq_ok.1 (eq_ok_of_atStatement hparts)
  obtain ⟨name, hentity, hparts⟩ := bind_eq_ok.1 hparts
  cases hparts
  obtain ⟨items, hitems, h⟩ := bind_eq_ok.1 h
  obtain ⟨pairs, hpairs, h⟩ := bind_eq_ok.1 (eq_ok_of_atStatement h)
  dsimp only at h
  split at h
  · cases h
  · next hne =>
    cases h
    exact ⟨shape, items, pairs, eq_some_of_requireShape hshape, hentity, eq_ok_of_atLexer hitems,
      hpairs, rfl, by simpa using hne, rfl⟩

/-- What a DELETE statement is read from. -/
theorem exists_of_readDelete {q : Delete} (h : readDelete statement = .ok q) :
    ∃ shape, DeleteShape.ofText? (mask statement) = some shape ∧
      readEntity shape.entity = .ok q.entity ∧
      q.filter = (shape.filter.map (readPart statement)).bind readFilter := by
  obtain ⟨shape, hshape, h⟩ := bind_eq_ok.1 (eq_ok_of_atStatement h)
  obtain ⟨entity, hentity, h⟩ := bind_eq_ok.1 h
  cases h
  exact ⟨shape, eq_some_of_requireShape hshape, hentity, rfl⟩

end

/-! ## Selections -/

theorem wellFormed_of_readSelect {statement : Text} {q : Select}
    (h : readSelect statement = .ok q) : q.WellFormed := by
  obtain ⟨shape, hshape, hentity, hfields, horder, -⟩ := exists_of_readSelect h
  obtain ⟨hne, hall, hwildcard⟩ := forall_of_readFields hfields
  refine ⟨?_, ⟨hne, hall⟩, hwildcard, fun os hos => ?_⟩
  · rw [eq_of_readEntity hentity]
    exact forall_of_selectShape hshape
  · obtain ⟨part, -, hpart⟩ := exists_of_option_mapM horder os hos
    exact forall_of_readOrder hpart

/-- A text is read as a query if the statement that it becomes is read as its operation says, and
    if the query has the filter that it is asked to have. -/
theorem exists_of_ofText {checks : Checks} {t : Text} {q : Query}
    (h : Query.ofText checks t = .ok q) : ∃ statement op, ofText? t = some statement ∧
      Operation.ofWord? (leadingWord statement) = some op ∧
      readOperation checks statement op = .ok q ∧ (checks.filter && q.isUnscoped) = false := by
  unfold Query.ofText at h
  split at h
  · cases h
  · next statement hstatement =>
    split at h
    · cases h
    · next op hop =>
      obtain ⟨query, hread, h⟩ := bind_eq_ok.1 h
      split at h
      · cases h
      · next hfilter =>
        cases h
        exact ⟨statement, op, hstatement, hop, hread, by simpa using hfilter⟩

/-- Every text that is read as a selection is read as a well-formed one. -/
theorem wellFormed_of_ofText {checks : Checks} {t : Text} {q : Select}
    (h : Query.ofText checks t = .ok (.select q)) : q.WellFormed := by
  obtain ⟨statement, op, -, -, hread, -⟩ := exists_of_ofText h
  cases op <;> obtain ⟨read, hread, heq⟩ := map_eq_ok.1 hread <;> cases heq
  exact wellFormed_of_readSelect hread

end Statement

end EntityQuery
