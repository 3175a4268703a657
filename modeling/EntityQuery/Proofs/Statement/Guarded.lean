-- SUMMARY: Reading a statement with every slice and subtraction checked: no check ever fails.
import EntityQuery.Proofs.Statement.Cut
import EntityQuery.Statement.Read

/-!
# Reading with checks

Some steps of reading a statement are not defined everywhere: a slice by byte
offsets needs ends that lie between characters and are in order, and the size
of a literal without its quotes is a difference of sizes. Here statements are
read with steps that break down where they are not defined. Reading never
breaks down, and it gives what reading without the checks gives.
-/

namespace EntityQuery

/-! ## Steps that can break down -/

/-- A token with the inside of a literal blanked. The number of bytes that are blanked is what is
    left of the bytes of the literal without those of its quotes. -/
def Token.masked? (token : Token) : Option Text :=
  match token with
  | .quoted _ =>
    if 2 ≤ token.source.byteSize then
      some ('\'' :: List.replicate (token.source.byteSize - 2) '_' ++ ['\''])
    else none
  | token => some token.source

/-- The mask of a text; none if a literal has fewer bytes than its quotes. -/
def mask? (t : Text) : Option Text := do
  let (tokens, failure) := (Lexer.start t).readAll
  let masked ← tokens.mapM Token.masked?
  some (masked.flatten ++ Lexer.tail t failure)

/-- The value of a literal; none if the text between its quotes cannot be sliced out. -/
def Value.ofLiteral? (t : Text) : Option Value :=
  let t := t.trim
  if 2 ≤ t.byteSize ∧ t.head? = some '\'' ∧ t.getLast? = some '\'' then
    (t.slice? ⟨1, t.byteSize - 1⟩).map string
  else some (((ofNumeral? t) <|> (ofWord? t)).getD (string t))

theorem byteSize_quoted (content : Text) :
    (Token.quoted content).source.byteSize = content.byteSize + 2 :=
  content.byteSize_quoted

theorem Token.masked?_eq (token : Token) : token.masked? = some token.masked := by
  cases token with
  | quoted content => simp [masked?, masked, byteSize_quoted]
  | run t => rfl
  | comma => rfl

/-- The subtraction in masking a literal does not go below zero. -/
theorem mask?_eq (t : Text) : mask? t = some (mask t) := by
  have hmasked : ∀ tokens : List Token, tokens.mapM Token.masked? = some (tokens.map Token.masked) := by
    intro tokens
    rw [funext Token.masked?_eq]
    exact List.mapM_pure
  simp [mask?, mask, hmasked, List.flatMap]

/-- A text in quotes is recognised by its size and by its two ends. -/
theorem Value.unquote?_eq_none {t : Text}
    (h : ¬ (2 ≤ t.byteSize ∧ t.head? = some '\'' ∧ t.getLast? = some '\'')) : unquote? t = none := by
  unfold unquote?
  split
  · next t =>
    refine if_neg fun hlast => h ⟨?_, rfl, ?_⟩
    · obtain ⟨u, rfl⟩ := List.getLast?_eq_some_iff.1 hlast
      simp only [Text.byteSize_cons, Text.byteSize_append, show '\''.utf8Size = 1 from rfl]
      omega
    · rw [List.getLast?_cons, hlast]
      rfl
  · rfl

/-- The text between the quotes of a literal can be sliced out. -/
theorem Value.ofLiteral?_eq (t : Text) : ofLiteral? t = some (ofLiteral t) := by
  unfold ofLiteral? ofLiteral
  generalize t.trim = t
  dsimp only
  split
  · next h =>
    obtain ⟨hsize, hhead, hlast⟩ := h
    have hne : t ≠ ['\''] := by
      rintro rfl
      exact absurd hsize (by decide)
    obtain ⟨content, rfl⟩ := Text.exists_eq_quoted hne hhead hlast
    have hunquote : unquote? content.quoted = some content := by
      simp [unquote?, Text.quoted]
    have hslice : Text.slice? ⟨1, content.quoted.byteSize - 1⟩ content.quoted = some content := by
      have hquote : Text.byteSize ['\''] = 1 := rfl
      have hsize : content.quoted.byteSize - 1 = 1 + content.byteSize := by
        simp only [Text.quoted, Text.byteSize_append, Text.byteSize_cons,
          show '\''.utf8Size = 1 from rfl, hquote]
        omega
      rw [hsize]
      exact Text.slice?_append ['\''] content ['\'']
    rw [hunquote, hslice]
    rfl
  · next h => rw [unquote?_eq_none h]

namespace Statement

/-! ## Guarded reading -/

/-- Reading that gives a result or an error, or breaks down. -/
abbrev Guarded (α : Type) := ExceptT Statement.Error Option α

namespace Guarded

/-- A step that breaks down if there is no result. -/
def demand {α : Type} (x : Option α) : Guarded α :=
  ExceptT.mk (x.map .ok)

/-- A step that is defined everywhere. -/
def step {α : Type} (x : Except Statement.Error α) : Guarded α :=
  ExceptT.mk (some x)

/-- A step that finds a fault in a statement or none. -/
def judge {α : Type} (operation : Operation) (statement : Text) (x : Except Fault α) : Guarded α :=
  step (atStatement operation statement x)

/-- The part of a statement at the place that was found in the mask. -/
def part (statement masked : Text) (e : Extent) : Guarded Text :=
  demand (statement.slice? (e.span masked))

/-- The value of a literal. -/
def literal (t : Text) : Guarded Value :=
  demand (Value.ofLiteral? t)

/-- The query of a SELECT statement. -/
def readSelect (statement : Text) : Guarded Select := do
  let masked ← demand (mask? statement)
  let shape ← judge .select statement (requireShape (SelectShape.ofText? masked))
  let entity ← judge .select statement (readEntity shape.entity)
  let fieldsText ← part statement masked shape.fields
  let fields ← judge .select statement (readFields fieldsText)
  let orderText ← shape.order.mapM (part statement masked)
  let orderBy ← judge .select statement (orderText.mapM readOrder)
  let limitText ← shape.limit.mapM (part statement masked)
  let limit ← judge .select statement (limitText.mapM readLimitValue)
  let filterText ← shape.filter.mapM (part statement masked)
  pure ⟨entity, fields, filterText.bind readFilter, orderBy, limit⟩

/-- The query of an INSERT statement. -/
def readInsert (checks : Checks) (statement : Text) : Guarded Insert := do
  let masked ← demand (mask? statement)
  let shape ← judge .insert statement (requireShape (InsertShape.ofText? masked))
  let entity ← judge .insert statement (readEntity shape.entity)
  let columnsText ← part statement masked shape.columns
  let columns ← judge .insert statement (readColumns columnsText)
  let valuesText ← part statement masked shape.values
  let values ← step (atLexer statement (splitList valuesText))
  if values.any List.isEmpty then judge .insert statement (.error .emptyValue)
  else if checks.evenLists ∧ columns.length ≠ values.length then
    judge .insert statement (.error (.unevenLists columns.length values.length))
  else do
    let pairs ← (columns.zip values).mapM fun (column, value) =>
      (literal value).map fun value => (column, value)
    let assignments := Assignments.ofList pairs
    if assignments.isEmpty then judge .insert statement (.error .noValues)
    else pure ⟨entity, assignments⟩

/-- A column and its value. -/
def readAssignment (statement t : Text) : Guarded (Text × Value) :=
  match t.splitFirst '=' with
  | none => judge .update statement (.error (.noAssignment t))
  | some (column, value) =>
    let column := column.trim
    let value := value.trim
    if column.isEmpty then judge .update statement (.error (.missingColumn t))
    else if value.isEmpty then judge .update statement (.error (.missingValue column))
    else (literal value).map fun value => (column, value)

/-- The query of an UPDATE statement. -/
def readUpdate (statement : Text) : Guarded Update := do
  let masked ← demand (mask? statement)
  let shape ← judge .update statement (requireShape (UpdateShape.ofText? masked))
  let entity ← judge .update statement (readEntity shape.entity)
  let assignmentsText ← part statement masked shape.assignments
  let items ← step (atLexer statement (splitList assignmentsText))
  let pairs ← items.mapM (readAssignment statement)
  let assignments := Assignments.ofList pairs
  if assignments.isEmpty then judge .update statement (.error .noAssignments)
  else do
    let filterText ← shape.filter.mapM (part statement masked)
    pure ⟨entity, assignments, filterText.bind readFilter⟩

/-- The query of a DELETE statement. -/
def readDelete (statement : Text) : Guarded Delete := do
  let masked ← demand (mask? statement)
  let shape ← judge .delete statement (requireShape (DeleteShape.ofText? masked))
  let entity ← judge .delete statement (readEntity shape.entity)
  let filterText ← shape.filter.mapM (part statement masked)
  pure ⟨entity, filterText.bind readFilter⟩

/-- The query of a statement whose operation is known. -/
def readOperation (checks : Checks) (statement : Text) : Operation → Guarded Query
  | .select => (readSelect statement).map .select
  | .insert => (readInsert checks statement).map .insert
  | .update => (readUpdate statement).map .update
  | .delete => (readDelete statement).map .delete

/-- The query that a text states. -/
def ofText (checks : Checks) (t : Text) : Guarded Query :=
  match Statement.ofText? t with
  | none => throw .empty
  | some statement =>
    match Operation.ofWord? (leadingWord statement) with
    | none => throw (.unsupported (leadingWord statement) statement)
    | some operation => do
      let q ← readOperation checks statement operation
      if checks.filter && q.isUnscoped then throw (.missingFilter operation statement) else pure q

/-! ## No step breaks down -/

variable {α β : Type} {statement : Text}

@[simp] theorem step_ok (a : α) : step (.ok a) = pure a := rfl

@[simp] theorem step_bind (x : Except Statement.Error α) (f : α → Except Statement.Error β) :
    step (x >>= f) = step x >>= fun a => step (f a) := by
  cases x <;> rfl

@[simp] theorem judge_ok (operation : Operation) (statement : Text) (a : α) :
    judge operation statement (.ok a) = pure a := rfl

@[simp] theorem judge_bind (operation : Operation) (statement : Text) (x : Except Fault α)
    (f : α → Except Fault β) :
    judge operation statement (x >>= f) =
      judge operation statement x >>= fun a => judge operation statement (f a) := by
  cases x <;> rfl

@[simp] theorem demand_some (a : α) : demand (some a) = pure a := rfl

theorem step_atStatement (operation : Operation) (statement : Text) (x : Except Fault α) :
    step (atStatement operation statement x) = judge operation statement x := rfl

theorem judge_ite (operation : Operation) (statement : Text) (p : Prop) [Decidable p]
    (x y : Except Fault α) :
    judge operation statement (if p then x else y) =
      if p then judge operation statement x else judge operation statement y :=
  apply_ite _ _ _ _

theorem literal_eq (t : Text) : literal t = pure (Value.ofLiteral t) := by
  rw [literal, Value.ofLiteral?_eq, demand_some]

theorem mapM_zip_literal (columns values : List Text) :
    ((columns.zip values).mapM fun (column, value) =>
      (literal value).map fun value => (column, value)) =
      (pure (columns.zip (values.map Value.ofLiteral)) : Guarded (List (Text × Value))) := by
  simp only [literal_eq]
  rw [List.zip_map_right]
  exact List.mapM_pure

theorem part_eq {e : Extent} (h : e.IsCut statement) :
    part statement (mask statement) e = pure (readPart statement e) := by
  rw [part, h.slice?, demand_some]

theorem mapM_part_eq {found : Option Extent} (h : ∀ e ∈ found.toList, e.IsCut statement) :
    found.mapM (part statement (mask statement)) = pure (found.map (readPart statement)) := by
  cases found with
  | none => rfl
  | some e =>
    rw [Option.mapM_some, part_eq (h e (List.mem_singleton_self e))]
    rfl

theorem readSelect_eq (statement : Text) :
    readSelect statement = step (Statement.readSelect statement) := by
  rw [readSelect, mask?_eq, demand_some, pure_bind, Statement.readSelect, step_atStatement]
  cases hshape : SelectShape.ofText? (mask statement) with
  | none => rfl
  | some shape =>
    obtain ⟨hcut, -⟩ := isCut_selectShape hshape
    simp only [SelectShape.extents, List.forall_mem_cons, List.forall_mem_append] at hcut
    obtain ⟨hfields, -, ⟨hfilter, horder⟩, hlimit⟩ := hcut
    simp only [requireShape, judge_bind, judge_ok, pure_bind, part_eq hfields, mapM_part_eq hfilter,
      mapM_part_eq horder, mapM_part_eq hlimit]

theorem readInsert_eq (checks : Checks) (statement : Text) :
    readInsert checks statement = step (Statement.readInsert checks statement) := by
  rw [readInsert, mask?_eq, demand_some, pure_bind, Statement.readInsert, step_bind, step_atStatement]
  cases hshape : InsertShape.ofText? (mask statement) with
  | none => rfl
  | some shape =>
    obtain ⟨hcut, -⟩ := isCut_insertShape hshape
    simp only [InsertShape.extents, List.forall_mem_cons] at hcut
    obtain ⟨-, hcolumns, hvalues, -⟩ := hcut
    simp only [requireShape, judge_bind, judge_ok, pure_bind, bind_assoc, part_eq hcolumns,
      part_eq hvalues, step_bind, step_atStatement, judge_ite, mapM_zip_literal]

/-- A list of texts is judged text by text. -/
theorem judge_mapM (operation : Operation) (statement : Text) (f : α → Except Fault β)
    (items : List α) :
    judge operation statement (items.mapM f) =
      items.mapM fun item => judge operation statement (f item) := by
  induction items with
  | nil => rfl
  | cons item items ih =>
    simp only [List.mapM_cons, judge_bind, ih]
    rfl

theorem readAssignment_eq (statement t : Text) :
    readAssignment statement t = judge .update statement (Statement.readAssignment t) := by
  unfold readAssignment Statement.readAssignment
  cases t.splitFirst '=' with
  | none => rfl
  | some pair =>
    simp only [judge_ite, literal_eq]
    rfl

theorem readUpdate_eq (statement : Text) :
    readUpdate statement = step (Statement.readUpdate statement) := by
  rw [readUpdate, mask?_eq, demand_some, pure_bind, Statement.readUpdate, step_bind, step_atStatement]
  cases hshape : UpdateShape.ofText? (mask statement) with
  | none => rfl
  | some shape =>
    obtain ⟨hcut, -⟩ := isCut_updateShape hshape
    simp only [UpdateShape.extents, List.forall_mem_cons] at hcut
    obtain ⟨-, hassignments, hfilter⟩ := hcut
    simp only [requireShape, judge_bind, judge_ok, pure_bind, bind_assoc, part_eq hassignments,
      mapM_part_eq hfilter, step_bind, step_atStatement, judge_mapM, judge_ite,
      funext (readAssignment_eq statement)]

theorem readDelete_eq (statement : Text) :
    readDelete statement = step (Statement.readDelete statement) := by
  rw [readDelete, mask?_eq, demand_some, pure_bind, Statement.readDelete, step_atStatement]
  cases hshape : DeleteShape.ofText? (mask statement) with
  | none => rfl
  | some shape =>
    obtain ⟨hcut, -⟩ := isCut_deleteShape hshape
    simp only [DeleteShape.extents, List.forall_mem_cons] at hcut
    obtain ⟨-, hfilter⟩ := hcut
    simp only [requireShape, judge_bind, judge_ok, pure_bind, mapM_part_eq hfilter]

theorem step_map (x : Except Statement.Error α) (f : α → β) :
    (step x).map f = step (x.map f) := by
  cases x <;> rfl

theorem readOperation_eq (checks : Checks) (statement : Text) (operation : Operation) :
    readOperation checks statement operation =
      step (Statement.readOperation checks statement operation) := by
  cases operation with
  | select => rw [readOperation, readSelect_eq, step_map, Statement.readOperation]
  | insert => rw [readOperation, readInsert_eq, step_map, Statement.readOperation]
  | update => rw [readOperation, readUpdate_eq, step_map, Statement.readOperation]
  | delete => rw [readOperation, readDelete_eq, step_map, Statement.readOperation]

theorem ofText_eq (checks : Checks) (t : Text) : ofText checks t = step (Query.ofText checks t) := by
  unfold ofText Query.ofText
  cases Statement.ofText? t with
  | none => rfl
  | some statement =>
    dsimp only
    cases Operation.ofWord? (leadingWord statement) with
    | none => rfl
    | some operation =>
      simp only [readOperation_eq, step_bind]
      refine bind_congr fun q => ?_
      cases checks.filter && q.isUnscoped <;> rfl

end Guarded

/-! ## Parts of all statements -/

/-- Whichever shape a statement has, its parts are cut out between characters and outside of
    literals, and the name of the entity is the same in the statement as in its mask. -/
structure CutsParts (statement : Text) : Prop where
  select : ∀ shape, SelectShape.ofText? (mask statement) = some shape →
    (∀ e ∈ shape.extents, e.IsCut statement) ∧
      shape.entity.text = readPart statement shape.entity
  insert : ∀ shape, InsertShape.ofText? (mask statement) = some shape →
    (∀ e ∈ shape.extents, e.IsCut statement) ∧
      shape.entity.text = readPart statement shape.entity
  update : ∀ shape, UpdateShape.ofText? (mask statement) = some shape →
    (∀ e ∈ shape.extents, e.IsCut statement) ∧
      shape.entity.text = readPart statement shape.entity
  delete : ∀ shape, DeleteShape.ofText? (mask statement) = some shape →
    (∀ e ∈ shape.extents, e.IsCut statement) ∧
      shape.entity.text = readPart statement shape.entity

/-- What the lexer takes for a literal starts and ends with a quote, and it is the content of the
    literal and two bytes more. -/
theorem exists_taken_of_next {l l' : Lexer} {content : Text}
    (h : l.next = (.ok (some (.quoted content)), l')) :
    ∃ taken, l.rest = taken ++ l'.rest ∧ taken.head? = some '\'' ∧ taken.getLast? = some '\'' ∧
      2 ≤ taken.byteSize ∧ content.byteSize = taken.byteSize - 2 := by
  have hsize := byteSize_quoted content
  refine ⟨(Token.quoted content).source, (Lexer.source_append_of_next h).1.symm, rfl,
    List.getLast?_concat, ?_, ?_⟩
  · omega
  · omega

/-- Reading never cuts inside of a character. The parts of every statement are cut out between
    characters and outside of literals, what the lexer takes for a literal has at least the bytes of
    its two quotes, and reading a text with all slices and subtractions checked does not break down:
    it gives the query or the error that reading without the checks gives. -/
theorem reading_cuts_no_character (checks : Checks) (t : Text) :
    (∀ statement, CutsParts statement) ∧
    (∀ (l l' : Lexer) (content : Text), l.next = (.ok (some (.quoted content)), l') →
      ∃ taken, l.rest = taken ++ l'.rest ∧ taken.head? = some '\'' ∧ taken.getLast? = some '\'' ∧
        2 ≤ taken.byteSize ∧ content.byteSize = taken.byteSize - 2) ∧
    (Guarded.ofText checks t).run = some (Query.ofText checks t) := by
  refine ⟨fun statement => ?_, fun _ _ _ => exists_taken_of_next, ?_⟩
  · exact ⟨fun _ => isCut_selectShape, fun _ => isCut_insertShape, fun _ => isCut_updateShape,
      fun _ => isCut_deleteShape⟩
  · rw [Guarded.ofText_eq]
    rfl

end Statement

end EntityQuery
