-- SUMMARY: Statements that differ in values only become queries with the same structure.
import EntityQuery.Proofs.Statement.Part

/-!
# Statements that differ in values

Two statements with a common skeleton have the same shape, with the same parts
of the skeleton. If only values vary, the parts that make up the structure are
the same texts, so both statements are refused or both become queries, with the
same structure.
-/

namespace EntityQuery

open Skeleton Statement

/-- Two statements that are refused both, or that become queries with the same structure. -/
def Alike (t : Side → Text) (x : Side → Except Statement.Error Query) : Prop :=
  (∀ i, ∃ e, x i = .error e) ∨
  ∃ q : Side → Query, (∀ i, x i = .ok (q i)) ∧
    SameStructure (t .left) (t .right) (q .left) (q .right)

variable {s : Skeleton Side} {t : Side → Text}

/-! ## Filters -/

theorem Skeleton.readFilter_text {ι : Type} {s : Skeleton ι} (h : s.Proper) (i : ι) :
    readFilter (text i s) = if s.filtered.isEmpty then none else some (text i s.filtered) := by
  have hempty : (text i s.filtered).isEmpty = s.filtered.isEmpty := by
    rw [Bool.eq_iff_iff, List.isEmpty_iff, List.isEmpty_iff, text_eq_nil_iff]
  unfold readFilter
  rw [ofCondition_text h]
  dsimp only
  rw [hempty]

/-- The text of a part that a statement may have. -/
def optionalText (s : Skeleton Side) (part : Option (Part Side)) (i : Side) : Option Text :=
  (part.map (·.extent i)).map (readPart (text i s))

theorem optionalText_some (hs : s.Proper) {p : Part Side} (hp : p.start <:+ s) (i : Side) :
    optionalText s (some p) i = some (text i p.body) := by
  rw [optionalText, Option.map_some, Option.map_some, readPart_extent hs hp]

/-- The filters of two statements with the same part for a condition. -/
theorem sameFilter_of_part (hs : s.Proper) {part : Option (Part Side)}
    (hpart : ∀ p ∈ part, p.start <:+ s) (ht : ∀ i, (t i).condition? = optionalText s part i) :
    SameFilter (t .left) (t .right) ((optionalText s part .left).bind readFilter)
      ((optionalText s part .right).bind readFilter) := by
  cases part with
  | none => exact .inl ⟨rfl, rfl⟩
  | some p =>
    have hp := hpart p rfl
    have hbody : p.body.Proper := (Proper.append_iff.1 (hs.of_suffix hp)).1
    have hcondition : ∀ i, (t i).condition? = some (text i p.body) := by
      intro i
      rw [ht, optionalText_some hs hp]
    have hliterals : ∀ i,
        Text.literals (text i p.body.filtered) = Text.literals (text i p.body) := by
      intro i
      rw [literals_text hbody.filtered, literals_text hbody, literals_filtered]
    simp only [optionalText_some hs hp, Option.bind_some, readFilter_text hbody]
    cases p.body.filtered.isEmpty with
    | true => exact .inl ⟨rfl, rfl⟩
    | false =>
      exact .inr ⟨_, _, _, _, rfl, rfl, sameButLiterals_text hbody.filtered, hcondition .left,
        hliterals .left, hcondition .right, hliterals .right⟩

theorem SameFilter.isNone_eq {t₁ t₂ : Text} {filter₁ filter₂ : Option Text}
    (h : SameFilter t₁ t₂ filter₁ filter₂) : filter₁.isNone = filter₂.isNone := by
  obtain ⟨rfl, rfl⟩ | ⟨f₁, f₂, -, -, rfl, rfl, -⟩ := h
  · rfl
  · rfl

/-! ## Parts without values -/

/-- A part that a statement may have is the same in both if no values are in it. -/
theorem optionalText_eq (hs : s.Proper) (part : Option (Part Side))
    (h : ∀ p ∈ part, p.start <:+ s ∧ text .left p.body = text .right p.body) (i : Side) :
    optionalText s part i = optionalText s part .left := by
  cases part with
  | none => rfl
  | some p =>
    obtain ⟨hp, heq⟩ := h p rfl
    rw [optionalText_some hs hp, optionalText_some hs hp]
    cases i
    · rfl
    · rw [heq]

theorem readPart_eq (hs : s.Proper) {p : Part Side} (hp : p.start <:+ s)
    (heq : text .left p.body = text .right p.body) (i : Side) :
    readPart (text i s) (p.extent i) = text .left p.body := by
  rw [readPart_extent hs hp]
  cases i
  · rfl
  · exact heq.symm

theorem exists_part_of_any {part : Option (Part Side)} {p : Statement.Extent → Bool} {i : Side}
    (h : (part.map (·.extent i)).any p = true) : ∃ q ∈ part.toList, p (q.extent i) = true := by
  cases part with
  | none => cases h
  | some q => exact ⟨q, by simp, h⟩

/-- The name of the entity is read alike. -/
theorem readEntity_extent {ι : Type} (n : Name ι) (i : ι) :
    readEntity (n.part.extent i) =
      if reservedWords.any n.text.sameWord then .error .missingEntity else .ok n.text := by
  rw [readEntity, Name.text_extent]

/-! ## Two statements -/

/-- Two texts that are statements of one operation and differ in values only. -/
structure StatementPair (t : Side → Text) (s : Skeleton Side) (operation : Operation) : Prop where
  proper : s.Proper
  statement : ∀ i, ofText? (t i) = some (text i s)
  word : ∀ i, Operation.ofWord? (leadingWord (text i s)) = some operation
  varies : s.VariesOnly (fun place => holdsValue (text .left s) place = true) 0

namespace StatementPair

variable {operation : Operation} (d : StatementPair t s operation)

include d

theorem condition?_eq (i : Side) : (t i).condition? = Statement.condition? (text i s) := by
  rw [Text.condition?, d.statement i, Option.bind_some]

/-- The filters of both queries are the same but for literals if the condition of the statements is
    one of their parts. -/
theorem sameFilter {parts : List (Part Side)} (harranged : Arranged s parts)
    {part : Option (Part Side)} (hpart : ∀ p ∈ part, p ∈ parts)
    (hcondition : ∀ i, Statement.condition? (text i s) = optionalText s part i) :
    SameFilter (t .left) (t .right) ((optionalText s part .left).bind readFilter)
      ((optionalText s part .right).bind readFilter) :=
  sameFilter_of_part d.proper (fun p hp => harranged.start_suffix p (hpart p hp))
    fun i => (d.condition?_eq i).trans (hcondition i)

theorem valueItems_eq (i : Side) :
    (t i).valueItems = Keyed.ofList (Statement.valueItems (text i s)) := by
  rw [Text.valueItems, d.statement i, Option.elim_some]

/-- Without values the queries of both statements have no columns. -/
theorem valueItems_eq_nil (h : ∀ i, Statement.valueItems (text i s) = []) (i : Side) :
    (t i).valueItems = [] := by
  rw [d.valueItems_eq i, h i]
  rfl

end StatementPair

/-- Two statements with a common frame are refused both if the frame is, and otherwise become what
    the frame and their values make of them. -/
theorem alike_of_frame {F : Type} {operation : Operation} {frame : Except Fault F}
    {query : F → Side → Query} {x : Side → Except Statement.Error Query}
    (hx : ∀ i, x i = atStatement operation (text i s) (frame.map (query · i)))
    (hsame : ∀ a, SameStructure (t .left) (t .right) (query a .left) (query a .right)) :
    Alike t x := by
  cases frame with
  | error fault => exact .inl fun i => ⟨_, hx i⟩
  | ok a => exact .inr ⟨query a, hx, hsame a⟩

variable {free : Span → Prop}

/-! ## SELECT -/

/-- What is read of a SELECT statement besides its filter. -/
def selectFrame (s : Skeleton Side) (p : SelectParts Side) :
    Except Fault (Text × List Text × Option (List OrderBy) × Option UInt64) := do
  let entity ← readEntity (p.entity.part.extent .left)
  let fields ← readFields (text .left p.fields.body)
  let orderBy ← (optionalText s p.order .left).mapM readOrder
  let limit ← (optionalText s p.limit .left).mapM readLimitValue
  .ok (entity, fields, orderBy, limit)

/-- The parts of both SELECT statements apart from their conditions are the same. -/
theorem selectParts_text (hs : s.Proper) (h : s.VariesOnly free 0) {p : SelectParts Side}
    (harranged : Arranged s (Found.parts p))
    (hfree : ∀ place, free place →
      ∃ q ∈ p.filter.toList, place.isIn ((q.extent .left).span (masked .left s)) = true)
    (i : Side) :
    readPart (text i s) (p.fields.extent i) = text .left p.fields.body ∧
      optionalText s p.order i = optionalText s p.order .left ∧
      optionalText s p.limit i = optionalText s p.limit .left := by
  have hsuffix := harranged.start_suffix
  have hapart := harranged.pairwise
  simp only [Found.parts, List.pairwise_cons, List.pairwise_append, List.mem_cons,
    List.mem_append, Option.mem_toList] at hsuffix hapart
  obtain ⟨hafterFields, -, ⟨-, -, hfilterOrder⟩, -, hlast⟩ := hapart
  have hfieldsStart : p.fields.start <:+ s := hsuffix _ (.inl rfl)
  have hfilter : ∀ q ∈ p.filter.toList, q.start <:+ s ∧ q.start <:+ p.fields.after := by
    intro q hq
    have hq := Option.mem_toList.1 hq
    exact ⟨hsuffix q (.inr (.inr (.inl (.inl hq)))), hafterFields q (.inr (.inl (.inl hq)))⟩
  refine ⟨?_, ?_, ?_⟩
  · exact readPart_eq hs hfieldsStart (text_body_eq h hfieldsStart hfree
      fun q hq => ⟨(hfilter q hq).1, .inl (hfilter q hq).2⟩) i
  · refine optionalText_eq hs p.order (fun o ho => ?_) i
    have hstart := hsuffix o (.inr (.inr (.inl (.inr ho))))
    refine ⟨hstart, text_body_eq h hstart hfree fun q hq => ⟨(hfilter q hq).1, .inr ?_⟩⟩
    exact hfilterOrder q (Option.mem_toList.1 hq) o ho
  · refine optionalText_eq hs p.limit (fun l hl => ?_) i
    have hstart := hsuffix l (.inr (.inr (.inr hl)))
    refine ⟨hstart, text_body_eq h hstart hfree fun q hq => ⟨(hfilter q hq).1, .inr ?_⟩⟩
    exact hlast q (.inl (Option.mem_toList.1 hq)) l hl

/-- Both SELECT statements are read alike apart from their filters. -/
theorem readSelect_text (hs : s.Proper) {p : SelectParts Side}
    (hsome : ∀ i, SelectShape.ofText? (masked i s) = some (Found.result p i)) {i : Side}
    (hparts : readPart (text i s) (p.fields.extent i) = text .left p.fields.body ∧
      optionalText s p.order i = optionalText s p.order .left ∧
      optionalText s p.limit i = optionalText s p.limit .left) :
    readSelect (text i s) = atStatement .select (text i s) ((selectFrame s p).map
      fun (entity, fields, orderBy, limit) =>
        ⟨entity, fields, (optionalText s p.filter i).bind readFilter, orderBy, limit⟩) := by
  obtain ⟨hfields, horder, hlimit⟩ := hparts
  have hread : readSelect (text i s) = atStatement .select (text i s) (do
      let entity ← readEntity (p.entity.part.extent i)
      let fields ← readFields (readPart (text i s) (p.fields.extent i))
      let orderBy ← (optionalText s p.order i).mapM readOrder
      let limit ← (optionalText s p.limit i).mapM readLimitValue
      .ok ⟨entity, fields, (optionalText s p.filter i).bind readFilter, orderBy, limit⟩) := by
    rw [readSelect, mask_text hs, hsome i]
    rfl
  rw [hread, readEntity_extent, hfields, horder, hlimit, selectFrame, readEntity_extent]
  congr 1
  cases (if reservedWords.any p.entity.text.sameWord then _ else _ : Except Fault Text) with
  | error fault => rfl
  | ok entity =>
    cases readFields (text .left p.fields.body) with
    | error fault => rfl
    | ok fields =>
      cases (optionalText s p.order .left).mapM readOrder with
      | error fault => rfl
      | ok orderBy => cases (optionalText s p.limit .left).mapM readLimitValue <;> rfl

variable {checks : Checks}

theorem alike_select (d : StatementPair t s .select) :
    Alike t fun i => readOperation checks (text i s) .select := by
  have hmask := mask_text d.proper
  obtain hnone | ⟨p, harranged, hsome⟩ := reads_selectShape.none_or_some s
  · left
    intro i
    refine ⟨.invalid .select (text i s) .shape, ?_⟩
    simp only [readOperation, readSelect, hmask, hnone]
    rfl
  · have hfree : ∀ place, holdsValue (text .left s) place = true →
        ∃ q ∈ p.filter.toList, place.isIn ((q.extent .left).span (masked .left s)) = true := by
      intro place hplace
      simp only [holdsValue, d.word, hmask, hsome] at hplace
      exact exists_part_of_any hplace
    have hcondition : ∀ i, Statement.condition? (text i s) = optionalText s p.filter i := by
      intro i
      simp only [Statement.condition?, d.word, hmask, hsome]
      rfl
    have hfilter : ∀ q ∈ p.filter, q ∈ Found.parts p := by
      intro q hq
      simp [Found.parts, Option.mem_def.1 hq]
    have hitems := d.valueItems_eq_nil fun i => by simp only [Statement.valueItems, d.word]
    have hread := fun i => readSelect_text d.proper hsome
      (selectParts_text d.proper d.varies harranged hfree i)
    have hquery : ∀ i, readOperation checks (text i s) .select =
        atStatement .select (text i s) ((selectFrame s p).map
          fun (entity, fields, orderBy, limit) => Query.select
            ⟨entity, fields, (optionalText s p.filter i).bind readFilter, orderBy, limit⟩) := by
      intro i
      rw [readOperation, hread i]
      cases selectFrame s p <;> rfl
    refine alike_of_frame hquery fun frame => ?_
    exact {
      operation := rfl
      entity := rfl
      fields := rfl
      orderBy := rfl
      limit := rfl
      columns := rfl
      values₁ := by rw [hitems]; rfl
      values₂ := by rw [hitems]; rfl
      items := by rw [hitems, hitems]; exact .nil
      filter := d.sameFilter harranged hfilter hcondition }

/-! ## DELETE -/

theorem readDelete_text (hs : s.Proper) {p : DeleteParts Side}
    (hsome : ∀ i, DeleteShape.ofText? (masked i s) = some (Found.result p i)) (i : Side) :
    readDelete (text i s) = atStatement .delete (text i s)
      ((readEntity (p.entity.part.extent .left)).map fun entity =>
        ⟨entity, (optionalText s p.filter i).bind readFilter⟩) := by
  have hread : readDelete (text i s) = atStatement .delete (text i s) (do
      let entity ← readEntity (p.entity.part.extent i)
      .ok ⟨entity, (optionalText s p.filter i).bind readFilter⟩) := by
    rw [readDelete, mask_text hs, hsome i]
    rfl
  rw [hread, readEntity_extent, readEntity_extent]
  split <;> rfl

theorem alike_delete (d : StatementPair t s .delete) :
    Alike t fun i => readOperation checks (text i s) .delete := by
  have hmask := mask_text d.proper
  obtain hnone | ⟨p, harranged, hsome⟩ := reads_deleteShape.none_or_some s
  · left
    intro i
    refine ⟨.invalid .delete (text i s) .shape, ?_⟩
    simp only [readOperation, readDelete, hmask, hnone]
    rfl
  · have hcondition : ∀ i, Statement.condition? (text i s) = optionalText s p.filter i := by
      intro i
      simp only [Statement.condition?, d.word, hmask, hsome]
      rfl
    have hfilter : ∀ q ∈ p.filter, q ∈ Found.parts p := by
      intro q hq
      simp [Found.parts, Option.mem_def.1 hq]
    have hitems := d.valueItems_eq_nil fun i => by simp only [Statement.valueItems, d.word]
    have hread := readDelete_text d.proper hsome
    have hquery : ∀ i, readOperation checks (text i s) .delete =
        atStatement .delete (text i s) ((readEntity (p.entity.part.extent .left)).map
          fun entity => Query.delete ⟨entity, (optionalText s p.filter i).bind readFilter⟩) := by
      intro i
      rw [readOperation, hread i]
      cases readEntity (p.entity.part.extent .left) <;> rfl
    refine alike_of_frame hquery fun entity => ?_
    exact {
      operation := rfl
      entity := rfl
      fields := rfl
      orderBy := rfl
      limit := rfl
      columns := rfl
      values₁ := by rw [hitems]; rfl
      values₂ := by rw [hitems]; rfl
      items := by rw [hitems, hitems]; exact .nil
      filter := d.sameFilter harranged hfilter hcondition }

/-! ## Values -/

theorem entries_ofList_map_ofLiteral (pairs : List (Text × Text)) :
    (Assignments.ofList (pairs.map fun (column, item) => (column, Value.ofLiteral item))).entries =
      (Keyed.ofList pairs).map fun (column, item) => (column, Value.ofLiteral item) := by
  rw [Assignments.entries_ofList, Keyed.map_ofList]

/-- Queries with related items have the same columns. -/
theorem columns_eq_of_related {pairs : Side → List (Text × Text)}
    (h : List.Forall₂ (Keyed.Related SameItem) (pairs .left) (pairs .right)) :
    (Assignments.ofList ((pairs .left).map
        fun (column, item) => (column, Value.ofLiteral item))).entries.map Prod.fst =
      (Assignments.ofList ((pairs .right).map
        fun (column, item) => (column, Value.ofLiteral item))).entries.map Prod.fst := by
  have hnames := Keyed.names_eq_of_related (Keyed.related_ofList h)
  rw [entries_ofList_map_ofLiteral, entries_ofList_map_ofLiteral, List.map_map, List.map_map]
  exact hnames

theorem isEmpty_eq_of_related {α β : Type} {R : α → β → Prop} {l : List α} {m : List β}
    (h : List.Forall₂ R l m) : l.isEmpty = m.isEmpty := by
  cases h <;> rfl

/-! ## INSERT -/

/-- The columns of an INSERT statement with their values as they are written. -/
def insertItems (p : InsertParts Side) (i : Side) : List (Text × Text) :=
  (trimmedPieces (text .left p.columns.body)).zip (p.values.body.items.map (text i))

/-- What is read of an INSERT statement besides its values. -/
def insertFrame (checks : Checks) (p : InsertParts Side) : Except Fault Text := do
  let entity ← readEntity (p.entity.part.extent .left)
  let columns ← readColumns (text .left p.columns.body)
  if p.values.body.items.any List.isEmpty then .error .emptyValue
  else if checks.evenLists ∧ columns.length ≠ p.values.body.items.length then
    .error (.unevenLists columns.length p.values.body.items.length)
  else if (insertItems p .left).isEmpty then .error .noValues
  else .ok entity

theorem related_insertItems {p : InsertParts Side} (hp : p.values.body.Proper) :
    List.Forall₂ (Keyed.Related SameItem) (insertItems p .left) (insertItems p .right) := by
  have hitems : ∀ item ∈ p.values.body.items, item.Proper := by
    intro item hitem
    exact hp.of_mem_items hitem
  unfold insertItems
  generalize p.values.body.items = items at hitems
  induction trimmedPieces (text .left p.columns.body) generalizing items with
  | nil => exact .nil
  | cons column columns ih =>
    cases items with
    | nil => exact .nil
    | cons item items =>
      obtain ⟨hitem, hitems⟩ := List.forall_mem_cons.1 hitems
      exact .cons ⟨rfl, sameItem_text hitem⟩ (ih items hitems)

/-- The columns of both INSERT statements are the same, and their values are read apart. -/
theorem insertParts_text (hs : s.Proper) (h : s.VariesOnly free 0) {p : InsertParts Side}
    (harranged : Arranged s (Found.parts p))
    (hfree : ∀ place, free place →
      place.isIn ((p.values.extent .left).span (masked .left s)) = true) :
    p.values.body.Proper ∧ ∀ i,
      readPart (text i s) (p.columns.extent i) = text .left p.columns.body ∧
      readPart (text i s) (p.values.extent i) = text i p.values.body := by
  have hsuffix := harranged.start_suffix
  have hapart := harranged.pairwise
  simp only [Found.parts, List.forall_mem_cons, List.pairwise_cons] at hsuffix hapart
  obtain ⟨-, hcolumns, hvalues, -⟩ := hsuffix
  obtain ⟨-, ⟨hafter, -⟩, -⟩ := hapart
  have hplaces : ∀ place, free place →
      ∃ q ∈ [p.values], place.isIn ((q.extent .left).span (masked .left s)) = true :=
    fun place hplace => ⟨_, .head _, hfree place hplace⟩
  have heq : text .left p.columns.body = text .right p.columns.body :=
    text_body_eq h hcolumns hplaces (List.forall_mem_singleton.2 ⟨hvalues, .inl hafter⟩)
  refine ⟨(Proper.append_iff.1 (hs.of_suffix hvalues)).1, fun i => ⟨?_, ?_⟩⟩
  · exact readPart_eq hs hcolumns heq i
  · exact readPart_extent hs hvalues i

/-- Both INSERT statements are read alike apart from their values. -/
theorem readInsert_text (checks : Checks) (hs : s.Proper) {p : InsertParts Side}
    (hsome : ∀ i, InsertShape.ofText? (masked i s) = some (Found.result p i))
    (hvalues : p.values.body.Proper) {i : Side}
    (hread : readPart (text i s) (p.columns.extent i) = text .left p.columns.body ∧
      readPart (text i s) (p.values.extent i) = text i p.values.body) :
    readInsert checks (text i s) = atStatement .insert (text i s)
      ((insertFrame checks p).map fun entity => ⟨entity, Assignments.ofList
        ((insertItems p i).map fun (column, item) => (column, Value.ofLiteral item))⟩) := by
  have hblank : (p.values.body.items.map (text i)).any List.isEmpty =
      p.values.body.items.any List.isEmpty := by
    rw [List.any_map]
    refine congrArg (List.any _) (funext fun item => ?_)
    rw [Function.comp_apply, Bool.eq_iff_iff, List.isEmpty_iff, List.isEmpty_iff, text_eq_nil_iff]
  have hzip : (trimmedPieces (text .left p.columns.body)).zip
      ((p.values.body.items.map (text i)).map Value.ofLiteral) =
        (insertItems p i).map fun (column, item) => (column, Value.ofLiteral item) := by
    rw [List.zip_map_right]
    rfl
  have hempty : (insertItems p i).isEmpty = (insertItems p .left).isEmpty := by
    cases i
    · rfl
    · exact (isEmpty_eq_of_related (related_insertItems hvalues)).symm
  simp only [readInsert, insertFrame, mask_text hs, hsome, requireShape, Found.result,
    readEntity_extent, hread, readColumns, bind, Except.bind]
  by_cases hentity : reservedWords.any p.entity.text.sameWord = true
  · simp only [hentity, if_true]
    rfl
  · by_cases hcolumn : (trimmedPieces (text .left p.columns.body)).any List.isEmpty = true
    · simp only [hentity, hcolumn, if_true]
      rfl
    · simp only [hentity, hcolumn, Bool.false_eq_true, if_false, atStatement, atLexer,
        splitList_text hvalues, hblank, List.length_map, hzip, Assignments.isEmpty_ofList,
        List.isEmpty_map, hempty]
      split_ifs <;> rfl

theorem alike_insert (d : StatementPair t s .insert) :
    Alike t fun i => readOperation checks (text i s) .insert := by
  have hmask := mask_text d.proper
  obtain hnone | ⟨p, harranged, hsome⟩ := reads_insertShape.none_or_some s
  · left
    intro i
    refine ⟨.invalid .insert (text i s) .shape, ?_⟩
    simp only [readOperation, readInsert, hmask, hnone]
    rfl
  · have hfree : ∀ place, holdsValue (text .left s) place = true →
        place.isIn ((p.values.extent .left).span (masked .left s)) = true := by
      intro place hplace
      simp only [holdsValue, d.word, hmask, hsome] at hplace
      exact hplace
    obtain ⟨hvalues, hparts⟩ := insertParts_text d.proper d.varies harranged hfree
    have hitems : ∀ i, (t i).valueItems = Keyed.ofList (insertItems p i) := by
      intro i
      rw [d.valueItems_eq]
      simp only [Statement.valueItems, d.word, hmask, hsome, Found.result, hparts i,
        splitList_text hvalues]
      rfl
    have hread := fun i => readInsert_text checks d.proper hsome hvalues (hparts i)
    have hquery : ∀ i, readOperation checks (text i s) .insert =
        atStatement .insert (text i s) ((insertFrame checks p).map
          fun entity => Query.insert ⟨entity, Assignments.ofList ((insertItems p i).map
            fun (column, item) => (column, Value.ofLiteral item))⟩) := by
      intro i
      rw [readOperation, hread i]
      cases insertFrame checks p <;> rfl
    refine alike_of_frame hquery fun entity => ?_
    exact {
      operation := rfl
      entity := rfl
      fields := rfl
      orderBy := rfl
      limit := rfl
      columns := columns_eq_of_related (related_insertItems hvalues)
      values₁ := by rw [hitems]; exact entries_ofList_map_ofLiteral _
      values₂ := by rw [hitems]; exact entries_ofList_map_ofLiteral _
      items := by
        rw [hitems, hitems]
        exact Keyed.related_ofList (related_insertItems hvalues)
      filter := .inl ⟨rfl, rfl⟩ }

/-! ## UPDATE -/

/-- The assignments of both UPDATE statements are read apart, and vary in values only. -/
theorem updateParts_text (hs : s.Proper) (h : s.VariesOnly free 0) {p : UpdateParts Side}
    (harranged : Arranged s (Found.parts p))
    (hfree : ∀ place, free place →
      (∃ q ∈ p.filter.toList, place.isIn ((q.extent .left).span (masked .left s)) = true) ∨
      endsAfterEquals ((text .left s).slice
        ⟨((p.assignments.extent .left).span (masked .left s)).start, place.start⟩) = true) :
    (∀ item ∈ p.assignments.body.items, item.Proper ∧ item.VariesAfterEquals) ∧
    p.assignments.body.Proper ∧
    ∀ i, readPart (text i s) (p.assignments.extent i) = text i p.assignments.body := by
  have hsuffix := harranged.start_suffix
  have hapart := harranged.pairwise
  simp only [Found.parts, List.forall_mem_cons, List.pairwise_cons, Option.mem_toList]
    at hsuffix hapart
  obtain ⟨-, hassignments, hfilter⟩ := hsuffix
  obtain ⟨-, hafter, -⟩ := hapart
  have hproper := (Proper.append_iff.1 (hs.of_suffix hassignments)).1
  have hvaries : p.assignments.body.VariesInAssignments := by
    refine variesInAssignments_body h hassignments hfree fun q hq => ?_
    have hq := Option.mem_toList.1 hq
    exact ⟨hfilter q hq, .inl (hafter q hq)⟩
  refine ⟨fun item hitem => ⟨?_, ?_⟩, hproper, readPart_extent hs hassignments⟩
  · exact hproper.of_mem_items hitem
  · exact variesAfterEquals_of_mem_items hproper hvaries hitem

/-- What is read of an UPDATE statement besides its filter. -/
def updateFrame (p : UpdateParts Side) (i : Side) : Except Fault (Text × List (Text × Value)) := do
  let entity ← readEntity (p.entity.part.extent .left)
  let pairs ← (p.assignments.body.items.map (text i)).mapM readAssignment
  if pairs.isEmpty then .error .noAssignments else .ok (entity, pairs)

/-- An UPDATE statement is read from its parts. -/
theorem readUpdate_text (hs : s.Proper) {p : UpdateParts Side}
    (hsome : ∀ i, UpdateShape.ofText? (masked i s) = some (Found.result p i))
    (hassignments : p.assignments.body.Proper) {i : Side}
    (hread : readPart (text i s) (p.assignments.extent i) = text i p.assignments.body) :
    readUpdate (text i s) = atStatement .update (text i s) ((updateFrame p i).map
      fun (entity, pairs) =>
        ⟨entity, Assignments.ofList pairs, (optionalText s p.filter i).bind readFilter⟩) := by
  simp only [readUpdate, updateFrame, mask_text hs, hsome, requireShape, Found.result,
    readEntity_extent, hread, bind, Except.bind]
  by_cases hentity : reservedWords.any p.entity.text.sameWord = true
  · simp only [hentity, if_true]
    rfl
  · simp only [hentity, Bool.false_eq_true, if_false, atStatement, atLexer,
      splitList_text hassignments, Assignments.isEmpty_ofList]
    cases (p.assignments.body.items.map (text i)).mapM readAssignment with
    | error fault => rfl
    | ok pairs =>
      dsimp only
      split_ifs <;> rfl

/-- The assignments of both UPDATE statements are refused, or they are the same but for values. -/
theorem updateFrame_cases {p : UpdateParts Side}
    (h : ∀ item ∈ p.assignments.body.items, item.Proper ∧ item.VariesAfterEquals) :
    (∀ i, ∃ fault, updateFrame p i = .error fault) ∨
    ∃ (entity : Text) (pairs : Side → List (Text × Text)),
      List.Forall₂ (Keyed.Related SameItem) (pairs .left) (pairs .right) ∧
      ∀ i, (p.assignments.body.items.map (text i)).filterMap splitAssignment? = pairs i ∧
        updateFrame p i =
          .ok (entity, (pairs i).map fun (column, item) => (column, Value.ofLiteral item)) := by
  unfold updateFrame
  cases readEntity (p.entity.part.extent .left) with
  | error fault => exact .inl fun i => ⟨fault, rfl⟩
  | ok entity =>
    obtain hfault | ⟨pairs, hrelated, hpairs⟩ := mapM_readAssignment_text h
    · left
      intro i
      obtain ⟨fault, hfault⟩ := hfault i
      rw [hfault]
      exact ⟨fault, rfl⟩
    · have hempty : ∀ i, (pairs i).isEmpty = (pairs .left).isEmpty := by
        intro i
        cases i
        · rfl
        · exact (isEmpty_eq_of_related hrelated).symm
      cases hnone : (pairs .left).isEmpty with
      | true =>
        left
        intro i
        simp only [(hpairs i).2, bind, Except.bind, List.isEmpty_map, hempty i, hnone, if_true]
        exact ⟨_, rfl⟩
      | false =>
        right
        refine ⟨entity, pairs, hrelated, fun i => ⟨(hpairs i).1, ?_⟩⟩
        simp only [(hpairs i).2, bind, Except.bind, List.isEmpty_map, hempty i, hnone]
        rfl

namespace StatementPair

variable {p : UpdateParts Side} (d : StatementPair t s .update)
  (hsome : ∀ i, UpdateShape.ofText? (masked i s) = some (Found.result p i))

include d hsome

/-- A value of an UPDATE statement is in its condition, or stands after an equals sign. -/
theorem place_update (place : Span) (h : holdsValue (text .left s) place = true) :
    (∃ q ∈ p.filter.toList, place.isIn ((q.extent .left).span (masked .left s)) = true) ∨
    endsAfterEquals ((text .left s).slice
      ⟨((p.assignments.extent .left).span (masked .left s)).start, place.start⟩) = true := by
  simp only [holdsValue, d.word, mask_text d.proper, hsome] at h
  obtain hfilter | hassignment := Bool.or_eq_true_iff.1 h
  · exact .inl (exists_part_of_any hfilter)
  · exact .inr (Bool.and_eq_true_iff.1 hassignment).2

theorem valueItems_update (hassignments : p.assignments.body.Proper)
    (hread : ∀ i, readPart (text i s) (p.assignments.extent i) = text i p.assignments.body)
    (i : Side) :
    (t i).valueItems =
      Keyed.ofList ((p.assignments.body.items.map (text i)).filterMap splitAssignment?) := by
  rw [d.valueItems_eq]
  simp only [Statement.valueItems, d.word, mask_text d.proper, hsome, Found.result, hread i,
    splitList_text hassignments]
  rfl

end StatementPair

theorem alike_update (d : StatementPair t s .update) :
    Alike t fun i => readOperation checks (text i s) .update := by
  have hmask := mask_text d.proper
  obtain hnone | ⟨p, harranged, hsome⟩ := reads_updateShape.none_or_some s
  · left
    intro i
    refine ⟨.invalid .update (text i s) .shape, ?_⟩
    simp only [readOperation, readUpdate, hmask, hnone]
    rfl
  · obtain ⟨hitems, hproper, hpart⟩ :=
      updateParts_text d.proper d.varies harranged (d.place_update hsome)
    have hfilter : ∀ q ∈ p.filter, q ∈ Found.parts p := by
      intro q hq
      simp [Found.parts, Option.mem_def.1 hq]
    have hcondition : ∀ i, Statement.condition? (text i s) = optionalText s p.filter i := by
      intro i
      simp only [Statement.condition?, d.word, hmask, hsome]
      rfl
    have hread := fun i => readUpdate_text d.proper hsome hproper (hpart i)
    obtain hfault | ⟨entity, pairs, hrelated, hpairs⟩ := updateFrame_cases hitems
    · left
      intro i
      obtain ⟨fault, hfault⟩ := hfault i
      refine ⟨.invalid .update (text i s) fault, ?_⟩
      simp only [readOperation, hread i, hfault]
      rfl
    · have hvalues : ∀ i, (t i).valueItems = Keyed.ofList (pairs i) := by
        intro i
        rw [d.valueItems_update hsome hproper hpart, (hpairs i).1]
      right
      refine ⟨fun i => .update ⟨entity, Assignments.ofList ((pairs i).map
        fun (column, item) => (column, Value.ofLiteral item)),
        (optionalText s p.filter i).bind readFilter⟩, fun i => ?_, ?_⟩
      · simp only [readOperation, hread i, (hpairs i).2]
        rfl
      · exact {
          operation := rfl
          entity := rfl
          fields := rfl
          orderBy := rfl
          limit := rfl
          columns := columns_eq_of_related hrelated
          values₁ := by rw [hvalues]; exact entries_ofList_map_ofLiteral _
          values₂ := by rw [hvalues]; exact entries_ofList_map_ofLiteral _
          items := by rw [hvalues, hvalues]; exact Keyed.related_ofList hrelated
          filter := d.sameFilter harranged hfilter hcondition }

end EntityQuery
