-- SUMMARY: The parts of every statement end between characters and outside of literals.
import EntityQuery.Proofs.Skeleton.Outline
import EntityQuery.Proofs.Statement.Part
import EntityQuery.Proofs.Text.Slice

/-!
# Where parts are cut out

The parts of a statement are found in its mask and read from the statement. In
the mask a character of a literal can be several characters, so a place between
two characters of the mask may lie inside of a character of the statement. The
shapes never end a part at such a place, whatever the statement is.
-/

namespace EntityQuery

open Skeleton

namespace Statement

/-! ## Parts that are cut out -/

/-- The ends of a part lie between characters of the statement, in order and outside of
    literals. -/
structure Extent.IsCut (statement : Text) (e : Extent) : Prop where
  start_boundary : statement.IsBoundary (e.span (mask statement)).start
  stop_boundary : statement.IsBoundary (e.span (mask statement)).stop
  start_le_stop : (e.span (mask statement)).start ≤ (e.span (mask statement)).stop
  start_outside : ¬ statement.InsideLiteral (e.span (mask statement)).start
  stop_outside : ¬ statement.InsideLiteral (e.span (mask statement)).stop

/-- A part that is cut out can be sliced out. -/
theorem Extent.IsCut.slice? {statement : Text} {e : Extent} (h : e.IsCut statement) :
    statement.slice? (e.span (mask statement)) = some (readPart statement e) :=
  Text.slice?_eq_slice h.start_boundary h.stop_boundary h.start_le_stop

variable {statement : Text} {s : Outline}

/-- A part of an outline is where its text is. -/
theorem span_extent_of_outlines {before : Outline} {p : Part Unit}
    (h : Outlines (before ++ p.start) statement) :
    (p.extent ()).span (mask statement) =
      ⟨(text () before).byteSize, (text () before).byteSize + (text () p.body).byteSize⟩ := by
  rw [← h.masked_eq, Part.span_extent_append]

theorem isCut_extent (h : Outlines s statement) {p : Part Unit} (hp : p.start <:+ s) :
    (p.extent ()).IsCut statement := by
  obtain ⟨before, rfl⟩ := hp
  have hspan := span_extent_of_outlines h
  have htext : text () before ++ text () p.start = statement := by
    rw [← text_append, h.text_eq]
  have hbody : text () (before ++ p.body) ++ text () p.after = statement := by
    rw [← text_append, List.append_assoc, ← h.text_eq]
    rfl
  have hsize : (text () (before ++ p.body)).byteSize =
      (text () before).byteSize + (text () p.body).byteSize := by
    rw [text_append, Text.byteSize_append]
  constructor
  · exact ⟨_, _, htext.symm, congrArg Span.start hspan.symm⟩
  · exact ⟨_, _, hbody.symm, hsize.trans (congrArg Span.stop hspan.symm)⟩
  · rw [hspan]
    exact Nat.le_add_right _ _
  · rw [hspan]
    have hout := Text.not_insideLiteral (h.cut before p.start rfl)
    rwa [htext] at hout
  · rw [hspan]
    have hout := Text.not_insideLiteral (h.cut (before ++ p.body) p.after (by
      rw [List.append_assoc, Part.start]))
    rwa [hbody, hsize] at hout

theorem readPart_extent_of_outlines (h : Outlines s statement) {p : Part Unit}
    (hp : p.start <:+ s) : readPart statement (p.extent ()) = text () p.body := by
  obtain ⟨rfl, hmask, -⟩ := h
  exact readPart_extent_of_mask hmask.symm hp

/-- What a reader finds in the mask of a statement are parts of an outline of the statement. -/
theorem exists_found {α D : Type} [Found Unit D α] {k : Text → Option α} (hk : Reads Unit D k)
    {found : α} (h : k (mask statement) = some found) :
    ∃ (s : Outline) (d : D), Outlines s statement ∧ Arranged s (Found.parts d) ∧
      found = Found.result d () := by
  obtain ⟨s, hs⟩ := exists_outlines statement
  rw [← hs.masked_eq] at h
  obtain hnone | ⟨d, hd, hsome⟩ := hk.none_or_some s
  · rw [hnone ()] at h
    cases h
  · rw [hsome ()] at h
    cases h
    exact ⟨s, d, hs, hd, rfl⟩

/-! ## The parts of the four shapes -/

/-- The name of the entity and the parts that are read from a SELECT statement. -/
def SelectShape.extents (shape : SelectShape) : List Extent :=
  shape.fields :: shape.entity :: (shape.filter.toList ++ shape.order.toList ++ shape.limit.toList)

/-- The name of the entity and the parts that are read from an INSERT statement. -/
def InsertShape.extents (shape : InsertShape) : List Extent :=
  [shape.entity, shape.columns, shape.values]

/-- The name of the entity and the parts that are read from an UPDATE statement. -/
def UpdateShape.extents (shape : UpdateShape) : List Extent :=
  shape.entity :: shape.assignments :: shape.filter.toList

/-- The name of the entity and the parts that are read from a DELETE statement. -/
def DeleteShape.extents (shape : DeleteShape) : List Extent :=
  shape.entity :: shape.filter.toList

theorem forall_isCut {ps : List (Part Unit)} (h : Outlines s statement) (hps : Arranged s ps) :
    ∀ e ∈ ps.map (Part.extent ()), e.IsCut statement := by
  intro e he
  obtain ⟨p, hp, rfl⟩ := List.mem_map.1 he
  exact isCut_extent h (hps.start_suffix p hp)

/-- The name of an entity is the same in the statement and in its mask. -/
theorem text_extent_eq_readPart (h : Outlines s statement) {n : Name Unit}
    (hn : n.part.start <:+ s) :
    (n.part.extent ()).text = readPart statement (n.part.extent ()) := by
  rw [readPart_extent_of_outlines h hn, Name.text_extent, Name.part, text_map_char]

/-- The parts of a shape are cut out if they are what a reader of masked statements finds. -/
theorem isCut_shape {α D : Type} [Found Unit D α] {k : Text → Option α} (hk : Reads Unit D k)
    {extents : α → List Extent} {entity : α → Extent} {name : D → Name Unit}
    (hextents : ∀ d : D, extents (Found.result d ()) = (Found.parts d).map (Part.extent ()))
    (hentity : ∀ d : D, entity (Found.result d ()) = (name d).part.extent ())
    (hname : ∀ d : D, (name d).part ∈ (Found.parts d : List (Part Unit))) {shape : α}
    (h : k (mask statement) = some shape) :
    (∀ e ∈ extents shape, e.IsCut statement) ∧
      (entity shape).text = readPart statement (entity shape) := by
  obtain ⟨s, d, hs, hd, rfl⟩ := exists_found hk h
  constructor
  · rw [hextents]
    exact forall_isCut hs hd
  · rw [hentity]
    exact text_extent_eq_readPart hs (hd.start_suffix _ (hname d))

theorem isCut_selectShape {shape : SelectShape}
    (h : SelectShape.ofText? (mask statement) = some shape) :
    (∀ e ∈ shape.extents, e.IsCut statement) ∧
      shape.entity.text = readPart statement shape.entity := by
  refine isCut_shape reads_selectShape (fun d => ?_) (fun _ => rfl) (fun d => ?_) h
  · obtain ⟨fields, entity, filter, order, limit⟩ := d
    cases filter <;> cases order <;> cases limit <;> rfl
  · exact List.mem_cons_of_mem _ List.mem_cons_self

theorem isCut_insertShape {shape : InsertShape}
    (h : InsertShape.ofText? (mask statement) = some shape) :
    (∀ e ∈ shape.extents, e.IsCut statement) ∧
      shape.entity.text = readPart statement shape.entity :=
  isCut_shape reads_insertShape (fun _ => rfl) (fun _ => rfl) (fun _ => List.mem_cons_self) h

theorem isCut_updateShape {shape : UpdateShape}
    (h : UpdateShape.ofText? (mask statement) = some shape) :
    (∀ e ∈ shape.extents, e.IsCut statement) ∧
      shape.entity.text = readPart statement shape.entity := by
  refine isCut_shape reads_updateShape (fun d => ?_) (fun _ => rfl) (fun _ => List.mem_cons_self) h
  obtain ⟨entity, assignments, filter⟩ := d
  cases filter <;> rfl

theorem isCut_deleteShape {shape : DeleteShape}
    (h : DeleteShape.ofText? (mask statement) = some shape) :
    (∀ e ∈ shape.extents, e.IsCut statement) ∧
      shape.entity.text = readPart statement shape.entity := by
  refine isCut_shape reads_deleteShape (fun d => ?_) (fun _ => rfl) (fun _ => List.mem_cons_self) h
  obtain ⟨entity, filter⟩ := d
  cases filter <;> rfl

end Statement

end EntityQuery
