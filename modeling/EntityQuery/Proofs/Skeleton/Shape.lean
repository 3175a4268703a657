-- SUMMARY: The shapes of statements on the masks of texts with a common skeleton.
import EntityQuery.Proofs.Skeleton.Clause
import EntityQuery.Statement.Shape

/-!
# Shapes of masked statements

Each of the four shapes fits the masks of all texts of a skeleton or none of
them, and its parts are the same parts of the skeleton in all of them.
-/

namespace EntityQuery

open Statement

variable {ι α D : Type} [Found ι D α] {k : Text → Option α}

/-! ## Parts of statements -/

/-- The parts of a SELECT statement in a skeleton. -/
structure SelectParts (ι : Type) where
  fields : Part ι
  entity : Name ι
  filter : Option (Part ι)
  order : Option (Part ι)
  limit : Option (Part ι)

/-- The parts of an INSERT statement in a skeleton. -/
structure InsertParts (ι : Type) where
  entity : Name ι
  columns : Part ι
  values : Part ι

/-- The parts of an UPDATE statement in a skeleton. -/
structure UpdateParts (ι : Type) where
  entity : Name ι
  assignments : Part ι
  filter : Option (Part ι)

/-- The parts of a DELETE statement in a skeleton. -/
structure DeleteParts (ι : Type) where
  entity : Name ι
  filter : Option (Part ι)

namespace Found

instance : Found ι (SelectParts ι) SelectShape where
  result p i := ⟨p.fields.extent i, p.entity.part.extent i, p.filter.map (·.extent i),
    p.order.map (·.extent i), p.limit.map (·.extent i)⟩
  parts p := p.fields :: p.entity.part :: (p.filter.toList ++ p.order.toList ++ p.limit.toList)

instance : Found ι (InsertParts ι) InsertShape where
  result p i := ⟨p.entity.part.extent i, p.columns.extent i, p.values.extent i⟩
  parts p := [p.entity.part, p.columns, p.values]

instance : Found ι (UpdateParts ι) UpdateShape where
  result p i := ⟨p.entity.part.extent i, p.assignments.extent i, p.filter.map (·.extent i)⟩
  parts p := p.entity.part :: p.assignments :: p.filter.toList

instance : Found ι (DeleteParts ι) DeleteShape where
  result p i := ⟨p.entity.part.extent i, p.filter.map (·.extent i)⟩
  parts p := p.entity.part :: p.filter.toList

end Found

namespace Skeleton

/-! ## Keywords -/

theorem reads_readNoise {keyword : Text} (h : '\'' ∉ keyword) (hk : Reads ι D k) :
    Reads ι D (readNoise keyword k) := by
  intro s
  refine Uniform.orElse ?_ (hk s)
  have hstart : Remains s fun i =>
      (Text.afterKeyword? keyword (masked i s)).bind fun t => t.afterBlanks? :=
    (remains_afterKeyword h s).bind remains_afterBlanks
  simpa only [Option.bind_eq_bind, Option.bind_assoc] using hstart.uniform_bind hk

theorem remains_afterLeading {keyword : Text} (h : '\'' ∉ keyword) (s : Skeleton ι) :
    Remains s fun i => afterLeading? keyword (masked i s) :=
  (remains_afterKeyword h s).bind remains_afterBlanks

/-! ## SELECT -/

/-- The limit ends at the same place in all texts. -/
theorem uniform_limit_stop (s : Skeleton ι) :
    Uniform (fun stop : Skeleton ι => stop <:+ s) (fun stop i => masked i stop) fun i =>
      readLongest (!isBlank ·) (fun t => (readEnd t).map fun _ => t) (masked i s) := by
  refine uniform_readLongest (P := fun s stop => stop <:+ s) (fun _ => ⟨rfl, ?_⟩)
    (fun s t stop hst h => h.trans hst) (fun s => ?_) s
  · intro c t hc
    simp [blind_readEnd c t hc]
  · exact (reads_readEnd s).map (fun _ => s) (fun _ _ => List.suffix_refl s) fun _ _ i => rfl

theorem reads_readLimit : Reads ι (Part ι) readLimit := by
  intro s
  refine Uniform.bind (remains_afterBlanks s) fun t ht => ?_
  refine Uniform.bind (remains_afterKeyword (by decide) t) fun u hu => ?_
  refine Uniform.bind (remains_afterBlanks u) fun start hstart => ?_
  refine (uniform_limit_stop start).bind fun stop hstop => ?_
  obtain ⟨body, rfl⟩ := hstop
  right
  refine ⟨⟨body, stop⟩, ⟨hstart.trans (hu.trans ht), trivial⟩, fun i => ?_⟩
  simp [Found.result, Part.extent, Part.start]

theorem reads_readLimitAndEnd : Reads ι (Option (Part ι)) readLimitAndEnd := by
  intro s
  refine Uniform.orElse ?_ ?_
  · exact Uniform.map some (reads_readLimit s) (fun d hd => hd) fun d _ i => rfl
  · exact Uniform.map (fun _ : Unit => (none : Option (Part ι))) (reads_readEnd s)
      (fun d hd => hd) fun d _ i => rfl

theorem blind_readLimitAndEnd : Blind readLimitAndEnd := by
  intro c t hc
  simp [readLimitAndEnd, readLimit, afterBlanks_eq_none hc, blind_readEnd c t hc]

theorem reads_readSelectClauses :
    Reads ι (Option (Part ι) × Option (Part ι) × Option (Part ι)) readSelectClauses := by
  refine reads_readOptional (by decide) ?_ (blind_readOptional blind_readLimitAndEnd)
  exact reads_readOptional (by decide) reads_readLimitAndEnd blind_readLimitAndEnd

theorem reads_readSource :
    Reads ι (Name ι × Option (Part ι) × Option (Part ι) × Option (Part ι)) readSource := by
  intro s
  refine Uniform.bind (remains_afterBlanks s) fun t ht => ?_
  refine Uniform.bind (remains_afterLeading (by decide) t) fun u hu => ?_
  refine (uniform_readName u).bind fun n hn => ?_
  refine (reads_readSelectClauses n.after).bind fun d hd => ?_
  right
  refine ⟨(n, d), ⟨?_, hd⟩, fun i => rfl⟩
  exact hn ▸ hu.trans ht

theorem blind_readSource : Blind readSource := by
  intro c t hc
  simp [readSource, afterBlanks_eq_none hc]

theorem reads_selectShape : Reads ι (SelectParts ι) SelectShape.ofText? := by
  intro s
  refine Uniform.bind (remains_afterKeyword (by decide) s) fun t ht => ?_
  refine (reads_readBody reads_readSource blind_readSource t).bind fun d hd => ?_
  obtain ⟨fields, entity, filter, order, limit⟩ := d
  right
  refine ⟨⟨fields, entity, filter, order, limit⟩, ?_, fun i => rfl⟩
  have hparts := Arranged.of_suffix ht hd
  simpa [Found.parts] using hparts

/-! ## INSERT -/

theorem remains_afterBracket {bracket : Char} (h : bracket ≠ '\'') (s : Skeleton ι) :
    Remains s fun i => afterBracket? bracket (masked i s) := by
  simp only [afterBracket?, ← masked_trimStart]
  have hsuffix : s.trimStart <:+ s := List.dropWhile_suffix _
  cases hs : s.trimStart with
  | nil => exact Uniform.absent
  | cons slot t =>
    rw [hs] at hsuffix
    cases slot with
    | literal content =>
      simp only [masked_cons, Slot.masked, List.cons_append, if_neg h.symm]
      exact Uniform.absent
    | char c =>
      simp only [masked_cons, Slot.masked, List.cons_append, List.nil_append]
      split
      · exact Uniform.present ((List.suffix_cons _ t).trans hsuffix)
      · exact Uniform.absent

/-- The columns end at the same place in all texts, for a bracket in a literal is masked. -/
theorem exists_dropWhile_bracket (s : Skeleton ι) :
    ∃ p : Part ι, p.start = s ∧ ∀ i, (masked i s).dropWhile (· != ')') = masked i p.after := by
  induction s with
  | nil => exact ⟨⟨[], []⟩, rfl, fun i => rfl⟩
  | cons slot s ih =>
    obtain ⟨p, hp, hdrop⟩ := ih
    have hlonger : (⟨slot :: p.body, p.after⟩ : Part ι).start = slot :: s :=
      congrArg (slot :: ·) hp
    cases slot with
    | literal content =>
      refine ⟨⟨.literal content :: p.body, p.after⟩, hlonger, fun i => ?_⟩
      rw [masked_cons, dropWhile_skip ⟨rfl, rfl⟩ (fun c hc => eq_of_mem_masked_literal hc), hdrop i]
    | char c =>
      by_cases hc : c = ')'
      · subst hc
        exact ⟨⟨[], _⟩, rfl, fun i => rfl⟩
      · refine ⟨⟨.char c :: p.body, p.after⟩, hlonger, fun i => ?_⟩
        rw [masked_cons, ← hdrop i]
        exact List.dropWhile_cons_of_pos (by simpa using hc)

theorem reads_readValuesEnd : Reads ι Unit readValuesEnd := by
  intro s
  cases s with
  | nil => exact Uniform.absent
  | cons slot s =>
    cases slot with
    | literal content => exact Uniform.absent
    | char c =>
      by_cases hc : c = ')'
      · subst hc
        exact (reads_readEnd s).mono fun _ hd => hd
      · left
        intro i
        simp [Slot.masked, readValuesEnd, hc]

theorem blind_readValuesEnd : Blind readValuesEnd := by
  intro c t hc
  obtain rfl | rfl := hc <;> rfl

theorem reads_readInsertion : Reads ι (InsertParts ι) readInsertion := by
  intro s
  refine (uniform_readName s).bind fun n hn => ?_
  refine Uniform.bind (remains_afterBracket (by decide) n.after) fun start hstart => ?_
  obtain ⟨columns, rfl, hcolumns⟩ := exists_dropWhile_bracket start
  simp only [hcolumns]
  refine Uniform.bind (remains_afterBracket (by decide) columns.after) fun t ht => ?_
  simp only [← masked_trimStart]
  refine Uniform.bind (remains_afterKeyword (by decide) t.trimStart) fun u hu => ?_
  refine Uniform.bind (remains_afterBracket (by decide) u) fun v hv => ?_
  refine (upTo_readUpToLast reads_readValuesEnd blind_readValuesEnd v).bind fun d hd => ?_
  obtain ⟨values, u⟩ := d
  obtain ⟨rfl, -⟩ := hd
  have htrim : t.trimStart <:+ t := List.dropWhile_suffix _
  right
  refine ⟨⟨n, columns, values⟩, ⟨?_, hstart, ?_, trivial⟩, fun i => rfl⟩
  · exact hn ▸ List.suffix_refl _
  · exact hv.trans (hu.trans (htrim.trans ht))

theorem reads_insertShape : Reads ι (InsertParts ι) InsertShape.ofText? := by
  intro s
  exact (remains_afterLeading (by decide) s).uniform_bind
    (reads_readNoise (by decide) reads_readInsertion)

/-! ## UPDATE -/

theorem reads_readFilterAndEnd : Reads ι (Option (Part ι)) readFilterAndEnd := by
  intro s
  refine Uniform.map Prod.fst (reads_readOptional (by decide) reads_readEnd blind_readEnd s) ?_
    fun d _ i => rfl
  intro d hd
  simpa [Found.parts] using hd

theorem blind_readFilterAndEnd : Blind readFilterAndEnd := by
  intro c t hc
  simp [readFilterAndEnd, blind_readOptional blind_readEnd c t hc]

theorem reads_updateShape : Reads ι (UpdateParts ι) UpdateShape.ofText? := by
  intro s
  refine Uniform.bind (remains_afterLeading (by decide) s) fun t ht => ?_
  refine (uniform_readName t).bind fun n hn => ?_
  have hclause : Reads ι (Part ι × Option (Part ι)) (readClause ["set".toList] readFilterAndEnd) :=
    reads_readClause (by decide) reads_readFilterAndEnd blind_readFilterAndEnd
  refine (hclause n.after).bind fun d hd => ?_
  obtain ⟨assignments, filter⟩ := d
  right
  refine ⟨⟨n, assignments, filter⟩, ⟨hn ▸ ht, ?_⟩, fun i => rfl⟩
  simpa [Found.parts] using hd

/-! ## DELETE -/

theorem reads_readDeletion : Reads ι (DeleteParts ι) readDeletion := by
  intro s
  refine (uniform_readName s).bind fun n hn => ?_
  refine (reads_readFilterAndEnd n.after).bind fun filter hfilter => ?_
  right
  refine ⟨⟨n, filter⟩, ⟨hn ▸ List.suffix_refl _, ?_⟩, fun i => rfl⟩
  simpa [Found.parts] using hfilter

theorem reads_deleteShape : Reads ι (DeleteParts ι) DeleteShape.ofText? := by
  intro s
  exact (remains_afterLeading (by decide) s).uniform_bind
    (reads_readNoise (by decide) reads_readDeletion)

end Skeleton

end EntityQuery
