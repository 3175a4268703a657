-- SUMMARY: The shapes of statements that differ in the blanks before the semicolon.
import EntityQuery.Proofs.Ending.Reader

/-!
# Shapes before the semicolon

Each of the four shapes fits all statements that differ in their endings or
none of them, and its parts are at the same places. That is so unless the
statements end with the keywords of a clause and some of them have two blanks
to spare while others have not.
-/

namespace EntityQuery.Statement

variable {ι : Type} {m : Text} {w : ι → Text}

/-! ## Names -/

theorem isNameChar_of_mem_ending {b : Text} (hb : b.isBlank = true) {c : Char}
    (hc : c ∈ ending b) : isNameChar c = false := by
  simpa using forall_mem_ending (p := fun c => !isNameChar c) hb (by decide) (by decide) c hc

theorem dropWhile_append_ending {p : Char → Bool} {b : Text} (hp : ∀ c ∈ ending b, p c = false)
    (v : Text) : (v ++ ending b).dropWhile p = v.dropWhile p ++ ending b := by
  rw [List.dropWhile_append]
  split
  · next hempty =>
    rw [List.isEmpty_iff.1 hempty, List.nil_append]
    cases hb : ending b with
    | nil => rfl
    | cons c rest => exact List.dropWhile_cons_of_neg (by simp [hp c (hb ▸ List.mem_cons_self)])
  · rfl

theorem readName_ending {b : Text} (hb : b.isBlank = true) : readName (ending b) = none := by
  cases hend : ending b with
  | nil => rfl
  | cons c rest =>
    have hc := isNameChar_of_mem_ending hb (hend ▸ List.mem_cons_self : c ∈ ending b)
    rw [isNameChar, Bool.or_eq_false_iff] at hc
    simp [readName, hc.1]

theorem readsAlike_readName (h : Endings m w) :
    ReadsAlike m w (Both (Within m w) (Rests m w)) readName := by
  intro u hu
  cases u with
  | nil =>
    simp only [List.nil_append, readName_ending (h.blank _)]
    exact Uniform.absent
  | cons c u =>
    have hdrop (i : ι) := dropWhile_append_ending (fun _ => isNameChar_of_mem_ending (h.blank i)) u
    simp only [List.cons_append, readName, hdrop]
    split
    · have hrest : u.dropWhile isNameChar <:+ c :: u :=
        (List.dropWhile_suffix _).trans (List.suffix_cons c u)
      exact Uniform.present
        ⟨⟨c :: u, _, hrest, hu, fun _ => rfl⟩, ⟨_, hrest.trans hu, fun _ => rfl⟩⟩
    · exact Uniform.absent

/-! ## SELECT -/

/-- The parts of SELECT statements that differ in their endings. -/
structure SelectShape.Alike (m : Text) (w : ι → Text) (shape : ι → SelectShape) : Prop where
  fields : Within m w fun i => (shape i).fields
  entity : Within m w fun i => (shape i).entity
  filter : Statement.Alike (Placed m w) fun i => (shape i).filter
  order : Statement.Alike (Placed m w) fun i => (shape i).order
  limit : Statement.Alike (Within m w) fun i => (shape i).limit

theorem readLongest_limit_ending {b : Text} (hb : b.isBlank = true) :
    readLongest (!isBlank ·) (fun t => (readEnd t).map fun _ => t) (ending b) = none := by
  cases b with
  | nil => rfl
  | cons c b =>
    have hc := (Bool.and_eq_true_iff.1 hb).1
    simp [ending, readLongest, hc]

theorem readsAlike_readLimit (h : Endings m w) : ReadsAlike m w (Within m w) readLimit := by
  refine ReadsAlike.afterBlanks h ?_ rfl
  refine ReadsAlike.afterKeyword h (by decide) ?_
  refine ReadsAlike.afterBlanks h (fun u hu => ?_) rfl
  by_cases hne : u = []
  · subst hne
    simp only [List.nil_append, readLongest_limit_ending (h.blank _)]
    exact Uniform.absent
  · have hstop : Alike (Rests u w) fun i =>
        readLongest (!isBlank ·) (fun t => (readEnd t).map fun _ => t) (u ++ ending (w i)) := by
      have hu' : Endings u w := ⟨h.tight.of_suffix hu, h.blank⟩
      have hend : ReadsAlike u w (Rests u w) fun t => (readEnd t).map fun _ => t :=
        fun v hv => (readsAlike_readEnd hu' v hv).map fun _ _ => ⟨v, hv, fun _ => rfl⟩
      refine alike_readLongest (fun v _ hv => hend v hv) (fun c hc _ => ?_) hne (List.suffix_refl u)
      simp only [readLongest_limit_ending (h.blank _)]
      exact hend [] List.nil_suffix
    refine hstop.bind fun stop hstop => ?_
    obtain ⟨v, hv, heq⟩ := hstop
    simp only [heq]
    exact Uniform.present ⟨u, v, hv, hu, fun _ => rfl⟩

theorem readsAlike_readLimitAndEnd (h : Endings m w) :
    ReadsAlike m w (Alike (Within m w)) readLimitAndEnd :=
  ReadsAlike.orElse
    (fun u hu => (readsAlike_readLimit h u hu).map fun _ he => Uniform.present he)
    fun u hu => (readsAlike_readEnd h u hu).map fun _ _ => Uniform.absent

theorem atEnd_readLimitAndEnd : AtEnd readLimitAndEnd (some none) where
  nil_eq := rfl
  ending_eq b hb := by
    have hlimit : readLimit (ending b) = none := bind_afterBlanks?_ending rfl hb
    rw [readLimitAndEnd, hlimit, atEnd_readEnd.ending_eq b hb]
    rfl

theorem readsAlike_readSelectClauses (h : Endings m w)
    (hwhere : EndsWith ["where".toList] m → LongAlike w)
    (horder : EndsWith ["order".toList, "by".toList] m → LongAlike w) :
    ReadsAlike m w (Both (Alike (Placed m w)) (Both (Alike (Placed m w)) (Alike (Within m w))))
      readSelectClauses := by
  have hend : AtEnd (readOptional ["order".toList, "by".toList] readLimitAndEnd) _ :=
    atEnd_readOptional atEnd_readLimitAndEnd (by decide) (by decide)
  refine readsAlike_readOptional h ?_ hend (by decide) (by decide) hwhere
  exact readsAlike_readOptional h (readsAlike_readLimitAndEnd h) atEnd_readLimitAndEnd (by decide)
    (by decide) horder

theorem readsAlike_readSource (h : Endings m w)
    (hwhere : EndsWith ["where".toList] m → LongAlike w)
    (horder : EndsWith ["order".toList, "by".toList] m → LongAlike w) :
    ReadsAlike m w (Both (Within m w)
      (Both (Alike (Placed m w)) (Both (Alike (Placed m w)) (Alike (Within m w))))) readSource := by
  refine ReadsAlike.afterBlanks h ?_ rfl
  refine ReadsAlike.afterLeading h (by decide) (fun u hu => ?_) rfl
  refine (readsAlike_readName h u hu).bind fun r hr => ?_
  obtain ⟨hentity, v, hv, hrest⟩ := hr
  simp only [hrest]
  refine (readsAlike_readSelectClauses h hwhere horder v hv).bind fun clauses hclauses => ?_
  exact Uniform.present ⟨hentity, hclauses⟩

theorem readsAlike_selectShape (h : Endings m w)
    (hwhere : EndsWith ["where".toList] m → LongAlike w)
    (horder : EndsWith ["order".toList, "by".toList] m → LongAlike w) :
    ReadsAlike m w (SelectShape.Alike m w) SelectShape.ofText? := by
  have hend : AtEnd readSource none := ⟨rfl, fun _ hb => bind_afterBlanks?_ending rfl hb⟩
  refine ReadsAlike.afterKeyword h (by decide) fun u hu => ?_
  by_cases hne : u = []
  · subst hne
    simp only [List.nil_append, readBody_ending hend (h.blank _), Option.map_none, ite_self]
    exact Uniform.absent
  · refine (alike_readBody h (readsAlike_readSource h hwhere horder) hend hne hu).bind fun r hr => ?_
    obtain ⟨hfields, hentity, hfilter, horder, hlimit⟩ := hr
    exact Uniform.present ⟨hfields, hentity, hfilter, horder, hlimit⟩

/-! ## INSERT -/

/-- The parts of INSERT statements that differ in their endings. -/
structure InsertShape.Alike (m : Text) (w : ι → Text) (shape : ι → InsertShape) : Prop where
  entity : Within m w fun i => (shape i).entity
  columns : Within m w fun i => (shape i).columns
  values : Within m w fun i => (shape i).values

theorem bracket_notMem_ending {b : Text} (hb : b.isBlank = true) : ')' ∉ ending b := fun hmem => by
  obtain hblank | heq := mem_ending hb hmem
  · exact absurd hblank (by decide)
  · exact absurd heq (by decide)

theorem readsAlike_afterBracket (h : Endings m w) {bracket : Char} (hbracket : bracket ≠ ';') :
    ReadsAlike m w (Rests m w) (afterBracket? bracket) := by
  intro u hu
  by_cases hne : u = []
  · subst hne
    simp only [List.nil_append, afterBracket?, trimStart_ending (h.blank _), if_neg hbracket.symm]
    exact Uniform.absent
  · have hblank := (h.tight.of_suffix hu).isBlank_eq_false hne
    have hsuffix : u.trimStart <:+ u := List.dropWhile_suffix _
    simp only [afterBracket?, Text.trimStart_append_of_not_isBlank hblank]
    cases hstart : u.trimStart with
    | nil => exact absurd (Text.trimStart_eq_nil_iff.1 hstart) (by simp [hblank])
    | cons c v =>
      rw [hstart] at hsuffix
      simp only [List.cons_append]
      split
      · exact Uniform.present ⟨v, (List.suffix_cons c v).trans (hsuffix.trans hu), fun _ => rfl⟩
      · exact Uniform.absent

/-- Columns in front of a closing bracket end at the first one. Without one they do not end. -/
theorem alike_columns (h : Endings m w) (u : Text) :
    (∀ i, (u ++ ending (w i)).dropWhile (· != ')') = []) ∨
      Rests u w fun i => (u ++ ending (w i)).dropWhile (· != ')') := by
  by_cases hmem : ')' ∈ u
  · right
    refine ⟨u.dropWhile (· != ')'), List.dropWhile_suffix _, fun i => ?_⟩
    have hne : u.dropWhile (· != ')') ≠ [] := fun hnil => by
      simpa using List.dropWhile_eq_nil_iff.1 hnil _ hmem
    simp only [List.dropWhile_append, if_neg (mt List.isEmpty_iff.1 hne)]
  · left
    intro i
    refine List.dropWhile_eq_nil_iff.2 fun c hc => ?_
    have hnot : ')' ∉ u ++ ending (w i) := by
      simp [hmem, bracket_notMem_ending (h.blank i)]
    simpa using ne_of_mem_of_not_mem hc hnot

/-- The values end at the same place. -/
theorem alike_values (h : Endings m w) {u : Text} (hu : u <:+ m) :
    Alike (Both (Rests u w) fun _ => True) fun i =>
      readUpToLast readValuesEnd (u ++ ending (w i)) := by
  induction u with
  | nil =>
    simp only [List.nil_append,
      readUpToLast_of_bracket_notMem (bracket_notMem_ending (h.blank _))]
    exact Uniform.absent
  | cons c u ih =>
    have hsuffix := List.suffix_cons c u
    simp only [List.cons_append, readUpToLast]
    refine Uniform.orElse ?_ ?_
    · exact (ih (hsuffix.trans hu)).mono fun r hr => hr.imp_left (Rests.of_suffix hsuffix)
    · by_cases hc : c = ')'
      · subst hc
        exact (readsAlike_readEnd h u (hsuffix.trans hu)).map fun _ _ =>
          ⟨⟨')' :: u, List.suffix_refl _, fun _ => rfl⟩, trivial⟩
      · left
        intro i
        simp [readValuesEnd, hc]

theorem readsAlike_readInsertion (h : Endings m w) :
    ReadsAlike m w (InsertShape.Alike m w) readInsertion := by
  have hkeyword : Text.IsKeyword "values".toList := by decide
  intro u hu
  refine (readsAlike_readName h u hu).bind fun r hr => ?_
  obtain ⟨hentity, v, hv, hrest⟩ := hr
  simp only [hrest]
  refine (readsAlike_afterBracket h (by decide) v hv).bind_rests fun start hstart => ?_
  obtain hnil | ⟨stop, hstop, heq⟩ := alike_columns h start
  · simp only [hnil]
    exact Uniform.absent
  · simp only [heq]
    have hclose : ')' ≠ ';' := by decide
    have hafter := readsAlike_afterBracket h hclose stop (hstop.trans hstart)
    refine hafter.bind_rests fun t ht => ?_
    refine ((readsAlike_afterKeyword h hkeyword).trimStart h rfl t ht).bind_rests fun t ht => ?_
    refine (readsAlike_afterBracket h (by decide) t ht).bind_rests fun values hvalues => ?_
    refine (alike_values h hvalues).bind fun r hr => ?_
    obtain ⟨⟨last, hlast, hend⟩, -⟩ := hr
    exact Uniform.present ⟨hentity, ⟨start, stop, hstop, hstart, fun _ => rfl⟩,
      ⟨values, last, hlast, hvalues, fun i => by simp [hend]⟩⟩

theorem readsAlike_insertShape (h : Endings m w) :
    ReadsAlike m w (InsertShape.Alike m w) InsertShape.ofText? :=
  ((readsAlike_readInsertion h).readNoise h (by decide) rfl).afterLeading h (by decide) rfl

/-! ## DELETE -/

/-- The parts of DELETE statements that differ in their endings. -/
structure DeleteShape.Alike (m : Text) (w : ι → Text) (shape : ι → DeleteShape) : Prop where
  entity : Within m w fun i => (shape i).entity
  filter : Statement.Alike (Placed m w) fun i => (shape i).filter

theorem readsAlike_readFilterAndEnd (h : Endings m w)
    (hwhere : EndsWith ["where".toList] m → LongAlike w) :
    ReadsAlike m w (Alike (Placed m w)) readFilterAndEnd := by
  intro u hu
  have hread :=
    readsAlike_readOptional h (readsAlike_readEnd h) atEnd_readEnd (by decide) (by decide) hwhere
  exact (hread u hu).map fun _ hr => hr.1

theorem atEnd_readFilterAndEnd : AtEnd readFilterAndEnd (some none) := by
  have hend : AtEnd (readOptional ["where".toList] readEnd) _ :=
    atEnd_readOptional atEnd_readEnd (by decide) (by decide)
  constructor
  · rfl
  · intro b hb
    rw [readFilterAndEnd, hend.ending_eq b hb]
    rfl

theorem readsAlike_readDeletion (h : Endings m w)
    (hwhere : EndsWith ["where".toList] m → LongAlike w) :
    ReadsAlike m w (DeleteShape.Alike m w) readDeletion := by
  intro u hu
  refine (readsAlike_readName h u hu).bind fun r hr => ?_
  obtain ⟨hentity, v, hv, hrest⟩ := hr
  simp only [hrest]
  refine (readsAlike_readFilterAndEnd h hwhere v hv).bind fun filter hfilter => ?_
  exact Uniform.present ⟨hentity, hfilter⟩

theorem readsAlike_deleteShape (h : Endings m w)
    (hwhere : EndsWith ["where".toList] m → LongAlike w) :
    ReadsAlike m w (DeleteShape.Alike m w) DeleteShape.ofText? :=
  ((readsAlike_readDeletion h hwhere).readNoise h (by decide) rfl).afterLeading h (by decide) rfl

/-! ## UPDATE -/

/-- The parts of UPDATE statements that differ in their endings. -/
structure UpdateShape.Alike (m : Text) (w : ι → Text) (shape : ι → UpdateShape) : Prop where
  entity : Within m w fun i => (shape i).entity
  assignments : Within m w fun i => (shape i).assignments
  filter : Statement.Alike (Placed m w) fun i => (shape i).filter

/-- If there is nothing after the keyword of the assignments, a blank is taken for them, or nothing
    is read. -/
theorem alike_updateShape (h : Endings m w)
    (hwhere : EndsWith ["where".toList] m → LongAlike w) :
    Alike (UpdateShape.Alike m w) (fun i => UpdateShape.ofText? (m ++ ending (w i))) ∨
      ∀ i, ∀ shape ∈ UpdateShape.ofText? (m ++ ending (w i)),
        shape.assignments = lastBlank (w i) := by
  have hread (i : ι) : UpdateShape.ofText? (m ++ ending (w i)) = _ :=
    bind_afterLeading?_append_ending (by decide) rfl (h.blank i) h.tight
  simp only [hread]
  cases hlead : afterLeading? "update".toList m with
  | none => exact .inl Uniform.absent
  | some t =>
    have ht := suffix_of_afterLeading? hlead
    obtain hnone | ⟨r, hr, hname⟩ := (readsAlike_readName h t ht).none_or_some
    · left
      simp only [Option.bind_some, hnone]
      exact Uniform.absent
    · obtain ⟨hentity, u, hu, hrest⟩ := hr
      simp only [hname, Option.bind_eq_bind, Option.bind_some, hrest]
      by_cases hset : u.afterBlanks?.bind (Text.afterPhrase? ["set".toList]) = some []
      · right
        simp only [readClause_append_ending_of_nil h atEnd_readFilterAndEnd (by decide) (by decide)
          hu hset]
        intro i shape hshape
        obtain ⟨clause, hclause, heq⟩ := Option.bind_eq_some_iff.1 hshape
        cases heq
        split at hclause
        · cases hclause
          rfl
        · cases hclause
      · left
        refine (alike_readClause h (readsAlike_readFilterAndEnd h hwhere) atEnd_readFilterAndEnd
          (by decide) (by decide) hu hset).bind fun clause hclause => ?_
        exact Uniform.present ⟨hentity, hclause.1, hclause.2⟩

end EntityQuery.Statement
