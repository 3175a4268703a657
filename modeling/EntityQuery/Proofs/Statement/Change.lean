-- SUMMARY: UPDATE and DELETE statements are read clause by clause as they were written.
import EntityQuery.Proofs.Statement.Assignment
import EntityQuery.Proofs.Statement.Written

/-!
# UPDATE and DELETE statements as they are written

A statement that changes or deletes records names the entity, gives the
assignments if it has any, and ends with the condition. However it is written,
the query that is read from it says the same.
-/

namespace EntityQuery

/-- Keywords with blanks after each of them. -/
def Mark.leading (words : List Text) : List Mark :=
  words.flatMap fun word => [.keyword word, .gap]

namespace Statement

/-! ## What a statement says -/

/-- What is done to the records that a condition selects. -/
inductive Change where
  | set (assignments : List Assignment)
  | remove (withFrom : Bool)

namespace Change

/-- The keywords before the name of the entity. The one after `DELETE` may be left out. -/
def words : Change → List Text
  | set _ => ["update".toList]
  | remove true => ["delete".toList, "from".toList]
  | remove false => ["delete".toList]

/-- How the assignments are written. -/
def assignmentMarks : Change → List Mark
  | set assignments => Mark.clause ["set".toList] (Mark.list (assignments.map Assignment.marks))
  | remove _ => []

/-- How a statement is written up to its condition. -/
def marks (entity : Text) (change : Change) : List Mark :=
  Mark.leading change.words ++ .text entity :: change.assignmentMarks

/-- Whether a change can be written. -/
def Valid : Change → Prop
  | set assignments => assignments ≠ [] ∧ ∀ a ∈ assignments, a.Valid
  | remove _ => True

/-- What is to be read from a statement. -/
def query (entity : Text) (filter : Option Text) : Change → Query
  | set assignments =>
    .update ⟨entity, Assignments.ofList (assignments.map Assignment.pair), filter⟩
  | remove _ => .delete ⟨entity, filter⟩

theorem isKeyword_words : (change : Change) → ∀ word ∈ change.words, Text.IsKeyword word
  | set _ => (by decide : ∀ word ∈ ["update".toList], Text.IsKeyword word)
  | remove true => (by decide : ∀ word ∈ ["delete".toList, "from".toList], Text.IsKeyword word)
  | remove false => (by decide : ∀ word ∈ ["delete".toList], Text.IsKeyword word)

@[simp] theorem filter_query (entity : Text) (filter : Option Text) (change : Change) :
    (change.query entity filter).filter = filter := by
  cases change <;> rfl

end Change

/-! ## Leading keywords -/

section

variable {keyword g : Text} {word : Text}

theorem afterLeading?_append (hword : Text.IsKeyword word)
    (hkeyword : keyword.sameWord word = true) (hg : g.IsGap) {t : Text}
    (ht : Text.trimStart t = t) : afterLeading? word (keyword ++ (g ++ t)) = some t := by
  rw [afterLeading?, Text.afterKeyword?_append (hword.map_foldCase hkeyword), Option.bind_eq_bind,
    Option.bind_some, Text.afterBlanks?_append hg, ht]

variable {α : Type} {k : Text → Option α}

theorem readNoise_eq (word : Text) (k : Text → Option α) (t : Text) :
    readNoise word k t = ((afterLeading? word t).bind k <|> k t) := by
  rw [readNoise, afterLeading?, Option.bind_eq_bind, Option.bind_eq_bind, Option.bind_assoc]

/-- A keyword that may be absent is passed over. -/
theorem readNoise_append {t : Text} {a : α} (hword : Text.IsKeyword word)
    (hkeyword : keyword.sameWord word = true) (hg : g.IsGap) (ht : Text.trimStart t = t)
    (ha : k t = some a) : readNoise word k (keyword ++ (g ++ t)) = some a := by
  rw [readNoise_eq, afterLeading?_append hword hkeyword hg ht, Option.bind_some, ha]
  rfl

/-- A name is not taken for a keyword that may be absent, even if it starts with it. -/
theorem readNoise_name_append {name after : Text} (hname : name.isIdentifier = true)
    (hne : name.map foldCase ≠ word) (hafter : Text.EndsKeyword word after) :
    readNoise word k (name ++ after) = k (name ++ after) := by
  have hnone : afterLeading? word (name ++ after) = none := by
    rw [afterLeading?, Option.bind_eq_bind, Option.bind_eq_none_iff,
      Text.afterKeyword?_append_of_ends hafter]
    intro t ht
    obtain ⟨v, hv, rfl⟩ := Option.map_eq_some_iff.1 ht
    obtain ⟨s, rfl, hs⟩ := Text.afterKeyword?_eq_some.1 hv
    cases v with
    | nil => exact absurd (by simpa using hs) hne
    | cons c v =>
      have hplain := Text.isPlain_of_isIdentifier hname
      exact Text.afterBlanks?_of_head? (by simpa using hplain.isBlank_eq_false (by simp))
  rw [readNoise_eq, hnone]
  rfl

end

variable {words : List Text} {head entity w : Text} {filter : Option Clause}

/-- The name of an entity is not taken for a reserved word. -/
theorem map_foldCase_ne_of_isEntityName (h : entity.IsEntityName) {word : Text}
    (hreserved : ∃ other ∈ reservedWords, other.lower = word)
    (hword : Text.IsKeyword word ∧ 's' ∉ word ∧ 'k' ∉ word) : entity.map foldCase ≠ word := by
  obtain ⟨other, hmem, rfl⟩ := hreserved
  refine map_foldCase_ne hword ?_
  have hnone := List.any_eq_false.1 h.2 other hmem
  simpa [Text.sameWord, hword.1.lower_eq] using hnone

/-- The keywords before the name of an entity are passed over, whether the second one is there or
    not. -/
theorem readNoise_leading_append {α : Type} {k : Text → Option α} {word noise after : Text} {a : α}
    (hwords : words = [word, noise] ∨ words = [word]) (hhead : Written (Mark.leading words) head)
    (hword : Text.IsKeyword word) (hnoise : Text.IsKeyword noise ∧ 's' ∉ noise ∧ 'k' ∉ noise)
    (hreserved : ∃ other ∈ reservedWords, other.lower = noise) (hentity : entity.IsEntityName)
    (hafter : Text.EndsKeyword noise after) (ha : k (entity ++ after) = some a) :
    (afterLeading? word (head ++ (entity ++ after))).bind (readNoise noise k) = some a := by
  have hstart := trimStart_name_append hentity.1 after
  obtain rfl | rfl := hwords
  · obtain ⟨keyword, _, rfl, hkeyword, g, _, rfl, hg, hhead⟩ := hhead
    obtain ⟨second, _, rfl, hsecond, gap, _, rfl, hgap, rfl⟩ := hhead
    have hplain : second.IsPlain :=
      Text.isPlain_of_sameWord (hnoise.1.lower_eq.symm ▸ hnoise.1) hsecond
    have hwhole : keyword ++ (g ++ (second ++ (gap ++ []))) ++ (entity ++ after) =
        keyword ++ (g ++ (second ++ (gap ++ (entity ++ after)))) := by simp
    rw [hwhole, afterLeading?_append hword hkeyword hg (hplain.trimStart_append _),
      Option.bind_some, readNoise_append hnoise.1 hsecond hgap hstart ha]
  · obtain ⟨keyword, _, rfl, hkeyword, g, _, rfl, hg, rfl⟩ := hhead
    rw [List.append_nil, List.append_assoc, afterLeading?_append hword hkeyword hg hstart,
      Option.bind_some, readNoise_name_append hentity.1
        (map_foldCase_ne_of_isEntityName hentity hreserved hnoise) hafter, ha]

/-- A character that is neither a letter nor blank is not in the keywords of a statement. -/
theorem notMem_of_leading (hwords : ∀ word ∈ words, Text.IsKeyword word)
    (hhead : Written (Mark.leading words) head) {x : Char}
    (hx : isBlank x = false ∧ (foldCase x).isLower = false) : x ∉ head := by
  induction words generalizing head with
  | nil => simp [written_nil.1 hhead]
  | cons word words ih =>
    obtain ⟨hword, hwords⟩ := List.forall_mem_cons.1 hwords
    obtain ⟨keyword, _, rfl, hkeyword, g, t, rfl, hg, ht⟩ := hhead
    have hphrase : Written (Mark.phrase [word]) keyword := written_singleton.2 hkeyword
    have hnone := Text.notMem_of_written_phrase (by simpa using hword) hphrase hx
    simp [hnone, Text.notMem_of_isBlank hg.2 hx.1, ih hwords ht]

/-- The operation of a statement is told by the first of its keywords. -/
theorem ofWord?_leading {op : Operation} {word : Text} (hword : word.lower = op.word.lower)
    (hhead : Written (Mark.leading (word :: words)) head) (rest : Text) :
    Operation.ofWord? (leadingWord (head ++ rest)) = some op := by
  obtain ⟨keyword, _, rfl, hkeyword, g, t, rfl, hg, -⟩ := hhead
  rw [List.append_assoc, List.append_assoc]
  exact ofWord?_leadingWord hword hkeyword hg _

/-! ## Shapes -/

/-- The filter is read up to the end. -/
theorem readFilterAndEnd_append
    (hfilter : ∀ c ∈ filter, c.Opens ["where".toList] ∧ IsBody [] c.body) (hw : w.isBlank = true) :
    readFilterAndEnd (Clause.sourceOf filter ++ (w ++ [';'])) =
      some (filter.map (Clause.extent (w ++ [';']))) ∧
    EndsBody (Clause.sourceOf filter ++ (w ++ [';'])) := by
  have hafter := goesOn_end hw
  have hread := readOptional_append hfilter (by decide) opensWith_readEnd (by simp) hafter rfl
    (by decide) (readEnd_append hw)
  refine ⟨by rw [readFilterAndEnd, hread]; rfl, ?_⟩
  exact (goesOn_sourceOf rfl (by decide) (fun c hc => (hfilter c hc).1) hafter).endsBody

/-- The shape of an UPDATE statement. -/
theorem updateShape_append {set : Clause} (hhead : Written (Mark.leading ["update".toList]) head)
    (hentity : entity.isIdentifier = true) (hset : set.Opens ["set".toList])
    (hbody : IsBody ["where".toList] set.body)
    (hfilter : ∀ c ∈ filter, c.Opens ["where".toList] ∧ IsBody [] c.body) (hw : w.isBlank = true)
    {afterSet afterEntity : Text} (hafterSet : afterSet = Clause.sourceOf filter ++ (w ++ [';']))
    (hafterEntity : afterEntity = set.source ++ afterSet) :
    UpdateShape.ofText? (head ++ (entity ++ afterEntity)) =
      some ⟨⟨entity ++ afterEntity, afterEntity⟩, set.extent afterSet,
        filter.map (Clause.extent (w ++ [';']))⟩ := by
  obtain ⟨keyword, _, rfl, hkeyword, g, _, rfl, hg, rfl⟩ := hhead
  obtain ⟨hread, hends⟩ := readFilterAndEnd_append hfilter hw
  rw [← hafterSet] at hread hends
  have hclause := readClause_append hset (by decide) (by decide) hbody opensWith_readFilterAndEnd
    (by decide) hends hread
  have hname := readName_append hentity (hset.endsBody afterSet)
  rw [← hafterEntity] at hclause hname
  rw [List.append_nil, List.append_assoc, UpdateShape.ofText?,
    afterLeading?_append (by decide) hkeyword hg (trimStart_name_append hentity _)]
  simp only [Option.bind_eq_bind, Option.bind_some, hname, hclause]

/-- The shape of a DELETE statement. -/
theorem deleteShape_append {withFrom : Bool}
    (hhead : Written (Mark.leading (Change.remove withFrom).words) head)
    (hentity : entity.IsEntityName)
    (hfilter : ∀ c ∈ filter, c.Opens ["where".toList] ∧ IsBody [] c.body) (hw : w.isBlank = true)
    {afterEntity : Text} (hafterEntity : afterEntity = Clause.sourceOf filter ++ (w ++ [';'])) :
    DeleteShape.ofText? (head ++ (entity ++ afterEntity)) =
      some ⟨⟨entity ++ afterEntity, afterEntity⟩, filter.map (Clause.extent (w ++ [';']))⟩ := by
  obtain ⟨hread, hends⟩ := readFilterAndEnd_append hfilter hw
  rw [← hafterEntity] at hread hends
  have hdeletion : readDeletion (entity ++ afterEntity) =
      some ⟨⟨entity ++ afterEntity, afterEntity⟩, filter.map (Clause.extent (w ++ [';']))⟩ := by
    simp only [readDeletion, readName_append hentity.1 hends, Option.bind_eq_bind, Option.bind_some,
      hread]
  have hwords : (Change.remove withFrom).words = ["delete".toList, "from".toList] ∨
      (Change.remove withFrom).words = ["delete".toList] := by
    cases withFrom <;> simp [Change.words]
  exact readNoise_leading_append hwords hhead (by decide) (by decide) (by decide) hentity
    (hends.endsKeyword (by decide)) hdeletion

/-! ## Statements -/

/-- Up to the name of the entity a statement has no literals. -/
theorem mask_head_append (hwords : ∀ word ∈ words, Text.IsKeyword word)
    (hhead : Written (Mark.leading words) head) (hentity : entity.isIdentifier = true) {t : Text}
    (ht : t.QuotesClosed) : Text.QuotesClosed (head ++ (entity ++ t)) ∧
      mask (head ++ (entity ++ t)) = head ++ (entity ++ mask t) := by
  obtain ⟨hclosed, hmask⟩ :=
    mask_append_of_notMem (Text.isPlain_of_isIdentifier hentity).quote_notMem ht
  rw [← hmask]
  exact mask_append_of_notMem (notMem_of_leading hwords hhead (by decide)) hclosed

/-- An UPDATE statement is read part by part. -/
theorem readUpdate_append {set : Clause} (hhead : Written (Mark.leading ["update".toList]) head)
    (hentity : entity.IsEntityName) (hset : set.Stands ["set".toList] ["where".toList])
    (hfilter : ∀ c ∈ filter, c.Stands ["where".toList] []) (hw : w.isBlank = true)
    {items : List Text} (hitems : splitList set.body = .ok items) {pairs : List (Text × Value)}
    (hpairs : items.mapM readAssignment = .ok pairs) (hne : pairs ≠ []) :
    readUpdate (head ++ (entity ++ (set.source ++ (Clause.sourceOf filter ++ (w ++ [';']))))) =
      .ok ⟨entity, Assignments.ofList pairs, (filter.map Clause.body).bind readFilter⟩ := by
  have hlast := quote_notMem_end hw
  have hlastClosed := Text.quotesClosed_of_notMem hlast
  obtain ⟨hafter, hmaskAfter⟩ := Clause.mask_sourceOf_append (by decide) hfilter hlastClosed
  obtain ⟨hsource, hmaskSource⟩ := Clause.mask_source_append (by decide) hset hafter
  obtain ⟨hclosed, hmask⟩ := mask_head_append (by decide) hhead hentity.1 hsource
  have hsuffix : set.source ++ (Clause.sourceOf filter ++ (w ++ [';'])) <:+
      head ++ (entity ++ (set.source ++ (Clause.sourceOf filter ++ (w ++ [';'])))) :=
    (List.suffix_append entity _).trans (List.suffix_append head _)
  have hassignments := readPart_of_suffix hclosed hset.closed hafter
    ((set.body_suffix _).trans hsuffix)
  have hcondition := readPart_sourceOf hclosed hfilter hlastClosed
    ((List.suffix_append set.source _).trans hsuffix)
  have hopens : set.masked.Opens ["set".toList] := hset.opens
  have hshape := updateShape_append hhead hentity.1 hopens hset.isBody
    (Clause.stands_masked hfilter) hw rfl rfl
  rw [mask_of_notMem hlast] at hmaskAfter hcondition
  rw [← hmaskAfter, ← hmaskSource, ← hmask] at hshape
  have hsome : (Assignments.ofList pairs).isEmpty = false := by
    rw [Assignments.isEmpty_ofList]
    simpa using hne
  simp only [readUpdate, hshape, requireShape, bind, Except.bind, readEntity_append hentity,
    Clause.extent, Clause.masked, hassignments, atStatement, hitems, atLexer, hpairs, hsome]
  exact congrArg (fun parts : Option Text =>
    Except.ok (Update.mk entity (Assignments.ofList pairs) (parts.bind readFilter))) hcondition

/-- A DELETE statement is read part by part. -/
theorem readDelete_append {withFrom : Bool}
    (hhead : Written (Mark.leading (Change.remove withFrom).words) head)
    (hentity : entity.IsEntityName) (hfilter : ∀ c ∈ filter, c.Stands ["where".toList] [])
    (hw : w.isBlank = true) :
    readDelete (head ++ (entity ++ (Clause.sourceOf filter ++ (w ++ [';'])))) =
      .ok ⟨entity, (filter.map Clause.body).bind readFilter⟩ := by
  have hlast := quote_notMem_end hw
  have hlastClosed := Text.quotesClosed_of_notMem hlast
  obtain ⟨hafter, hmaskAfter⟩ := Clause.mask_sourceOf_append (by decide) hfilter hlastClosed
  obtain ⟨hclosed, hmask⟩ := mask_head_append (Change.isKeyword_words _) hhead hentity.1 hafter
  have hcondition := readPart_sourceOf hclosed hfilter hlastClosed
    ((List.suffix_append entity _).trans (List.suffix_append head _))
  have hshape := deleteShape_append hhead hentity (Clause.stands_masked hfilter) hw rfl
  rw [mask_of_notMem hlast] at hmaskAfter hcondition
  rw [← hmaskAfter, ← hmask] at hshape
  simp only [readDelete, hshape, requireShape, bind, Except.bind, readEntity_append hentity,
    atStatement]
  exact congrArg (fun parts : Option Text => Except.ok (Delete.mk entity (parts.bind readFilter)))
    hcondition

namespace Change.Valid

/-- The assignments are written as a clause. -/
theorem exists_set {assignments : List Assignment} (h : (Change.set assignments).Valid) {t : Text}
    (ht : Written (Change.set assignments).assignmentMarks t) :
    ∃ set : Clause, t = set.source ∧ set.Stands ["set".toList] ["where".toList] ∧
      ∃ items, splitList set.body = .ok items ∧
        items.mapM readAssignment = .ok (assignments.map Assignment.pair) := by
  obtain ⟨set, rfl, hopens, hbody⟩ := exists_clause ht
  obtain ⟨hclosed, hisBody, hitems⟩ := readAssignments_of_written h.1 h.2 hbody
  exact ⟨set, rfl, ⟨hopens, hclosed, hisBody⟩, hitems⟩

theorem exists_part {change : Change} (h : change.Valid) {t : Text}
    (ht : Written change.assignmentMarks t) : ∃ part : Option Clause, t = Clause.sourceOf part ∧
      ∀ c ∈ part, c.Stands ["set".toList] ["where".toList] := by
  cases change with
  | set assignments =>
    obtain ⟨set, rfl, hset, -⟩ := h.exists_set ht
    exact ⟨some set, rfl, by simpa using hset⟩
  | remove withFrom => exact ⟨none, ht, by simp⟩

variable {change : Change} {u : Text}

/-- Outside of literals a statement has no semicolon but at its end. -/
theorem mask_of_written (h : change.Valid) (hentity : entity.isIdentifier = true)
    (hu : Written (change.marks entity) u) (hfilter : ∀ c ∈ filter, c.Stands ["where".toList] []) :
    u ++ Clause.sourceOf filter ≠ [] ∧ Text.QuotesClosed (u ++ Clause.sourceOf filter) ∧
      ';' ∉ mask (u ++ Clause.sourceOf filter) := by
  obtain ⟨head, _, rfl, hhead, entity, t, rfl, rfl, ht⟩ := written_append.1 hu
  obtain ⟨part, rfl, hpart⟩ := h.exists_part ht
  have hplain := Text.isPlain_of_isIdentifier hentity
  have hnil : Text.QuotesClosed [] := by decide
  obtain ⟨hclosed, hmaskFilter⟩ := Clause.mask_sourceOf_append (by decide) hfilter hnil
  obtain ⟨hclosed, hmaskPart⟩ := Clause.mask_sourceOf_append (by decide) hpart hclosed
  obtain ⟨hclosed, hmask⟩ := mask_head_append change.isKeyword_words hhead hentity hclosed
  have hwhole : head ++ (entity ++ Clause.sourceOf part) ++ Clause.sourceOf filter =
      head ++ (entity ++ (Clause.sourceOf part ++ (Clause.sourceOf filter ++ []))) := by simp
  have hhead' : ';' ∉ head := notMem_of_leading change.isKeyword_words hhead (by decide)
  have hpart' : ';' ∉ Clause.sourceOf (part.map Clause.masked) :=
    Clause.notMem_sourceOf (by decide) (by decide) fun c hc =>
      (Clause.stands_masked hpart c hc).imp_right fun hbody => hbody.semicolon_notMem
  have hfilter' : ';' ∉ Clause.sourceOf (filter.map Clause.masked) :=
    Clause.notMem_sourceOf (by decide) (by decide) fun c hc =>
      (Clause.stands_masked hfilter c hc).imp_right fun hbody => hbody.semicolon_notMem
  rw [hwhole]
  refine ⟨by simp [hplain.1], hclosed, ?_⟩
  rw [hmask, hmaskPart, hmaskFilter, mask_of_notMem List.not_mem_nil]
  simp [hhead', hplain.semicolon_notMem, hpart', hfilter']

/-- A statement is read as its operation says. -/
theorem readOperation (h : change.Valid) (hentity : entity.IsEntityName)
    (hu : Written (change.marks entity) u) (hfilter : ∀ c ∈ filter, c.Stands ["where".toList] [])
    (hw : w.isBlank = true) (checks : Checks) :
    Operation.ofWord? (leadingWord (u ++ (Clause.sourceOf filter ++ (w ++ [';'])))) =
      some (change.query entity none).operation ∧
    readOperation checks (u ++ (Clause.sourceOf filter ++ (w ++ [';'])))
      (change.query entity none).operation =
        .ok (change.query entity ((filter.map Clause.body).bind readFilter)) := by
  obtain ⟨head, _, rfl, hhead, entity, t, rfl, rfl, ht⟩ := written_append.1 hu
  rw [List.append_assoc, List.append_assoc]
  cases change with
  | set assignments =>
    obtain ⟨set, rfl, hset, items, hitems, hpairs⟩ := h.exists_set ht
    have hread := readUpdate_append hhead hentity hset hfilter hw hitems hpairs
      (by simpa using h.1)
    have hword : Text.lower "update".toList = Operation.update.word.lower := by decide
    exact ⟨ofWord?_leading hword hhead _, congrArg (Except.map Query.update) hread⟩
  | remove withFrom =>
    obtain rfl : t = [] := ht
    have hread := readDelete_append hhead hentity hfilter hw
    have hword : Text.lower "delete".toList = Operation.delete.word.lower := by decide
    refine ⟨?_, congrArg (Except.map Query.delete) hread⟩
    cases withFrom <;> exact ofWord?_leading hword hhead _

end Change.Valid

/-- A statement that changes or deletes records is read back, however it is written. -/
theorem ofText_change {change : Change} (hchange : change.Valid) (hentity : entity.IsEntityName)
    {β : Type} {condition : Option β} {marks : β → List Mark} {f : β → Text}
    (hcondition : ∀ b ∈ condition, ∀ c, Written (marks b) c →
      IsCondition [] c ∧ Filter.ofCondition c = f b) {t : Text}
    (ht : States (change.marks entity ++ Mark.optional (condition.map fun b =>
      Mark.clause ["where".toList] (marks b))) t) {checks : Checks}
    (hchecks : checks.filter = false ∨ condition ≠ none) :
    Query.ofText checks t = .ok (change.query entity (condition.map f)) := by
  have hparts {s : Text} (hs : Written (change.marks entity ++ Mark.optional (condition.map fun b =>
      Mark.clause ["where".toList] (marks b))) s) : ∃ (u : Text) (filter : Option Clause),
      s = u ++ Clause.sourceOf filter ∧ Written (change.marks entity) u ∧
        (∀ c ∈ filter, c.Stands ["where".toList] []) ∧
        (filter.map Clause.body).bind readFilter = condition.map f := by
    obtain ⟨u, v, rfl, hu, hv⟩ := written_append.1 hs
    obtain ⟨filter, rfl, hfilter⟩ := exists_optional hv
    have hbody {b : β} (hb : b ∈ condition) := hcondition b hb _ (hfilter b hb).2
    refine ⟨u, _, rfl, hu, fun c hc => ?_, ?_⟩
    · obtain ⟨b, hb, rfl⟩ := Option.map_eq_some_iff.1 hc
      exact ⟨(hfilter b hb).1, (hbody hb).1.closed, (hbody hb).1.isBody (by simp)⟩
    · cases hb : condition with
      | none => rfl
      | some b =>
        obtain ⟨hiscondition, hf⟩ := hbody hb
        simp [hiscondition.readFilter, hf]
  obtain ⟨s, w, hs, hw, hstatement⟩ := exists_ofText? ht fun s hs => by
    obtain ⟨u, filter, rfl, hu, hfilter, -⟩ := hparts hs
    exact hchange.mask_of_written hentity.1 hu hfilter
  obtain ⟨u, filter, rfl, hu, hfilter, hread⟩ := hparts hs
  obtain ⟨hword, hquery⟩ := hchange.readOperation hentity hu hfilter hw checks
  rw [List.append_assoc] at hstatement
  rw [hread] at hquery
  refine ofText_of_readOperation hstatement hword hquery ?_
  obtain hfilter | hsome := hchecks
  · simp [hfilter]
  · simp [Query.isUnscoped, Option.isSome_iff_ne_none.2 hsome]

/-- How the condition of a statement is written. -/
def conditionMarks (condition : Option Text) : List Mark :=
  Mark.optional (condition.map fun c => Mark.clause ["where".toList] [.text c])

/-- UPDATE and DELETE statements are read back clause by clause: the entity, for every column the
    value of its last assignment, and the filter that the condition becomes. -/
theorem ofText_mutation (hentity : entity.IsEntityName) {condition : Option Text}
    (hcondition : ∀ c ∈ condition, IsCondition [] c) {checks : Checks}
    (hchecks : checks.filter = false ∨ condition ≠ none) :
    (∀ assignments, (Change.set assignments).Valid → ∀ t,
      States (Change.marks entity (.set assignments) ++ conditionMarks condition) t →
      ∃ values, Query.ofText checks t =
          .ok (.update ⟨entity, values, condition.map Filter.ofCondition⟩) ∧
        ∀ column, values.find? column =
          (assignments.reverse.map Assignment.pair).lookup column) ∧
    ∀ withFrom t, States (Change.marks entity (.remove withFrom) ++ conditionMarks condition) t →
      Query.ofText checks t = .ok (.delete ⟨entity, condition.map Filter.ofCondition⟩) := by
  have hmarks : ∀ b ∈ condition, ∀ c, Written [.text b] c →
      IsCondition [] c ∧ Filter.ofCondition c = Filter.ofCondition b := by
    intro b hb c hc
    obtain rfl := written_text.1 hc
    exact ⟨hcondition c hb, rfl⟩
  constructor
  · intro assignments hvalid t ht
    refine ⟨_, ofText_change hvalid hentity hmarks ht hchecks, fun column => ?_⟩
    rw [Assignments.find?_ofList, List.map_reverse]
  · intro withFrom t ht
    have hvalid : (Change.remove withFrom).Valid := trivial
    exact ofText_change hvalid hentity hmarks ht hchecks

/-- A column is assigned twice, and the keywords of other clauses are in the literal before the
    condition and in the condition itself. -/
theorem ofText_mutation_of_repeated_column :
    (∃ values, Query.ofText .strict
        "update t SET a = 'x WHERE y', b=NULL , a= -7\nwhere WHERE = ';' OR SET, ORDER BY 1;".toList
          = .ok (.update ⟨"t".toList, values,
            some (Filter.ofCondition "WHERE = ';' OR SET, ORDER BY 1".toList)⟩) ∧
      values.find? "a".toList = some (.integer (-7)) ∧ values.find? "b".toList = some .null) ∧
    Query.ofText .strict "Delete t WHERE WHERE = ';' OR SET, ORDER BY 1".toList =
      .ok (.delete ⟨"t".toList,
        some (Filter.ofCondition "WHERE = ';' OR SET, ORDER BY 1".toList)⟩) := by
  have hentity : Text.IsEntityName "t".toList := by decide
  have hcondition : ∀ c ∈ some "WHERE = ';' OR SET, ORDER BY 1".toList, IsCondition [] c := by
    decide +kernel
  have hupdate : States (Change.marks "t".toList (.set [⟨"a".toList, .text "x WHERE y".toList⟩,
      ⟨"b".toList, .null⟩, ⟨"a".toList, .integer (-7)⟩]) ++
      conditionMarks (some "WHERE = ';' OR SET, ORDER BY 1".toList))
      "update t SET a = 'x WHERE y', b=NULL , a= -7\nwhere WHERE = ';' OR SET, ORDER BY 1;".toList :=
    ⟨"update t SET a = 'x WHERE y', b=NULL , a= -7\nwhere WHERE = ';' OR SET, ORDER BY 1".toList,
      by decide +kernel, .inr ⟨[], by decide, by decide +kernel⟩⟩
  have hdelete : States (Change.marks "t".toList (.remove false) ++
      conditionMarks (some "WHERE = ';' OR SET, ORDER BY 1".toList))
      "Delete t WHERE WHERE = ';' OR SET, ORDER BY 1".toList :=
    ⟨"Delete t WHERE WHERE = ';' OR SET, ORDER BY 1".toList, by decide +kernel,
      .inl (by decide +kernel)⟩
  have hscoped : Checks.strict.filter = false ∨
      some "WHERE = ';' OR SET, ORDER BY 1".toList ≠ none := .inr (by simp)
  have hread := ofText_mutation hentity hcondition hscoped
  obtain ⟨values, hquery, hvalues⟩ := hread.1 _ ⟨by simp, by decide⟩ _ hupdate
  exact ⟨⟨values, hquery, (hvalues _).trans (by decide), (hvalues _).trans (by decide)⟩,
    hread.2 false _ hdelete⟩

end Statement

end EntityQuery
