-- SUMMARY: Which names the entities of accepted statements have: identifiers in which two characters outside ASCII may stand.
import EntityQuery.Proofs.Statement.Cut
import EntityQuery.Proofs.Statement.WellFormed
import EntityQuery.Proofs.Statement.Written
import EntityQuery.Proofs.Text.Percent
import EntityQuery.Request.Service
import Mathlib

/-!
# Names of entities

The name of an entity starts with an ASCII letter or the underscore and goes on
with these and digits. Case is folded as Unicode does it, and so two characters
outside ASCII pass for letters in a name as they do in a keyword. They are the
only ones, and they pass in every kind of statement.
-/

namespace EntityQuery

/-! ## Characters of names -/

/-- The two characters outside ASCII that stand for letters without regard to case: the long s and
    the Kelvin sign. -/
def isFoldedLetter (c : Char) : Bool :=
  c == '\u017f' || c == '\u212a'

/-- What a name consists of: characters of identifiers and the two that are folded to letters, the
    first one no digit. -/
structure Text.IsName (t : Text) : Prop where
  ne_nil : t ≠ []
  head : ∀ c ∈ t.head?, c.isDigit = false
  chars : ∀ c ∈ t, isIdentifierChar c = true ∨ isFoldedLetter c = true

namespace Statement

theorem isNameStart_iff {c : Char} :
    isNameStart c = true ↔ (c.isAlpha = true ∨ c = '_') ∨ isFoldedLetter c = true := by
  by_cases hs : c = '\u017f'
  · subst hs
    decide
  · by_cases hk : c = '\u212a'
    · subst hk
      decide
    · simp [isNameStart, isFoldedLetter, foldCase, hs, hk]

theorem isNameChar_iff {c : Char} :
    isNameChar c = true ↔ isIdentifierChar c = true ∨ isFoldedLetter c = true := by
  simp only [isNameChar, Bool.or_eq_true, isNameStart_iff, isIdentifierChar, Char.isAlphanum,
    beq_iff_eq]
  tauto

/-- A digit does not start a name. -/
theorem isNameStart_iff_isNameChar {c : Char} :
    isNameStart c = true ↔ isNameChar c = true ∧ c.isDigit = false := by
  constructor
  · intro h
    refine ⟨by simp [isNameChar, h], ?_⟩
    by_contra hdigit
    have hchar : isIdentifierChar c = true := by
      simp [isIdentifierChar, Char.isAlphanum, Bool.not_eq_false _ ▸ hdigit]
    have hall := of_isIdentifierChar (p := fun c => !(c.isDigit && isNameStart c))
      (by decide +kernel) hchar
    simp [h, hdigit] at hall
  · rintro ⟨h, hdigit⟩
    simpa [isNameChar, hdigit] using h

/-! ## Reading names -/

/-- What is read as a name is one. -/
theorem isName_of_readName {t rest : Text} {e : Extent} (h : readName t = some (e, rest)) :
    e.text.IsName := by
  obtain ⟨c, name, -, htext, hstart, hchars⟩ := exists_of_readName h
  rw [htext]
  refine ⟨List.cons_ne_nil _ _, fun d hd => ?_, fun d hd => isNameChar_iff.1 (hchars d hd)⟩
  obtain rfl : c = d := by simpa using hd
  exact (isNameStart_iff_isNameChar.1 hstart).2

/-- A name is read up to what cannot be part of it. -/
theorem readName_append_of_isName {name after : Text} (h : name.IsName)
    (hafter : ∀ c ∈ after.head?, isNameChar c = false) :
    readName (name ++ after) = some (⟨name ++ after, after⟩, after) := by
  have hall : ∀ c ∈ name, isNameChar c = true := fun c hc => isNameChar_iff.2 (h.chars c hc)
  obtain ⟨c, name, rfl⟩ := List.exists_cons_of_ne_nil h.ne_nil
  have hfirst : isNameStart c = true :=
    isNameStart_iff_isNameChar.2 ⟨hall c (.head _), h.head c rfl⟩
  rw [List.cons_append, readName, if_pos hfirst,
    (takeWhile_append_of_head? (List.forall_mem_cons.1 hall).2 hafter).2]

/-- There are no blanks at the start of a name. -/
theorem trimStart_append_of_isName {name : Text} (h : name.IsName) (after : Text) :
    Text.trimStart (name ++ after) = name ++ after := by
  refine Text.trimStart_of_head? fun c hc => ?_
  obtain ⟨d, name, rfl⟩ := List.exists_cons_of_ne_nil h.ne_nil
  obtain rfl : d = c := by simpa using hc
  by_contra hblank
  have hchar := isNameChar_iff.2 (h.chars d (.head _))
  rw [isNameChar_of_isBlank (by simpa using hblank)] at hchar
  cases hchar

/-! ## Names in accepted statements -/

/-- Whether a name is read from a statement as the name of its entity. -/
def NamesEntity (statement name : Text) : Prop :=
  ∃ (u rest : Text) (e : Extent), readName u = some (e, rest) ∧ e.text = name ∧
    e.text = readPart statement e ∧ reservedWords.any name.sameWord = false

variable {statement : Text}

theorem namesEntity_of_readEntity {u rest name : Text} {e : Extent}
    (hname : readName u = some (e, rest)) (hpart : e.text = readPart statement e)
    (h : readEntity e = .ok name) : NamesEntity statement name := by
  obtain rfl := eq_of_readEntity h
  refine ⟨u, rest, e, hname, rfl, hpart, ?_⟩
  rw [readEntity] at h
  split at h
  · cases h
  · next hreserved => simpa using hreserved

theorem namesEntity_of_readSelect {q : Select} (h : readSelect statement = .ok q) :
    NamesEntity statement q.entity := by
  obtain ⟨shape, hshape, hentity, -⟩ := exists_of_readSelect h
  obtain ⟨u, rest, hname⟩ := exists_readName_of_selectShape hshape
  exact namesEntity_of_readEntity hname (isCut_selectShape hshape).2 hentity

theorem namesEntity_of_readInsert {checks : Checks} {q : Insert}
    (h : readInsert checks statement = .ok q) : NamesEntity statement q.entity := by
  obtain ⟨shape, columns, values, hshape, hentity, -⟩ := exists_of_readInsert h
  obtain ⟨u, rest, hname⟩ := exists_readName_of_insertShape hshape
  exact namesEntity_of_readEntity hname (isCut_insertShape hshape).2 hentity

theorem namesEntity_of_readUpdate {q : Update} (h : readUpdate statement = .ok q) :
    NamesEntity statement q.entity := by
  obtain ⟨shape, items, pairs, hshape, hentity, -⟩ := exists_of_readUpdate h
  obtain ⟨u, rest, hname⟩ := exists_readName_of_updateShape hshape
  exact namesEntity_of_readEntity hname (isCut_updateShape hshape).2 hentity

theorem namesEntity_of_readDelete {q : Delete} (h : readDelete statement = .ok q) :
    NamesEntity statement q.entity := by
  obtain ⟨shape, hshape, hentity, -⟩ := exists_of_readDelete h
  obtain ⟨u, rest, hname⟩ := exists_readName_of_deleteShape hshape
  exact namesEntity_of_readEntity hname (isCut_deleteShape hshape).2 hentity

/-- The entity of an accepted text is named in the statement that the text becomes. -/
theorem namesEntity_of_ofText {checks : Checks} {t : Text} {q : Query}
    (h : Query.ofText checks t = .ok q) :
    ∃ statement, ofText? t = some statement ∧ NamesEntity statement q.entity := by
  obtain ⟨statement, op, hstatement, -, hread, -⟩ := exists_of_ofText h
  refine ⟨statement, hstatement, ?_⟩
  cases op with
  | select =>
    obtain ⟨s, hs, rfl⟩ := map_eq_ok.1 hread
    exact namesEntity_of_readSelect hs
  | insert =>
    obtain ⟨i, hi, rfl⟩ := map_eq_ok.1 hread
    exact namesEntity_of_readInsert hi
  | update =>
    obtain ⟨u, hu, rfl⟩ := map_eq_ok.1 hread
    exact namesEntity_of_readUpdate hu
  | delete =>
    obtain ⟨d, hd, rfl⟩ := map_eq_ok.1 hread
    exact namesEntity_of_readDelete hd

theorem NamesEntity.isName {name : Text} (h : NamesEntity statement name) :
    name.IsName ∧ reservedWords.any name.sameWord = false := by
  obtain ⟨u, rest, e, hname, rfl, -, hreserved⟩ := h
  exact ⟨isName_of_readName hname, hreserved⟩

/-- The characters of the name are characters of the text, or of the end that is added to it. -/
theorem mem_of_mem_entity {t name : Text} (hstatement : ofText? t = some statement)
    (h : NamesEntity statement name) {c : Char} (hc : c ∈ name) : c ∈ t ∨ c = ';' := by
  obtain ⟨u, rest, e, -, rfl, hpart, -⟩ := h
  have hmem : c ∈ statement := by
    rw [hpart, readPart] at hc
    exact Text.slice_subset _ _ hc
  have htrim : t.trim ⊆ t := by
    obtain ⟨l, r, -, -, ht⟩ := Text.exists_eq_append_trim t
    intro d hd
    rw [ht]
    simp [hd]
  simp only [ofText?] at hstatement
  split at hstatement
  · cases hstatement
  · split at hstatement
    · cases hstatement
      exact .inl (htrim hmem)
    · cases hstatement
      rw [List.mem_append, List.mem_singleton] at hmem
      exact hmem.imp_left fun hmem => htrim hmem

/-! ## A statement for every name -/

/-- What stands before the name of the entity in a short statement of an operation. -/
def opening : Operation → Text
  | .select => "SELECT * FROM ".toList
  | .insert => "INSERT INTO ".toList
  | .update => "UPDATE ".toList
  | .delete => "DELETE FROM ".toList

/-- What stands after the name of the entity in a short statement of an operation. -/
def closing : Operation → Text
  | .select => [';']
  | .insert => " (a) VALUES (1);".toList
  | .update => " SET a=1 WHERE a=1;".toList
  | .delete => " WHERE a=1;".toList

/-- A short statement of an operation on an entity. It passes every check. -/
def shortStatement (op : Operation) (entity : Text) : Text :=
  opening op ++ (entity ++ closing op)

variable {entity : Text}

theorem quote_notMem_shortStatement (h : entity.IsName) (op : Operation) :
    '\'' ∉ shortStatement op entity := by
  have hname : '\'' ∉ entity := fun hmem => absurd (h.chars _ hmem) (by decide)
  have hopening : '\'' ∉ opening op := by cases op <;> decide
  have hclosing : '\'' ∉ closing op := by cases op <;> decide
  simp [shortStatement, hopening, hname, hclosing]

theorem ofText?_shortStatement (op : Operation) (entity : Text) :
    ofText? (shortStatement op entity) = some (shortStatement op entity) := by
  obtain ⟨rest, hclosing⟩ : ∃ rest, closing op = rest ++ [';'] := by
    cases op <;> exact ⟨_, (List.dropLast_append_getLast (by decide)).symm⟩
  have hopening : opening op ≠ [] ∧ ∀ c ∈ (opening op).head?, isBlank c = false := by
    cases op <;> decide
  have hstatement : shortStatement op entity = opening op ++ ((entity ++ rest) ++ [';']) := by
    rw [shortStatement, hclosing, List.append_assoc]
  rw [hstatement]
  refine ofText?_of_trim_append hopening.1 (Text.trim_of_ends ?_ ?_)
  · rw [List.head?_append_of_ne_nil _ hopening.1]
    exact hopening.2
  · rw [← List.append_assoc, List.getLast?_concat]
    decide

theorem ofWord?_shortStatement (op : Operation) (entity : Text) :
    Operation.ofWord? (leadingWord (shortStatement op entity)) = some op := by
  cases op <;> rfl

/-- What is left of a short statement after the name of its entity does not go on with the name. -/
theorem readName_append_closing (h : entity.IsName) (op : Operation) :
    readName (entity ++ closing op) = some (⟨entity ++ closing op, closing op⟩, closing op) := by
  refine readName_append_of_isName h fun c hc => ?_
  cases op <;> cases hc <;> rfl

theorem selectShape_shortStatement (h : entity.IsName) :
    SelectShape.ofText? (shortStatement .select entity) =
      some ⟨⟨['*'] ++ (" FROM ".toList ++ (entity ++ [';'])), " FROM ".toList ++ (entity ++ [';'])⟩,
        ⟨entity ++ [';'], [';']⟩, none, none, none⟩ := by
  have hfrom : afterLeading? "from".toList ("FROM ".toList ++ (entity ++ [';'])) =
      some (entity ++ [';']) := congrArg some (trimStart_append_of_isName h [';'])
  have hblanks : Text.afterBlanks? (" FROM ".toList ++ (entity ++ [';'])) =
      some ("FROM ".toList ++ (entity ++ [';'])) := rfl
  have hsource : readSource (" FROM ".toList ++ (entity ++ [';'])) =
      some (⟨entity ++ [';'], [';']⟩, none, none, none) := by
    have hname : readName (entity ++ [';']) = some (⟨entity ++ [';'], [';']⟩, [';']) :=
      readName_append_closing h .select
    have hclauses : readSelectClauses [';'] = some (none, none, none) := by decide
    simp only [readSource, hblanks, hfrom, hname, hclauses, Option.bind_eq_bind, Option.bind_some]
  have hbody : readBody readSource (" * FROM ".toList ++ (entity ++ [';'])) =
      some (⟨['*'] ++ (" FROM ".toList ++ (entity ++ [';'])), " FROM ".toList ++ (entity ++ [';'])⟩,
        ⟨entity ++ [';'], [';']⟩, none, none, none) := by
    have hstar : IsBody ["from".toList] ['*'] :=
      ⟨by decide, by decide, by decide, by decide, by decide⟩
    have hafter : EndsBody (" FROM ".toList ++ (entity ++ [';'])) := fun c hc =>
      .inl (by cases hc; rfl)
    exact readBody_append hstar opensWith_readSource (by decide) hafter hsource (g := [' '])
      (by decide)
  have hselect : Text.afterKeyword? "select".toList (shortStatement .select entity) =
      some (" * FROM ".toList ++ (entity ++ [';'])) := rfl
  simp only [SelectShape.ofText?, hselect, hbody, Option.bind_eq_bind, Option.bind_some]

theorem insertShape_shortStatement (h : entity.IsName) :
    InsertShape.ofText? (shortStatement .insert entity) =
      some ⟨⟨entity ++ closing .insert, closing .insert⟩,
        ⟨['a'] ++ ") VALUES (1);".toList, ") VALUES (1);".toList⟩,
        ⟨['1'] ++ ");".toList, ");".toList⟩⟩ := by
  have hinsert : afterLeading? "insert".toList (shortStatement .insert entity) =
      some ("INTO ".toList ++ (entity ++ closing .insert)) := rfl
  have hinto : Text.afterKeyword? "into".toList ("INTO ".toList ++ (entity ++ closing .insert)) =
      some (' ' :: (entity ++ closing .insert)) := rfl
  have hblank : Text.afterBlanks? (' ' :: (entity ++ closing .insert)) =
      some (entity ++ closing .insert) := congrArg some (trimStart_append_of_isName h _)
  have hinsertion : readInsertion (entity ++ closing .insert) =
      some ⟨⟨entity ++ closing .insert, closing .insert⟩,
        ⟨['a'] ++ ") VALUES (1);".toList, ") VALUES (1);".toList⟩,
        ⟨['1'] ++ ");".toList, ");".toList⟩⟩ := by
    simp only [readInsertion, readName_append_closing h .insert, Option.bind_eq_bind,
      Option.bind_some]
    rfl
  simp only [InsertShape.ofText?, hinsert, readNoise, hinto, hblank, hinsertion,
    Option.bind_eq_bind, Option.bind_some]
  rfl

theorem updateShape_shortStatement (h : entity.IsName) :
    UpdateShape.ofText? (shortStatement .update entity) =
      some ⟨⟨entity ++ closing .update, closing .update⟩,
        ⟨"a=1".toList ++ " WHERE a=1;".toList, " WHERE a=1;".toList⟩,
        some ⟨"a=1".toList ++ [';'], [';']⟩⟩ := by
  have hupdate : afterLeading? "update".toList (shortStatement .update entity) =
      some (entity ++ closing .update) := congrArg some (trimStart_append_of_isName h _)
  have hclause : readClause ["set".toList] readFilterAndEnd (closing .update) =
      some (⟨"a=1".toList ++ " WHERE a=1;".toList, " WHERE a=1;".toList⟩,
        some ⟨"a=1".toList ++ [';'], [';']⟩) := rfl
  simp only [UpdateShape.ofText?, hupdate, readName_append_closing h .update, hclause,
    Option.bind_eq_bind, Option.bind_some]

theorem deleteShape_shortStatement (h : entity.IsName) :
    DeleteShape.ofText? (shortStatement .delete entity) =
      some ⟨⟨entity ++ closing .delete, closing .delete⟩, some ⟨"a=1".toList ++ [';'], [';']⟩⟩ := by
  have hdelete : afterLeading? "delete".toList (shortStatement .delete entity) =
      some ("FROM ".toList ++ (entity ++ closing .delete)) := rfl
  have hfrom : Text.afterKeyword? "from".toList ("FROM ".toList ++ (entity ++ closing .delete)) =
      some (' ' :: (entity ++ closing .delete)) := rfl
  have hblank : Text.afterBlanks? (' ' :: (entity ++ closing .delete)) =
      some (entity ++ closing .delete) := congrArg some (trimStart_append_of_isName h _)
  have hfilter : readFilterAndEnd (closing .delete) =
      some (some ⟨"a=1".toList ++ [';'], [';']⟩) := rfl
  have hdeletion : readDeletion (entity ++ closing .delete) =
      some ⟨⟨entity ++ closing .delete, closing .delete⟩, some ⟨"a=1".toList ++ [';'], [';']⟩⟩ := by
    simp only [readDeletion, readName_append_closing h .delete, hfilter, Option.bind_eq_bind,
      Option.bind_some]
  simp only [DeleteShape.ofText?, hdelete, readNoise, hfrom, hblank, hdeletion,
    Option.bind_eq_bind, Option.bind_some]
  rfl

/-- Without quotes a part of a statement is read as it stands there. -/
theorem readPart_append {part after : Text} (hquote : '\'' ∉ statement)
    (h : part ++ after <:+ statement) : readPart statement ⟨part ++ after, after⟩ = part := by
  have hmem : '\'' ∉ part ++ after := fun hmem => hquote (h.subset hmem)
  rw [List.mem_append, not_or] at hmem
  have hread := readPart_of_suffix (Text.quotesClosed_of_notMem hquote)
    (Text.quotesClosed_of_notMem hmem.1) (Text.quotesClosed_of_notMem hmem.2) h
  rwa [mask_of_notMem hmem.1, mask_of_notMem hmem.2] at hread

theorem readPart_closing (h : entity.IsName) (op : Operation) (p after : Text)
    (hsuffix : p ++ after <:+ closing op) :
    readPart (shortStatement op entity) ⟨p ++ after, after⟩ = p :=
  readPart_append (quote_notMem_shortStatement h op)
    (hsuffix.trans ((List.suffix_append entity _).trans (List.suffix_append (opening op) _)))

/-- The condition in the short statements that have one. -/
theorem readFilter_closing : readFilter "a=1".toList = some "a eq 1".toList := by
  decide +kernel

theorem readEntity_of_not_reserved (hreserved : reservedWords.any entity.sameWord = false)
    (after : Text) : readEntity ⟨entity ++ after, after⟩ = .ok entity := by
  rw [readEntity, Extent.text_append, hreserved]
  rfl

section

variable (h : entity.IsName) (hreserved : reservedWords.any entity.sameWord = false)

include h hreserved

theorem readSelect_shortStatement :
    readSelect (shortStatement .select entity) = .ok ⟨entity, [['*']], none, none, none⟩ := by
  have hquote := quote_notMem_shortStatement h .select
  have hfields : readPart (shortStatement .select entity)
      ⟨['*'] ++ (" FROM ".toList ++ (entity ++ [';'])), " FROM ".toList ++ (entity ++ [';'])⟩ =
        ['*'] := readPart_append hquote ⟨"SELECT ".toList, rfl⟩
  have hread : readFields ['*'] = .ok [['*']] := rfl
  simp only [readSelect, mask_of_notMem hquote, selectShape_shortStatement h, requireShape, bind,
    Except.bind, readEntity_of_not_reserved hreserved, hfields, hread, atStatement, Option.map_none]
  rfl

theorem readInsert_shortStatement (checks : Checks) :
    readInsert checks (shortStatement .insert entity) =
      .ok ⟨entity, .ofList [(['a'], .integer 1)]⟩ := by
  have hcolumns := readPart_closing h .insert ['a'] ") VALUES (1);".toList ⟨" (".toList, rfl⟩
  have hvalues := readPart_closing h .insert ['1'] ");".toList ⟨" (a) VALUES (".toList, rfl⟩
  have hread : readColumns ['a'] = .ok [['a']] := rfl
  have hsplit : splitList ['1'] = .ok [['1']] := by decide +kernel
  have hnonempty : [['1']].any List.isEmpty = false := rfl
  have heven : ¬ (checks.evenLists = true ∧ [['a']].length ≠ [['1']].length) := by simp
  have hpairs : [['a']].zip ([['1']].map Value.ofLiteral) = [(['a'], .integer 1)] := rfl
  have hsome : (Assignments.ofList [(['a'], Value.integer 1)]).isEmpty = false := rfl
  simp only [readInsert, mask_of_notMem (quote_notMem_shortStatement h .insert),
    insertShape_shortStatement h, requireShape, bind, Except.bind,
    readEntity_of_not_reserved hreserved, hcolumns, hvalues, hread, atStatement, hsplit, atLexer,
    hnonempty, heven, hpairs, hsome]
  rfl

theorem readUpdate_shortStatement : readUpdate (shortStatement .update entity) =
    .ok ⟨entity, .ofList [(['a'], .integer 1)], some "a eq 1".toList⟩ := by
  have hassignments := readPart_closing h .update "a=1".toList " WHERE a=1;".toList
    ⟨" SET ".toList, rfl⟩
  have hcondition := readPart_closing h .update "a=1".toList [';'] ⟨" SET a=1 WHERE ".toList, rfl⟩
  have hsplit : splitList "a=1".toList = .ok ["a=1".toList] := by decide +kernel
  have hpairs : ["a=1".toList].mapM readAssignment = .ok [(['a'], .integer 1)] := rfl
  have hsome : (Assignments.ofList [(['a'], Value.integer 1)]).isEmpty = false := rfl
  simp only [readUpdate, mask_of_notMem (quote_notMem_shortStatement h .update),
    updateShape_shortStatement h, requireShape, bind, Except.bind,
    readEntity_of_not_reserved hreserved, hassignments, hcondition, atStatement, hsplit, atLexer,
    hpairs, hsome, Option.map_some, Option.bind_some, readFilter_closing]
  rfl

theorem readDelete_shortStatement :
    readDelete (shortStatement .delete entity) = .ok ⟨entity, some "a eq 1".toList⟩ := by
  have hcondition := readPart_closing h .delete "a=1".toList [';'] ⟨" WHERE ".toList, rfl⟩
  simp only [readDelete, mask_of_notMem (quote_notMem_shortStatement h .delete),
    deleteShape_shortStatement h, requireShape, bind, Except.bind,
    readEntity_of_not_reserved hreserved, atStatement, Option.map_some, hcondition,
    Option.bind_some, readFilter_closing]

/-- A short statement is accepted for every name that is not reserved. -/
theorem exists_ofText_shortStatement (checks : Checks) (op : Operation) :
    ∃ q, Query.ofText checks (shortStatement op entity) = .ok q ∧ q.operation = op ∧
      q.entity = entity := by
  have hread : ∃ q, readOperation checks (shortStatement op entity) op = .ok q ∧
      q.operation = op ∧ q.entity = entity ∧ q.isUnscoped = false := by
    cases op with
    | select =>
      have hselect := congrArg (Except.map Query.select) (readSelect_shortStatement h hreserved)
      exact ⟨_, hselect, rfl, rfl, rfl⟩
    | insert =>
      have hinsert :=
        congrArg (Except.map Query.insert) (readInsert_shortStatement h hreserved checks)
      exact ⟨_, hinsert, rfl, rfl, rfl⟩
    | update =>
      have hupdate := congrArg (Except.map Query.update) (readUpdate_shortStatement h hreserved)
      exact ⟨_, hupdate, rfl, rfl, rfl⟩
    | delete =>
      have hdelete := congrArg (Except.map Query.delete) (readDelete_shortStatement h hreserved)
      exact ⟨_, hdelete, rfl, rfl, rfl⟩
  obtain ⟨q, hq, hop, hentity, hscoped⟩ := hread
  exact ⟨q, ofText_of_readOperation (ofText?_shortStatement op entity)
    (ofWord?_shortStatement op entity) hq (by simp [hscoped]), hop, hentity⟩

end

end Statement

/-! ## Which names are accepted -/

namespace Text

/-- Percent encoding keeps the characters of identifiers, and neither of the two that are folded
    to letters is one of them. -/
theorem keeps_of_isIdentifierChar {c : Char} (h : isIdentifierChar c = true) :
    Percent.keeps c = true ∧ isFoldedLetter c = false := by
  simpa using of_isIdentifierChar (p := fun c => Percent.keeps c && !isFoldedLetter c)
    (by decide +kernel) h

/-- An identifier is a name without the two characters that are folded to letters. -/
theorem IsName.isIdentifier_iff {t : Text} (h : t.IsName) :
    t.isIdentifier = true ↔ ∀ c ∈ t, isFoldedLetter c = false := by
  constructor
  · intro hidentifier c hc
    exact (keeps_of_isIdentifierChar (isIdentifierChar_of_mem hidentifier hc)).2
  · intro hfolded
    have hchars : ∀ c ∈ t, isIdentifierChar c = true := fun c hc =>
      (h.chars c hc).resolve_right (ne_true_of_eq_false (hfolded c hc))
    obtain ⟨c, rest, rfl⟩ := List.exists_cons_of_ne_nil h.ne_nil
    exact Bool.and_eq_true_iff.2 ⟨by simpa using h.head c rfl, List.all_eq_true.2 hchars⟩

/-- A name needs no percent encoding exactly if it is an identifier. -/
theorem IsName.percentEncode_eq_self_iff {t : Text} (h : t.IsName) :
    t.percentEncode = t ↔ t.isIdentifier = true := by
  have hpercent : '%' ∉ t := fun hmem => absurd (h.chars _ hmem) (by decide)
  have hkeeps : ∀ c ∈ t, Percent.keeps c = true ↔ isFoldedLetter c = false := by
    intro c hc
    obtain hchar | hfolded := h.chars c hc
    · obtain ⟨hkept, hplain⟩ := keeps_of_isIdentifierChar hchar
      exact iff_of_true hkept hplain
    · have hc : c = '\u017f' ∨ c = '\u212a' := by simpa [isFoldedLetter] using hfolded
      obtain rfl | rfl := hc <;> decide
  rw [Text.percentEncode_eq_self_iff hpercent, h.isIdentifier_iff]
  exact forall₂_congr hkeeps

end Text

namespace Query

/-- The entity of an accepted text has a name, and if the text has neither of the two characters
    that are folded to letters, the name is an identifier. -/
theorem isName_entity_of_ofText {checks : Statement.Checks} {t : Text} {q : Query}
    (h : ofText checks t = .ok q) : q.entity.IsName ∧
      Statement.reservedWords.any q.entity.sameWord = false ∧
      ((∀ c ∈ t, isFoldedLetter c = false) → q.entity.isIdentifier = true) := by
  obtain ⟨statement, hstatement, hnames⟩ := Statement.namesEntity_of_ofText h
  obtain ⟨hname, hreserved⟩ := hnames.isName
  refine ⟨hname, hreserved, fun ht => hname.isIdentifier_iff.2 fun c hc => ?_⟩
  obtain hmem | rfl := Statement.mem_of_mem_entity hstatement hnames hc
  · exact ht c hmem
  · rfl

/-- The long s alone names the entity of an accepted deletion. -/
theorem ofText_long_s : ofText {} "DELETE FROM \u017f".toList = .ok (.delete ⟨['\u017f'], none⟩) := by
  decide +kernel

/-- Which names the entities of accepted texts have, for each operation and whatever is checked:
    the names that are not reserved. Such a name is an identifier of ASCII unless one of two other
    characters is in it, and then it is in the text too. The URL of the collection ends in the name
    as it is, which needs no percent encoding exactly if it is an identifier. -/
theorem entity_of_ofText_iff (checks : Statement.Checks) :
    (∀ (op : Operation) (name : Text),
      (∃ t q, ofText checks t = .ok q ∧ q.operation = op ∧ q.entity = name) ↔
        name.IsName ∧ Statement.reservedWords.any name.sameWord = false) ∧
    ∀ (t : Text) (q : Query), ofText checks t = .ok q →
      (q.entity.isIdentifier = true ↔ ∀ c ∈ q.entity, isFoldedLetter c = false) ∧
      ((∀ c ∈ t, isFoldedLetter c = false) → q.entity.isIdentifier = true) ∧
      ∀ s : Service, s.collectionUrl q.entity = s.collectionUrl [] ++ q.entity ∧
        (q.entity.percentEncode = q.entity ↔ q.entity.isIdentifier = true) := by
  constructor
  · intro op name
    constructor
    · rintro ⟨t, q, h, -, rfl⟩
      obtain ⟨hname, hreserved, -⟩ := isName_entity_of_ofText h
      exact ⟨hname, hreserved⟩
    · rintro ⟨hname, hreserved⟩
      exact ⟨_, Statement.exists_ofText_shortStatement hname hreserved checks op⟩
  · intro t q h
    obtain ⟨hname, -, hidentifier⟩ := isName_entity_of_ofText h
    refine ⟨hname.isIdentifier_iff, hidentifier, fun s => ⟨?_, hname.percentEncode_eq_self_iff⟩⟩
    simp [Service.collectionUrl]

/-- A deletion from an entity whose name is the long s. -/
theorem entity_of_ofText_iff_of_long_s :
    ofText {} "DELETE FROM \u017f".toList = .ok (.delete ⟨['\u017f'], none⟩) ∧
      Text.IsName ['\u017f'] ∧ ¬ Text.percentEncode ['\u017f'] = ['\u017f'] := by
  obtain ⟨hnames, haccepted⟩ := entity_of_ofText_iff {}
  obtain ⟨-, -, hurl⟩ := haccepted _ _ ofText_long_s
  exact ⟨ofText_long_s, ((hnames .delete ['\u017f']).1 ⟨_, _, ofText_long_s, rfl, rfl⟩).1, fun hencoded =>
    absurd ((hurl ⟨[], defaultVersion⟩).2.1 hencoded) (by decide)⟩

/-- Not every accepted text names an entity by an identifier of ASCII. -/
theorem not_isIdentifier_entity :
    ¬ ∀ (checks : Statement.Checks) (t : Text) (q : Query), ofText checks t = .ok q →
      q.entity.isIdentifier = true := by
  intro h
  exact absurd (h {} _ _ ofText_long_s) (by decide)

end Query

end EntityQuery
