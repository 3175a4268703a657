-- SUMMARY: Checks refuse statements, and change nothing about the ones that they let pass.
import EntityQuery.Proofs.Statement.Item
import EntityQuery.Proofs.Statement.WellFormed
import EntityQuery.Proofs.Statement.Written

/-!
# Statements that are checked

A caller can ask for two checks on top of the grammar. A check only refuses: a
text is read as a query with checks if and only if it is read as the same query
without them, and what is checked holds. The lists of an INSERT statement are
found here without its grammar, by their brackets.
-/

namespace EntityQuery

namespace Statement

variable {t statement : Text} {checks : Checks}

/-! ## The lists of an INSERT statement -/

/-- The places of the lists in a masked INSERT statement. The columns are between the first opening
    bracket and the first closing one after it, and the values between the opening bracket after
    that and the last closing bracket. -/
def listPlaces? (t : Text) : Option (Extent × Extent) := do
  let (_, columns) ← t.splitFirst '('
  let (_, afterColumns) ← columns.splitFirst ')'
  let (_, values) ← afterColumns.splitFirst '('
  let afterValues ← values.afterLast ')'
  some (⟨columns, ')' :: afterColumns⟩, ⟨values, ')' :: afterValues⟩)

/-- The numbers of columns and of values of an INSERT statement. -/
def listLengths? (statement : Text) : Option (Nat × Nat) := do
  let (columns, values) ← listPlaces? (mask statement)
  let items ← (splitList (readPart statement values)).toOption
  some (((readPart statement columns).pieces ',').length, items.length)

/-- Whether the statement in a text has as many values as columns. -/
def HasEvenLists (t : Text) : Prop :=
  ∃ statement n, ofText? t = some statement ∧ listLengths? statement = some (n, n)

/-! ## Brackets -/

theorem bracket_notMem_of_map_foldCase {s keyword : Text} (h : s.map foldCase = keyword)
    (hkeyword : '(' ∉ keyword) : '(' ∉ s := fun hmem =>
  hkeyword (h ▸ List.mem_map_of_mem (f := foldCase) hmem)

theorem bracket_notMem_of_isGap {g : Text} (h : g.IsGap) : '(' ∉ g :=
  Text.notMem_of_isBlank h.2 rfl

theorem exists_of_afterBracket? {bracket : Char} {rest : Text}
    (h : afterBracket? bracket t = some rest) :
    ∃ g : Text, g.isBlank = true ∧ t = g ++ bracket :: rest := by
  obtain ⟨g, hg, ht⟩ := Text.exists_eq_append_trimStart t
  rw [afterBracket?] at h
  split at h
  · next c u heq =>
    split at h
    · next hc =>
      cases h
      exact ⟨g, hg, by rw [← hc, ← heq]; exact ht⟩
    · cases h
  · cases h

theorem exists_of_readUpToLast {α : Type} {k : Text → Option α} {stop : Text} {a : α}
    (h : readUpToLast k t = some (stop, a)) : stop <:+ t ∧ k stop = some a := by
  induction t with
  | nil =>
    obtain ⟨b, hb, heq⟩ := Option.map_eq_some_iff.1 h
    cases heq
    exact ⟨List.suffix_refl [], hb⟩
  | cons c t ih =>
    rw [readUpToLast, Option.orElse_eq_orElse, Option.orElse_eq_or, Option.or_eq_some_iff] at h
    obtain h | ⟨-, h⟩ := h
    · obtain ⟨hstop, ha⟩ := ih h
      exact ⟨hstop.trans (List.suffix_cons c t), ha⟩
    · obtain ⟨b, hb, heq⟩ := Option.map_eq_some_iff.1 h
      cases heq
      exact ⟨List.suffix_refl _, hb⟩

/-- The values end at a closing bracket with no other one after it. -/
theorem exists_of_readValuesEnd (h : readValuesEnd t = some ()) :
    ∃ rest : Text, t = ')' :: rest ∧ ')' ∉ rest := by
  unfold readValuesEnd at h
  split at h
  · next rest =>
    refine ⟨rest, rfl, ?_⟩
    obtain ⟨g, hg, hrest⟩ := Text.exists_eq_append_trimStart rest
    rw [readEnd] at h
    split at h
    · next hend =>
      have hblank : ')' ∉ g := Text.notMem_of_isBlank hg rfl
      rw [hrest, hend]
      simp [hblank]
    · cases h
  · cases h

/-! ## The reader finds the lists -/

/-- An opening keyword has no bracket in it, and neither has what may follow it. -/
theorem exists_of_afterLeading? {keyword rest : Text} (hkeyword : '(' ∉ keyword)
    (h : afterLeading? keyword t = some rest) : ∃ head : Text, t = head ++ rest ∧ '(' ∉ head := by
  obtain ⟨u, hu, hrest⟩ := Option.bind_eq_some_iff.1 h
  obtain ⟨s, rfl, hs⟩ := Text.afterKeyword?_eq_some.1 hu
  obtain ⟨g, hg, rfl⟩ := Text.exists_gap_of_afterBlanks? hrest
  refine ⟨s ++ g, by simp, ?_⟩
  simpa using ⟨bracket_notMem_of_map_foldCase hs hkeyword, bracket_notMem_of_isGap hg⟩

theorem exists_of_readNoise_leading {α : Type} {keyword : Text} {k : Text → Option α} {a : α}
    (hkeyword : '(' ∉ keyword) (h : readNoise keyword k t = some a) :
    ∃ head rest : Text, t = head ++ rest ∧ '(' ∉ head ∧ k rest = some a := by
  rw [readNoise, Option.orElse_eq_orElse, Option.orElse_eq_or, Option.or_eq_some_iff] at h
  obtain h | ⟨-, h⟩ := h
  · obtain ⟨u, hu, h⟩ := Option.bind_eq_some_iff.1 h
    obtain ⟨rest, hrest, h⟩ := Option.bind_eq_some_iff.1 h
    have hleading : afterLeading? keyword t = some rest := Option.bind_eq_some_iff.2 ⟨u, hu, hrest⟩
    obtain ⟨head, ht, hhead⟩ := exists_of_afterLeading? hkeyword hleading
    exact ⟨head, rest, ht, hhead, h⟩
  · exact ⟨[], t, rfl, List.not_mem_nil, h⟩

/-- The columns end at the first closing bracket. -/
theorem exists_of_columnsEnd {columns rest : Text}
    (h : afterBracket? ')' (columns.dropWhile (· != ')')) = some rest) :
    ∃ part : Text, ')' ∉ part ∧ columns = part ++ ')' :: rest ∧
      columns.dropWhile (· != ')') = ')' :: rest := by
  obtain ⟨g, hg, hdrop⟩ := exists_of_afterBracket? h
  have hhead := List.head?_dropWhile_not (· != ')') columns
  have hpart : ')' ∉ columns.takeWhile (· != ')') := fun hmem => by
    simpa using List.mem_takeWhile_imp hmem
  cases g with
  | nil =>
    refine ⟨_, hpart, ?_, hdrop⟩
    exact (List.takeWhile_append_dropWhile.symm).trans (congrArg _ hdrop)
  | cons c g =>
    rw [hdrop] at hhead
    obtain rfl : c = ')' := by simpa using hhead
    cases (List.forall_mem_cons.1 (Text.isBlank_iff.1 hg)).1

theorem listPlaces?_append {head : Text} (h : '(' ∉ head) (t : Text) :
    listPlaces? (head ++ t) = listPlaces? t := by
  rw [listPlaces?, Text.splitFirst_append_of_notMem h, listPlaces?]
  cases t.splitFirst '(' <;> rfl

/-- The lists are found in the text from the name of the entity on. -/
theorem listPlaces?_of_readInsertion {shape : InsertShape} (h : readInsertion t = some shape) :
    listPlaces? t = some (shape.columns, shape.values) := by
  obtain ⟨⟨entity, t₁⟩, hentity, h⟩ := Option.bind_eq_some_iff.1 h
  obtain ⟨columns, hcolumns, h⟩ := Option.bind_eq_some_iff.1 h
  obtain ⟨t₂, hcolumnsEnd, h⟩ := Option.bind_eq_some_iff.1 h
  obtain ⟨t₃, hkeyword, h⟩ := Option.bind_eq_some_iff.1 h
  obtain ⟨values, hvalues, h⟩ := Option.bind_eq_some_iff.1 h
  obtain ⟨⟨valuesEnd, ⟨⟩⟩, hend, h⟩ := Option.bind_eq_some_iff.1 h
  cases h
  have hblank : ∀ g : Text, g.isBlank = true → '(' ∉ g := fun g h => Text.notMem_of_isBlank h rfl
  obtain ⟨c, name, rfl, -, -, hchars⟩ := exists_of_readName hentity
  have hname : '(' ∉ c :: name := fun hmem => absurd (hchars _ hmem) (by decide)
  obtain ⟨g₁, hg₁, rfl⟩ := exists_of_afterBracket? hcolumns
  obtain ⟨part, hpart, hcolumns, hstop⟩ := exists_of_columnsEnd hcolumnsEnd
  obtain ⟨g₂, hg₂, ht₂⟩ := Text.exists_eq_append_trimStart t₂
  obtain ⟨keyword, ht₃, hfold⟩ := Text.afterKeyword?_eq_some.1 hkeyword
  obtain ⟨g₃, hg₃, rfl⟩ := exists_of_afterBracket? hvalues
  obtain ⟨⟨before, hvalues⟩, hclose⟩ := exists_of_readUpToLast hend
  obtain ⟨last, rfl, hlast⟩ := exists_of_readValuesEnd hclose
  have hbetween : '(' ∉ g₂ ++ (keyword ++ g₃) := by
    simpa using ⟨hblank g₂ hg₂, bracket_notMem_of_map_foldCase hfold (by decide), hblank g₃ hg₃⟩
  have hfirst : columns.splitFirst ')' = some (part, t₂) := by
    rw [hcolumns, Text.splitFirst_append_cons hpart]
  have hsecond : t₂.splitFirst '(' = some (g₂ ++ (keyword ++ g₃), values) := by
    rw [← Text.splitFirst_append_cons hbetween values, ht₂, ht₃]
    simp
  have hlast : values.afterLast ')' = some last := by
    rw [← hvalues, Text.afterLast_append_cons hlast]
  rw [listPlaces?_append hname, listPlaces?_append (hblank g₁ hg₁)]
  simp [listPlaces?, Text.splitFirst, hfirst, hsecond, hlast, hstop]

/-- The lists that the reader of INSERT statements finds are where their brackets say. -/
theorem listPlaces?_of_insertShape {shape : InsertShape} (h : InsertShape.ofText? t = some shape) :
    listPlaces? t = some (shape.columns, shape.values) := by
  obtain ⟨t₁, hinsert, hnoise⟩ := Option.bind_eq_some_iff.1 h
  obtain ⟨into, t₂, rfl, hinto, hread⟩ := exists_of_readNoise_leading (by decide) hnoise
  obtain ⟨insert, rfl, hhead⟩ := exists_of_afterLeading? (by decide) hinsert
  rw [listPlaces?_append hhead, listPlaces?_append hinto, listPlaces?_of_readInsertion hread]

/-! ## Insertions -/

/-- What the numbers of columns and of values are if both lists are read. -/
theorem listLengths?_eq {shape : InsertShape} {columns values : List Text}
    (hshape : InsertShape.ofText? (mask statement) = some shape)
    (hcolumns : readColumns (readPart statement shape.columns) = .ok columns)
    (hvalues : splitList (readPart statement shape.values) = .ok values) :
    listLengths? statement = some (columns.length, values.length) := by
  have hlength : columns.length = ((readPart statement shape.columns).pieces ',').length := by
    simp only [readColumns] at hcolumns
    split at hcolumns
    · cases hcolumns
    · cases hcolumns
      exact List.length_map _
  simp [listLengths?, listPlaces?_of_insertShape hshape, hvalues, hlength, Except.toOption]

/-- An insertion is read with checks if and only if it is read without, and the lists are even if
    they have to be. -/
theorem readInsert_eq_ok_iff_evenLists {q : Insert} :
    readInsert checks statement = .ok q ↔ readInsert {} statement = .ok q ∧
      (checks.evenLists = true → ∃ n, listLengths? statement = some (n, n)) := by
  simp only [readInsert_eq_ok_iff]
  constructor
  · rintro ⟨shape, columns, values, hshape, hentity, hcolumns, hvalues, hfull, heven, hrest⟩
    refine ⟨⟨shape, columns, values, hshape, hentity, hcolumns, hvalues, hfull, nofun, hrest⟩,
      fun h => ⟨columns.length, ?_⟩⟩
    rw [listLengths?_eq hshape hcolumns hvalues, ← heven h]
  · rintro ⟨⟨shape, columns, values, hshape, hentity, hcolumns, hvalues, hfull, -, hrest⟩, heven⟩
    refine ⟨shape, columns, values, hshape, hentity, hcolumns, hvalues, hfull, fun h => ?_, hrest⟩
    obtain ⟨n, hn⟩ := heven h
    rw [listLengths?_eq hshape hcolumns hvalues] at hn
    obtain ⟨hn, hm⟩ := Prod.mk.inj (Option.some.inj hn)
    rw [hn, hm]

/-! ## Queries -/

theorem operation_of_readOperation {op : Operation} {q : Query}
    (h : readOperation checks statement op = .ok q) : q.operation = op := by
  cases op <;> obtain ⟨read, -, rfl⟩ := map_eq_ok.1 h <;> rfl

/-- The statements of the other operations have no lists that are checked. -/
theorem readOperation_of_ne_insert {op : Operation} (h : op ≠ .insert) :
    readOperation checks statement op = readOperation {} statement op := by
  cases op <;> first | rfl | exact absurd rfl h

theorem readOperation_eq_ok_iff_evenLists {op : Operation} {q : Query} :
    readOperation checks statement op = .ok q ↔ readOperation {} statement op = .ok q ∧
      (checks.evenLists = true → q.operation = .insert →
        ∃ n, listLengths? statement = some (n, n)) := by
  by_cases hop : op = .insert
  · subst hop
    simp only [readOperation, map_eq_ok]
    constructor
    · rintro ⟨i, hread, rfl⟩
      obtain ⟨hread, heven⟩ := readInsert_eq_ok_iff_evenLists.1 hread
      exact ⟨⟨i, hread, rfl⟩, fun h _ => heven h⟩
    · rintro ⟨⟨i, hread, rfl⟩, heven⟩
      exact ⟨i, readInsert_eq_ok_iff_evenLists.2 ⟨hread, fun h => heven h rfl⟩, rfl⟩
  · rw [readOperation_of_ne_insert hop]
    refine ⟨fun h => ⟨h, fun _ hinsert => ?_⟩, fun h => h.1⟩
    exact absurd ((operation_of_readOperation h).symm.trans hinsert) hop

/-- A text is read as a query if and only if its statement is, and the query has the filter that it
    is asked to have. -/
theorem ofText_eq_ok_iff {q : Query} :
    Query.ofText checks t = .ok q ↔ ∃ statement op, ofText? t = some statement ∧
      Operation.ofWord? (leadingWord statement) = some op ∧
      readOperation checks statement op = .ok q ∧ (checks.filter && q.isUnscoped) = false :=
  ⟨exists_of_ofText, fun ⟨_, _, hstatement, hop, hread, hscoped⟩ =>
    ofText_of_readOperation hstatement hop hread hscoped⟩

end Statement

namespace Query

open Statement

/-- A query is scoped if it has a filter or needs none. -/
theorem isUnscoped_eq_false_iff {q : Query} : q.isUnscoped = false ↔
    (q.operation = .update ∨ q.operation = .delete → q.filter.isSome = true) := by
  simp [isUnscoped, Option.isSome_iff_ne_none]

theorem ofText_eq_ok_iff_of_checks {checks : Checks} {t : Text} {q : Query} :
    ofText checks t = .ok q ↔ ofText {} t = .ok q ∧
      (checks.evenLists = true → q.operation = .insert → HasEvenLists t) ∧
      (checks.filter = true → q.operation = .update ∨ q.operation = .delete →
        q.filter.isSome = true) := by
  simp only [ofText_eq_ok_iff]
  constructor
  · rintro ⟨statement, op, hstatement, hop, hread, hscoped⟩
    obtain ⟨hread, heven⟩ := readOperation_eq_ok_iff_evenLists.1 hread
    refine ⟨⟨statement, op, hstatement, hop, hread, rfl⟩, fun h hinsert => ?_, fun h => ?_⟩
    · obtain ⟨n, hn⟩ := heven h hinsert
      exact ⟨statement, n, hstatement, hn⟩
    · rw [h, Bool.true_and] at hscoped
      exact isUnscoped_eq_false_iff.1 hscoped
  · rintro ⟨⟨statement, op, hstatement, hop, hread, -⟩, heven, hfilter⟩
    refine ⟨statement, op, hstatement, hop,
      readOperation_eq_ok_iff_evenLists.2 ⟨hread, fun h hinsert => ?_⟩, ?_⟩
    · obtain ⟨found, n, hfound, hn⟩ := heven h hinsert
      cases hstatement.symm.trans hfound
      exact ⟨n, hn⟩
    · cases h : checks.filter with
      | false => rfl
      | true => exact isUnscoped_eq_false_iff.2 (hfilter h)

/-- A query that is only refused for its filter is refused with its statement. -/
theorem eq_missingFilter_of_ofText {checks : Checks} {t : Text} {q : Query}
    {cause : Statement.Error} (hread : ofText { checks with filter := false } t = .ok q)
    (hcause : ofText { checks with filter := true } t = .error cause) :
    ∃ statement, ofText? t = some statement ∧ cause = .missingFilter q.operation statement := by
  obtain ⟨statement, op, hstatement, hop, hread, -⟩ := exists_of_ofText hread
  have hsame : readOperation { checks with filter := true } statement op = .ok q := hread
  refine ⟨statement, hstatement, ?_⟩
  rw [operation_of_readOperation hread]
  simp only [ofText, hstatement, hop, hsame, bind, Except.bind] at hcause
  split at hcause
  · exact (Except.error.inj hcause).symm
  · cases hcause

/-- Checks only refuse: a text is read as the query that it is read as without them, or not at all.
    A text that is refused without checks is refused with them, and one that is refused only
    because of its filter is refused with its statement. -/
theorem checks_only_refuse (checks : Checks) (t : Text) :
    (∀ q, ofText checks t = .ok q ↔ ofText {} t = .ok q ∧
      (checks.evenLists = true → q.operation = .insert → HasEvenLists t) ∧
      (checks.filter = true → q.operation = .update ∨ q.operation = .delete →
        q.filter.isSome = true)) ∧
    (∀ cause, ofText {} t = .error cause → ∃ cause', ofText checks t = .error cause') ∧
    (∀ q cause, ofText { checks with filter := false } t = .ok q →
      ofText { checks with filter := true } t = .error cause →
      ∃ statement, ofText? t = some statement ∧ cause = .missingFilter q.operation statement) := by
  refine ⟨fun q => ofText_eq_ok_iff_of_checks, fun cause hcause => ?_, fun q cause hread =>
    eq_missingFilter_of_ofText hread⟩
  cases hread : ofText checks t with
  | error cause' => exact ⟨cause', rfl⟩
  | ok q =>
    obtain ⟨hlenient, -⟩ := ofText_eq_ok_iff_of_checks.1 hread
    cases hcause.symm.trans hlenient

/-- An insertion with brackets and a comma in a literal, which has a value too many, and a deletion
    without a filter. -/
theorem checks_only_refuse_of_faulty :
    let uneven : Text := "Insert t(a,b) values ('),(', 2,\u00a03 )".toList
    let unscoped : Text := " DELETE t".toList
    (∃ q, ofText {} uneven = .ok q ∧ ofText ⟨false, true⟩ uneven = .ok q ∧
      ofText ⟨true, false⟩ uneven ≠ .ok q) ∧
    ofText .strict unscoped = .error (.missingFilter .delete "DELETE t;".toList) := by
  intro uneven unscoped
  constructor
  · let q : Query :=
      .insert ⟨['t'], .ofList [(['a'], .string "),(".toList), (['b'], .integer 2)]⟩
    have hread : ofText {} uneven = .ok q := by decide +kernel
    have hstatement : ofText? uneven = some (uneven ++ [';']) := by decide +kernel
    have hlengths : listLengths? (uneven ++ [';']) = some (2, 3) := by decide +kernel
    refine ⟨q, hread, ?_, fun h => ?_⟩
    · have hneeded : ¬ (q.operation = .update ∨ q.operation = .delete) := by decide +kernel
      exact ((checks_only_refuse ⟨false, true⟩ uneven).1 q).2
        ⟨hread, nofun, fun _ hop => absurd hop hneeded⟩
    · obtain ⟨-, heven, -⟩ := ((checks_only_refuse ⟨true, false⟩ uneven).1 q).1 h
      obtain ⟨statement, n, hfound, hn⟩ := heven rfl rfl
      cases hstatement.symm.trans hfound
      cases hlengths.symm.trans hn
  · have hread : ofText ⟨true, false⟩ unscoped = .ok (.delete ⟨['t'], none⟩) := by decide +kernel
    obtain ⟨haccepted, -, hrefused⟩ := checks_only_refuse .strict unscoped
    cases hstrict : ofText .strict unscoped with
    | ok q =>
      obtain ⟨hq, -, hfilter⟩ := (haccepted q).1 hstrict
      have hlenient : ofText {} unscoped = .ok (.delete ⟨['t'], none⟩) := by decide +kernel
      cases hlenient.symm.trans hq
      cases hfilter rfl (.inr rfl)
    | error cause =>
      obtain ⟨statement, hstatement, rfl⟩ := hrefused _ cause hread hstrict
      have hof : ofText? unscoped = some "DELETE t;".toList := by decide +kernel
      cases hof.symm.trans hstatement
      rfl

end Query

end EntityQuery
