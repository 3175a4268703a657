-- SUMMARY: INSERT statements are read back position by position as they were written.
import EntityQuery.Proofs.Statement.Change

/-!
# INSERT statements as they are written

A statement that creates a record gives the columns and the values as two lists
in brackets. A column may have any name that does not end its list, and a
literal may have anything in it. However the statement is written, columns and
values are paired by position, as far as both lists go.
-/

namespace EntityQuery

/-- Marks between brackets. -/
def Mark.bracketed (marks : List Mark) : List Mark :=
  [.text ['('], .space] ++ marks ++ [.space, .text [')']]

namespace Statement

/-! ## What a statement says -/

/-- What an INSERT statement says. The keyword after `INSERT` may be left out. -/
structure Insertion where
  withInto : Bool
  entity : Text
  columns : List Text
  literals : List Literal

/-- A name that a column can have in brackets. -/
def IsColumnName (name : Text) : Prop :=
  name ≠ [] ∧ name.trim = name ∧ ',' ∉ name ∧ ')' ∉ name ∧ '\'' ∉ name

instance (name : Text) : Decidable (IsColumnName name) :=
  inferInstanceAs (Decidable (_ ∧ _))

namespace Insertion

/-- The keywords before the name of the entity. -/
def words (s : Insertion) : List Text :=
  if s.withInto then ["insert".toList, "into".toList] else ["insert".toList]

/-- How an INSERT statement is written. -/
def marks (s : Insertion) : List Mark :=
  Mark.leading s.words ++ [.text s.entity, .space] ++
    Mark.bracketed (Mark.list (s.columns.map ([.text ·]))) ++
    [.space, .keyword "values".toList, .space] ++
    Mark.bracketed (Mark.list (s.literals.map Literal.marks))

/-- Whether an INSERT statement can be written. -/
@[mk_iff] structure Valid (s : Insertion) : Prop where
  entity : s.entity.IsEntityName
  columns : s.columns ≠ [] ∧ ∀ c ∈ s.columns, IsColumnName c
  literals : s.literals ≠ [] ∧ ∀ l ∈ s.literals, l.Valid

instance (s : Insertion) : Decidable s.Valid :=
  decidable_of_iff' _ (valid_iff s)

/-- The columns with their values, by position. -/
def pairs (s : Insertion) : List (Text × Value) :=
  s.columns.zip (s.literals.map Literal.value)

theorem isKeyword_words (s : Insertion) : ∀ word ∈ s.words, Text.IsKeyword word := by
  rw [words]
  split <;> decide

end Insertion

/-! ## The shape -/

/-- A bracket is found after blanks. -/
theorem afterBracket?_append {bracket : Char} (hbracket : isBlank bracket = false) {g : Text}
    (hg : g.isBlank = true) (t : Text) : afterBracket? bracket (g ++ bracket :: t) = some t := by
  have hstart : Text.trimStart (g ++ bracket :: t) = bracket :: t := by
    rw [Text.trimStart_append_of_isBlank hg, Text.trimStart_of_head? (by simpa using hbracket)]
  rw [afterBracket?, hstart]
  exact if_pos rfl

/-- A text is read up to the last place, whatever comes before. -/
theorem readUpToLast_append {α : Type} {k : Text → Option α} {c : Char} {after : Text}
    (hafter : readUpToLast k after = none) {a : α} (ha : k (c :: after) = some a) (t : Text) :
    readUpToLast k (t ++ c :: after) = some (c :: after, a) := by
  induction t with
  | nil =>
    rw [List.nil_append, readUpToLast, hafter, ha]
    rfl
  | cons d t ih =>
    rw [List.cons_append, readUpToLast, ih]
    rfl

/-- The parts of an INSERT statement as they are written, with what stands between them. -/
structure InsertText where
  head : Text
  entity : Text
  gap : Text
  columns : Text
  between : Text
  values : Text

namespace InsertText

variable (p : InsertText) (last : Text)

/-! The text of a statement from one of its places on, with `last` as the end of the statement. -/

def afterValues : Text := ')' :: last
def afterColumns : Text := ')' :: (p.between ++ '(' :: (p.values ++ afterValues last))
def afterEntity : Text := p.gap ++ '(' :: (p.columns ++ p.afterColumns last)
def text : Text := p.head ++ (p.entity ++ p.afterEntity last)

theorem text_eq : p.text last = (p.head ++ p.entity ++ p.gap ++ '(' :: p.columns ++
    ')' :: p.between ++ '(' :: p.values) ++ [')'] ++ last := by
  simp [text, afterEntity, afterColumns, afterValues]

/-- The parts with the literals among the values masked. -/
def masked : InsertText :=
  { p with values := mask p.values }

/-- Whether the parts can be told from each other. Only the values may have literals in them. -/
structure Formed (words : List Text) : Prop where
  head : Written (Mark.leading words) p.head
  entity : p.entity.IsEntityName
  gap : p.gap.isBlank = true
  columns : ')' ∉ p.columns ∧ '\'' ∉ p.columns
  between : Written [.space, .keyword "values".toList, .space] p.between

variable {p last} {s : Insertion}

namespace Formed

theorem formed_masked (h : p.Formed s.words) : p.masked.Formed s.words :=
  ⟨h.head, h.entity, h.gap, h.columns, h.between⟩

theorem quote_notMem (h : p.Formed s.words) :
    '\'' ∉ p.head ∧ '\'' ∉ p.entity ∧ '\'' ∉ p.gap ∧ '\'' ∉ p.between := by
  obtain ⟨l, _, hbetween, hl, keyword, r, rfl, hkeyword, hr⟩ := h.between
  have hvalues : Text.IsKeyword (Text.lower "values".toList) := by decide
  have hkeyword : keyword.IsPlain := Text.isPlain_of_sameWord hvalues hkeyword
  have hr : r.isBlank = true := written_singleton.1 hr
  refine ⟨notMem_of_leading s.isKeyword_words h.head (by decide),
    (Text.isPlain_of_isIdentifier h.entity.1).quote_notMem, Text.notMem_of_isBlank h.gap rfl, ?_⟩
  have hquote : isBlank '\'' = false := rfl
  simp [hbetween, Text.notMem_of_isBlank hl hquote, hkeyword.quote_notMem,
    Text.notMem_of_isBlank hr hquote]

/-- From the end of the columns on, a statement is masked in its values only. -/
theorem mask_afterColumns (h : p.Formed s.words) (hclosed : p.values.QuotesClosed)
    (hlast : '\'' ∉ last) : (p.afterColumns last).QuotesClosed ∧
      mask (p.afterColumns last) = p.masked.afterColumns last := by
  obtain ⟨-, -, -, hbetween⟩ := h.quote_notMem
  have hend : '\'' ∉ afterValues last := by simp [afterValues, hlast]
  have hendClosed := Text.quotesClosed_of_notMem hend
  have hopening : '\'' ∉ ')' :: (p.between ++ ['(']) := by simp [hbetween]
  have hafter : p.afterColumns last =
      ')' :: (p.between ++ ['(']) ++ (p.values ++ afterValues last) := by
    simp [afterColumns]
  obtain ⟨hcolumns, hmask⟩ := mask_append_of_notMem hopening (hclosed.append hendClosed)
  rw [hafter, hmask, mask_append hclosed hendClosed, mask_of_notMem hend]
  exact ⟨hcolumns, by simp [afterColumns, masked]⟩

theorem mask_text (h : p.Formed s.words) (hclosed : p.values.QuotesClosed) (hlast : '\'' ∉ last) :
    (p.text last).QuotesClosed ∧ mask (p.text last) = p.masked.text last := by
  obtain ⟨hhead, hentity, hgap, -⟩ := h.quote_notMem
  obtain ⟨hafter, hmaskAfter⟩ := h.mask_afterColumns hclosed hlast
  have hstart : '\'' ∉ p.head ++ (p.entity ++ (p.gap ++ '(' :: p.columns)) := by
    simp [hhead, hentity, hgap, h.columns.2]
  have htext : p.text last =
      p.head ++ (p.entity ++ (p.gap ++ '(' :: p.columns)) ++ p.afterColumns last := by
    simp [text, afterEntity]
  obtain ⟨hclosed, hmask⟩ := mask_append_of_notMem hstart hafter
  rw [htext, hmask, hmaskAfter]
  exact ⟨hclosed, by simp [text, afterEntity, masked]⟩

/-- What follows the name of the entity is no part of it. -/
theorem isNameChar_head? (h : p.Formed s.words) :
    ∀ c ∈ (p.afterEntity last).head?, isNameChar c = false := by
  intro c hc
  rw [afterEntity] at hc
  cases hg : p.gap with
  | nil =>
    rw [hg] at hc
    obtain rfl : '(' = c := by simpa using hc
    decide
  | cons d g =>
    rw [hg] at hc
    obtain rfl : d = c := by simpa using hc
    exact isNameChar_of_isBlank (Text.isBlank_iff.1 h.gap d (by simp [hg]))

/-- The keyword between the lists is passed over. -/
theorem afterValues? (h : p.Formed s.words) (after : Text) :
    (Text.afterKeyword? "values".toList (Text.trimStart (p.between ++ '(' :: after))).bind
      (afterBracket? '(') = some after := by
  obtain ⟨l, _, hbetween, hl, keyword, r, rfl, hkeyword, hr⟩ := h.between
  have hvalues : Text.IsKeyword "values".toList := by decide
  have hfold := hvalues.map_foldCase hkeyword
  rw [hbetween, List.append_assoc, Text.trimStart_append_of_isBlank hl, List.append_assoc,
    hvalues.trimStart_append hfold, Text.afterKeyword?_append hfold, Option.bind_some,
    afterBracket?_append (by decide) (written_singleton.1 hr)]

/-- The parts from the name of the entity on. -/
theorem readInsertion (h : p.Formed s.words) {w : Text} (hw : w.isBlank = true)
    (hlast : last = w ++ [';']) : readInsertion (p.entity ++ p.afterEntity last) = some
      ⟨⟨p.entity ++ p.afterEntity last, p.afterEntity last⟩,
        ⟨p.columns ++ p.afterColumns last, p.afterColumns last⟩,
        ⟨p.values ++ afterValues last, afterValues last⟩⟩ := by
  have hopen : afterBracket? '(' (p.afterEntity last) =
      some (p.columns ++ p.afterColumns last) :=
    afterBracket?_append (by decide) h.gap _
  have hcolumns : (p.columns ++ p.afterColumns last).dropWhile (· != ')') = p.afterColumns last :=
    (takeWhile_append_of_head? (fun c hc => by simpa using ne_of_mem_of_not_mem hc h.columns.1)
      (by simp [afterColumns])).2
  have hclose : afterBracket? ')' (p.afterColumns last) =
      some (p.between ++ '(' :: (p.values ++ afterValues last)) :=
    afterBracket?_append (g := []) (by decide) rfl _
  have hend : Statement.readUpToLast readValuesEnd (p.values ++ afterValues last) =
      some (afterValues last, ()) := by
    have hblank : ')' ∉ w := Text.notMem_of_isBlank hw rfl
    refine readUpToLast_append (readUpToLast_of_bracket_notMem ?_) ?_ p.values
    · simp [hlast, hblank]
    · rw [hlast]
      exact readEnd_append hw
  have hvalues := h.afterValues? (p.values ++ afterValues last)
  rw [Statement.readInsertion, readName_append_of_head? h.entity.1 h.isNameChar_head?]
  simp only [Option.bind_eq_bind, Option.bind_some, hopen, hcolumns, hclose]
  rw [← Option.bind_assoc, hvalues, Option.bind_some, hend, Option.bind_some]

/-- A name cannot go on with what follows it, and no keyword can either. -/
theorem endsKeyword (h : p.Formed s.words) {word : Text} (hword : Text.IsKeyword word) :
    Text.EndsKeyword word (p.afterEntity last) := by
  intro c hc hmem
  have hletter : (foldCase c).isAlpha = true := Bool.or_eq_true_iff.2 (.inr (hword.2 _ hmem))
  have hnone := h.isNameChar_head? c hc
  simp [isNameChar, isNameStart, hletter] at hnone

/-- The shape of an INSERT statement. -/
theorem ofText? (h : p.Formed s.words) {w : Text} (hw : w.isBlank = true)
    (hlast : last = w ++ [';']) : InsertShape.ofText? (p.text last) = some
      ⟨⟨p.entity ++ p.afterEntity last, p.afterEntity last⟩,
        ⟨p.columns ++ p.afterColumns last, p.afterColumns last⟩,
        ⟨p.values ++ afterValues last, afterValues last⟩⟩ := by
  have hwords : s.words = ["insert".toList, "into".toList] ∨ s.words = ["insert".toList] := by
    cases hinto : s.withInto <;> simp [Insertion.words, hinto]
  exact readNoise_leading_append hwords h.head (by decide) (by decide) (by decide) h.entity
    (h.endsKeyword (by decide)) (h.readInsertion hw hlast)

/-- The lists are read from where they are. -/
theorem readPart_eq (h : p.Formed s.words) (hclosed : p.values.QuotesClosed)
    (hlast : '\'' ∉ last) :
    readPart (p.text last) ⟨p.masked.columns ++ p.masked.afterColumns last,
      p.masked.afterColumns last⟩ = p.columns ∧
    readPart (p.text last) ⟨p.masked.values ++ afterValues last, afterValues last⟩ =
      p.values := by
  obtain ⟨hafter, hmask⟩ := h.mask_afterColumns hclosed hlast
  obtain ⟨hstatement, -⟩ := h.mask_text hclosed hlast
  have hend : '\'' ∉ afterValues last := by simp [afterValues, hlast]
  have hcolumns : p.columns ++ p.afterColumns last <:+ p.text last :=
    ⟨p.head ++ (p.entity ++ (p.gap ++ ['('])), by simp [text, afterEntity]⟩
  have hvalues : p.values ++ afterValues last <:+ p.text last := by
    refine List.IsSuffix.trans ⟨')' :: (p.between ++ ['(']), ?_⟩
      ((List.suffix_append p.columns _).trans hcolumns)
    simp [afterColumns]
  constructor
  · have hread := readPart_of_suffix hstatement (Text.quotesClosed_of_notMem h.columns.2) hafter
      hcolumns
    rwa [mask_of_notMem h.columns.2, hmask] at hread
  · have hread := readPart_of_suffix hstatement hclosed (Text.quotesClosed_of_notMem hend) hvalues
    rwa [mask_of_notMem hend] at hread

end Formed

end InsertText

/-! ## Lists in brackets -/

/-- The columns are read from their list. -/
theorem readColumns_of_written {columns : List Text} (hne : columns ≠ [])
    (hcolumns : ∀ c ∈ columns, IsColumnName c) {t : Text}
    (h : Written (.space :: Mark.list (columns.map ([.text ·])) ++ [.space]) t) :
    readColumns t = .ok columns ∧ ')' ∉ t ∧ '\'' ∉ t := by
  obtain ⟨_, e, rfl, ⟨b, u, rfl, hb, hu⟩, he⟩ := written_append.1 h
  have hjoined := joined_of_written hne hu
  have he : e.isBlank = true := written_singleton.1 he
  have hpieces := hjoined.trimmedPieces_append
    (fun c hc => ⟨(hcolumns c hc).2.1, (hcolumns c hc).2.2.1⟩) hb he
  have hempty : columns.any List.isEmpty = false := by
    simpa using fun c hc => (hcolumns c hc).1
  have hnone {x : Char} (hx : isBlank x = false) (hcomma : x ≠ ',') (hmem : ∀ c ∈ columns, x ∉ c) :
      x ∉ b ++ u ++ e := by
    simp [Text.notMem_of_isBlank hb hx, hjoined.notMem hx hcomma hmem, Text.notMem_of_isBlank he hx]
  refine ⟨?_, hnone rfl (by decide) fun c hc => (hcolumns c hc).2.2.2.1,
    hnone rfl (by decide) fun c hc => (hcolumns c hc).2.2.2.2⟩
  rw [readColumns, List.append_assoc, hpieces, hempty]
  rfl

/-- The values are read from their list. -/
theorem readValues_of_written {literals : List Literal} (hne : literals ≠ [])
    (hliterals : ∀ l ∈ literals, l.Valid) {t : Text}
    (h : Written (.space :: Mark.list (literals.map Literal.marks) ++ [.space]) t) :
    t.QuotesClosed ∧ ∃ items, splitList t = .ok items ∧ items.any List.isEmpty = false ∧
      items.map Value.ofLiteral = literals.map Literal.value := by
  obtain ⟨_, e, rfl, ⟨b, u, rfl, hb, hu⟩, he⟩ := written_append.1 h
  obtain ⟨items, hitems, hjoined⟩ := exists_joined (by simpa using hne) hu
  have he : e.isBlank = true := written_singleton.1 he
  have hitem : ∀ l ∈ literals, ∀ item, Written l.marks item →
      (Except.ok (Value.ofLiteral item) : Except Unit Value) = .ok l.value ∧
        (item.QuotesClosed ∧ IsBody ["where".toList] (mask item) ∧ ',' ∉ mask item) ∧
          item ≠ [] := by
    intro l hl item hitem
    obtain ⟨hclosed, hbody, hcomma, -⟩ := Literal.isBody_of_written (hliterals l hl) hitem
    rw [Literal.ofLiteral_of_written (hliterals l hl) hitem]
    exact ⟨rfl, ⟨hclosed, hbody, hcomma⟩, (Literal.trim_of_written (hliterals l hl) hitem).1⟩
  obtain ⟨hvalues, hall⟩ := mapM_of_forall₂_written hitems hitem
  obtain ⟨hclosed, -, hsplit⟩ :=
    hjoined.splitList_of_isBody (by decide) fun item hitem => (hall item hitem).1
  refine ⟨?_, items, by simpa using hsplit b e hb he, by simpa using fun u hu => (hall u hu).2, ?_⟩
  · have hplain {g : Text} (hg : g.isBlank = true) : g.QuotesClosed :=
      Text.quotesClosed_of_notMem (Text.notMem_of_isBlank hg rfl)
    exact ((hplain hb).append hclosed).append (hplain he)
  · rw [show items.mapM (fun item => (Except.ok (Value.ofLiteral item) : Except Unit Value)) =
      .ok (items.map Value.ofLiteral) from List.mapM_pure] at hvalues
    exact Except.ok.inj hvalues

/-! ## Statements -/

theorem exists_bracketed {marks : List Mark} {t : Text} (h : Written (Mark.bracketed marks) t) :
    ∃ inner, t = '(' :: (inner ++ [')']) ∧ Written (.space :: marks ++ [.space]) inner := by
  have hmarks : Mark.bracketed marks =
      .text ['('] :: ((.space :: marks ++ [.space]) ++ [.text [')']]) := by
    simp [Mark.bracketed]
  rw [hmarks] at h
  obtain ⟨_, _, rfl, rfl, hrest⟩ := h
  obtain ⟨inner, _, rfl, hinner, hclose⟩ := written_append.1 hrest
  obtain rfl := written_text.1 hclose
  exact ⟨inner, rfl, hinner⟩

/-- Whether the parts of a statement are read as what the statement says. -/
structure InsertText.Says (p : InsertText) (s : Insertion) : Prop where
  formed : p.Formed s.words
  entity : p.entity = s.entity
  columns : readColumns p.columns = .ok s.columns
  closed : p.values.QuotesClosed
  values : ∃ items, splitList p.values = .ok items ∧ items.any List.isEmpty = false ∧
    items.map Value.ofLiteral = s.literals.map Literal.value

/-- A statement is written part by part. -/
theorem Insertion.Valid.exists_text {s : Insertion} (hs : s.Valid) {u : Text}
    (hu : Written s.marks u) : ∃ p : InsertText, p.Says s ∧ u = p.text [] := by
  have hmarks : s.marks = Mark.leading s.words ++ (.text s.entity :: .space ::
      (Mark.bracketed (Mark.list (s.columns.map ([.text ·]))) ++
        ([.space, .keyword "values".toList, .space] ++
          Mark.bracketed (Mark.list (s.literals.map Literal.marks))))) := by
    simp [Insertion.marks]
  rw [hmarks] at hu
  obtain ⟨head, _, rfl, hhead, entity, _, rfl, rfl, gap, _, rfl, hgap, hlists⟩ :=
    written_append.1 hu
  obtain ⟨_, _, rfl, hcolumns, hlists⟩ := written_append.1 hlists
  obtain ⟨between, _, rfl, hbetween, hvalues⟩ := written_append.1 hlists
  obtain ⟨columns, rfl, hcolumnList⟩ := exists_bracketed hcolumns
  obtain ⟨values, rfl, hvalueList⟩ := exists_bracketed hvalues
  obtain ⟨hreadColumns, hplain⟩ := readColumns_of_written hs.columns.1 hs.columns.2 hcolumnList
  obtain ⟨hclosed, hreadValues⟩ := readValues_of_written hs.literals.1 hs.literals.2 hvalueList
  exact ⟨⟨head, s.entity, gap, columns, between, values⟩,
    ⟨⟨hhead, hs.entity, hgap, hplain, hbetween⟩, rfl, hreadColumns, hclosed, hreadValues⟩,
    by simp [InsertText.text_eq]⟩

/-- A statement with lists of different lengths is refused if that is checked. -/
theorem InsertText.Says.readInsert {s : Insertion} (hs : s.Valid) {p : InsertText}
    (h : p.Says s) {w : Text} (hw : w.isBlank = true) (checks : Checks) :
    readInsert checks (p.text (w ++ [';'])) = atStatement .insert (p.text (w ++ [';']))
      (if checks.evenLists ∧ s.columns.length ≠ s.literals.length then
        .error (.unevenLists s.columns.length s.literals.length)
      else .ok ⟨s.entity, Assignments.ofList s.pairs⟩) := by
  have hlast := quote_notMem_end hw
  obtain ⟨hcolumnsPart, hvaluesPart⟩ := h.formed.readPart_eq h.closed hlast
  obtain ⟨-, hmask⟩ := h.formed.mask_text h.closed hlast
  obtain ⟨items, hitems, hfilled, hvalues⟩ := h.values
  have hshape : InsertShape.ofText? (mask (p.text (w ++ [';']))) = _ :=
    hmask ▸ h.formed.formed_masked.ofText? hw rfl
  have hentity : readEntity ⟨p.masked.entity ++ p.masked.afterEntity (w ++ [';']),
      p.masked.afterEntity (w ++ [';'])⟩ = .ok s.entity :=
    h.entity ▸ readEntity_append h.formed.entity _
  have hlength : items.length = s.literals.length := by
    simpa using congrArg List.length hvalues
  have hsome : (Assignments.ofList (s.columns.zip (s.literals.map Literal.value))).isEmpty =
      false := by
    rw [Assignments.isEmpty_ofList]
    simpa using ⟨hs.columns.1, hs.literals.1⟩
  rw [Statement.readInsert, hshape]
  simp only [requireShape, bind, Except.bind, hentity, hcolumnsPart, h.columns, atStatement,
    hvaluesPart, hitems, atLexer, hfilled, hlength, hvalues, hsome, Insertion.pairs,
    Bool.false_eq_true, if_false]

/-- A text becomes a statement that creates a record. -/
theorem Insertion.Valid.exists_statement {s : Insertion} (hs : s.Valid) {t : Text}
    (ht : States s.marks t) : ∃ p : InsertText, p.Says s ∧ ∃ w : Text, w.isBlank = true ∧
      ofText? t = some (p.text (w ++ [';'])) ∧
      Operation.ofWord? (leadingWord (p.text (w ++ [';']))) = some .insert := by
  have hends : ∀ u, Written s.marks u → u ≠ [] ∧ u.getLast? ≠ some ';' := by
    intro u hu
    obtain ⟨p, -, rfl⟩ := hs.exists_text hu
    rw [p.text_eq, List.append_nil, List.getLast?_concat]
    exact ⟨List.append_ne_nil_of_right_ne_nil _ (List.cons_ne_nil _ _), by decide⟩
  obtain ⟨u, w, hu, hw, hstatement⟩ := exists_ofText?_of_getLast? ht hends
  obtain ⟨p, hp, rfl⟩ := hs.exists_text hu
  have htext : p.text [] ++ (w ++ [';']) = p.text (w ++ [';']) := by simp [InsertText.text_eq]
  rw [htext] at hstatement
  refine ⟨p, hp, w, hw, hstatement, ?_⟩
  have hhead := hp.formed.head
  rw [Insertion.words] at hhead
  split at hhead <;> exact ofWord?_leading (by decide) hhead _

/-- INSERT statements are read back position by position: the entity, and for every column the
    value at the last of its places that both lists have. Only where it is checked do the lists
    have to be of the same length. -/
theorem ofText_insertion {s : Insertion} (hs : s.Valid) {t : Text} (ht : States s.marks t) :
    (∃ values, (∀ column, values.find? column = s.pairs.reverse.lookup column) ∧
      ∀ checks : Checks, checks.evenLists = false ∨ s.columns.length = s.literals.length →
        Query.ofText checks t = .ok (.insert ⟨s.entity, values⟩)) ∧
    ∀ checks : Checks, checks.evenLists = true → s.columns.length ≠ s.literals.length →
      ∃ statement, ofText? t = some statement ∧ Query.ofText checks t =
        .error (.invalid .insert statement (.unevenLists s.columns.length s.literals.length)) := by
  obtain ⟨p, hp, w, hw, hstatement, hword⟩ := hs.exists_statement ht
  have hread := hp.readInsert hs hw
  constructor
  · refine ⟨Assignments.ofList s.pairs, Assignments.find?_ofList s.pairs, fun checks hchecks => ?_⟩
    refine ofText_of_readOperation hstatement hword ?_ (Bool.and_false _)
    have heven : ¬ (checks.evenLists = true ∧ s.columns.length ≠ s.literals.length) := by
      obtain hoff | hlength := hchecks
      · simp [hoff]
      · simp [hlength]
    rw [readOperation, hread, if_neg heven]
    rfl
  · intro checks hcheck hlength
    refine ⟨_, hstatement, ?_⟩
    have huneven := And.intro hcheck hlength
    simp only [Query.ofText, hstatement, hword, readOperation, hread, if_pos huneven]
    rfl

/-- A column is given twice, there are more values than columns, and a literal has brackets, commas,
    a keyword and a semicolon in it. -/
theorem ofText_insertion_of_repeated_column :
    (∃ values, values.find? "a".toList = some (.boolean true) ∧
      values.find? "b c".toList = some (.string "), VALUES (\n;é".toList) ∧
      Query.ofText {} "Insert INTO t( a,b c ,a)values('x', '), VALUES (\n;é',TRUE , -5 )".toList =
        .ok (.insert ⟨"t".toList, values⟩)) ∧
    ∃ statement, Query.ofText .strict
      "Insert INTO t( a,b c ,a)values('x', '), VALUES (\n;é',TRUE , -5 )".toList =
        .error (.invalid .insert statement (.unevenLists 3 4)) := by
  have hvalid : Insertion.Valid ⟨true, "t".toList, ["a".toList, "b c".toList, "a".toList],
      [.text "x".toList, .text "), VALUES (\n;é".toList, .boolean true, .integer (-5)]⟩ := by
    decide +kernel
  have hstates : States (Insertion.marks ⟨true, "t".toList, ["a".toList, "b c".toList, "a".toList],
      [.text "x".toList, .text "), VALUES (\n;é".toList, .boolean true, .integer (-5)]⟩)
      "Insert INTO t( a,b c ,a)values('x', '), VALUES (\n;é',TRUE , -5 )".toList :=
    ⟨"Insert INTO t( a,b c ,a)values('x', '), VALUES (\n;é',TRUE , -5 )".toList,
      by decide +kernel, .inl (by decide +kernel)⟩
  obtain ⟨⟨values, hvalues, hread⟩, hrefused⟩ := ofText_insertion hvalid hstates
  obtain ⟨statement, -, herror⟩ := hrefused .strict rfl (by decide)
  exact ⟨⟨values, (hvalues _).trans (by decide), (hvalues _).trans (by decide),
    hread {} (.inl rfl)⟩, statement, herror⟩

end Statement

end EntityQuery
