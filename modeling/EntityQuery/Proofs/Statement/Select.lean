-- SUMMARY: A SELECT statement is read back clause by clause as it was written.
import EntityQuery.Proofs.Statement.Written
import EntityQuery.Proofs.Value

/-!
# SELECT statements as they are written

What a SELECT statement says is given clause by clause, and from that follows
how it may be written. However it is written, the query that is read from it
says the same.
-/

namespace EntityQuery.Statement

/-! ## What a statement says -/

/-- What a SELECT statement says, clause by clause. -/
structure Selection where
  fields : List Text
  entity : Text
  condition : Option Text := none
  order : Option (List (Text × Option Direction)) := none
  limit : Option UInt64 := none

/-- How a field to order by is written, with its direction or without one. -/
def orderMarks : Text × Option Direction → List Mark
  | (field, none) => [.text field]
  | (field, some direction) => [.text field, .gap, .keyword direction.word]

namespace Selection

/-- How a SELECT statement is written. -/
def marks (s : Selection) : List Mark :=
  .keyword "select".toList :: .gap :: Mark.list (s.fields.map ([.text ·])) ++
    Mark.clause ["from".toList] [.text s.entity] ++
    Mark.optional (s.condition.map fun c => Mark.clause ["where".toList] [.text c]) ++
    Mark.optional (s.order.map fun items =>
      Mark.clause ["order".toList, "by".toList] (Mark.list (items.map orderMarks))) ++
    Mark.optional (s.limit.map fun n => Mark.clause ["limit".toList] [.text (Text.ofNat n.toNat)])

/-- Whether the clauses can be told from each other: the fields are the wildcard alone or
    identifiers, and no name is the keyword that may come after it. -/
@[mk_iff] structure Valid (s : Selection) : Prop where
  fields : s.fields = [wildcard] ∨
    s.fields ≠ [] ∧ ∀ f ∈ s.fields, f.isIdentifier = true ∧ f.sameWord "from".toList = false
  entity : s.entity.IsEntityName
  condition : ∀ c ∈ s.condition, IsCondition ["order".toList, "limit".toList] c
  order : ∀ items ∈ s.order, items ≠ [] ∧
    ∀ item ∈ items, item.1.isIdentifier = true ∧ item.1.sameWord "limit".toList = false

instance (s : Selection) : Decidable s.Valid :=
  decidable_of_iff' _ (valid_iff s)

/-- What is to be read from a SELECT statement. Where no direction is written, it is ascending. -/
def query (s : Selection) : Select where
  entity := s.entity
  fields := s.fields
  filter := s.condition.map Filter.ofCondition
  orderBy := s.order.map (·.map fun (field, direction) => ⟨field, direction.getD .asc⟩)
  limit := s.limit

end Selection

/-! ## The shape -/

section

variable {filter order limit : Option Clause} {w : Text}

/-- The clauses after the name of the entity are read one after the other. -/
theorem readSelectClauses_append
    (hfilter : ∀ c ∈ filter,
      c.Opens ["where".toList] ∧ IsBody ["order".toList, "limit".toList] c.body)
    (horder : ∀ c ∈ order, c.Opens ["order".toList, "by".toList] ∧ IsBody ["limit".toList] c.body)
    (hlimit : ∀ c ∈ limit,
      c.Opens ["limit".toList] ∧ c.body ≠ [] ∧ ∀ d ∈ c.body, isBlank d = false)
    (hw : w.isBlank = true) :
    let afterLimit := w ++ [';']
    let afterOrder := Clause.sourceOf limit ++ afterLimit
    let afterFilter := Clause.sourceOf order ++ afterOrder
    readSelectClauses (Clause.sourceOf filter ++ afterFilter) =
      some (filter.map (Clause.extent afterFilter), order.map (Clause.extent afterOrder),
        limit.map (Clause.extent afterLimit)) ∧
    EndsBody (Clause.sourceOf filter ++ afterFilter) := by
  intro afterLimit afterOrder afterFilter
  have hafterLimit : GoesOn [';'] afterLimit := goesOn_end hw
  have hafterOrder : GoesOn ['l', ';'] afterOrder :=
    goesOn_sourceOf rfl (by decide) (fun c hc => (hlimit c hc).1) hafterLimit
  have hafterFilter : GoesOn ['o', 'l', ';'] afterFilter :=
    goesOn_sourceOf rfl (by decide) (fun c hc => (horder c hc).1) hafterOrder
  have hwhole : GoesOn ['w', 'o', 'l', ';'] (Clause.sourceOf filter ++ afterFilter) :=
    goesOn_sourceOf rfl (by decide) (fun c hc => (hfilter c hc).1) hafterFilter
  refine ⟨?_, hwhole.endsBody⟩
  have hread : readOptional ["order".toList, "by".toList] readLimitAndEnd afterFilter =
      some (order.map (Clause.extent afterOrder), limit.map (Clause.extent afterLimit)) :=
    readOptional_append horder (by decide) opensWith_readLimitAndEnd (by decide) hafterOrder
      rfl (by decide) (readLimitAndEnd_append hlimit hw)
  exact readOptional_append hfilter (by decide) (opensWith_readLimitAndEnd.readOptional _ _)
    (by decide) hafterFilter rfl (by decide) hread

/-- The name of the entity is read between the fields and the clauses. -/
theorem readSource_append {source : Clause} {after : Text} (hsource : source.Opens ["from".toList])
    (hname : source.body.isIdentifier = true) (hafter : EndsBody after)
    {clauses : Option Extent × Option Extent × Option Extent}
    (hclauses : readSelectClauses after = some clauses) :
    readSource (source.source ++ after) = some (source.extent after, clauses) := by
  obtain ⟨g, hg, hopen⟩ := hsource.afterPhrase? (by decide) (by decide) after
  have hphrase (t : Text) : readSource t =
      (t.afterBlanks?.bind (Text.afterPhrase? ["from".toList])).bind fun t =>
        t.afterBlanks?.bind fun t => (readName t).bind fun named =>
          (readSelectClauses named.2).bind fun clauses => some (named.1, clauses) := by
    rw [Option.bind_assoc, readSource, Option.bind_eq_bind]
    refine congrArg _ (funext fun u => ?_)
    rw [afterLeading?, Option.bind_eq_bind, Option.bind_assoc]
    rfl
  rw [hphrase, hopen, Option.bind_some, Text.afterBlanks?_append hg, trimStart_name_append hname,
    Option.bind_some, readName_append hname hafter, Option.bind_some]
  simp only [hclauses, Option.bind_some]
  rfl

end

/-- The parts of a SELECT statement as they are written. -/
structure SelectText where
  keyword : Text
  gap : Text
  fields : Text
  source : Clause
  filter : Option Clause
  order : Option Clause
  limit : Option Clause

namespace SelectText

variable (p : SelectText) (last : Text)

/-! The text of a statement from one of its places on, with `last` as the end of the statement. -/

def afterOrder : Text := Clause.sourceOf p.limit ++ last
def afterFilter : Text := Clause.sourceOf p.order ++ p.afterOrder last
def afterEntity : Text := Clause.sourceOf p.filter ++ p.afterFilter last
def afterFields : Text := p.source.source ++ p.afterEntity last
def text : Text := p.keyword ++ (p.gap ++ (p.fields ++ p.afterFields last))

/-- The parts with the literals in the condition masked. -/
def masked : SelectText :=
  { p with filter := p.filter.map Clause.masked }

/-- Whether the parts can be told from each other. Only the condition may have literals in it. -/
structure Formed : Prop where
  keyword : p.keyword.sameWord "select".toList = true
  gap : p.gap.IsGap
  fields : '\'' ∉ p.fields ∧ IsBody ["from".toList] p.fields
  source : p.source.Opens ["from".toList] ∧ p.source.body.isIdentifier = true
  filter : ∀ c ∈ p.filter, c.Stands ["where".toList] ["order".toList, "limit".toList]
  order : ∀ c ∈ p.order, c.Opens ["order".toList, "by".toList] ∧ '\'' ∉ c.body ∧
    IsBody ["limit".toList] c.body
  limit : ∀ c ∈ p.limit, c.Opens ["limit".toList] ∧ c.body.IsPlain

variable {p last}

namespace Formed

theorem source_stands (h : p.Formed) : p.source.Stands ["from".toList] [] :=
  have hplain := Text.isPlain_of_isIdentifier h.source.2
  Clause.stands_of_quote_notMem h.source.1 hplain.quote_notMem (hplain.isBody (by simp))

theorem isPlain_keyword (h : p.Formed) : p.keyword.IsPlain :=
  Text.isPlain_of_sameWord (by decide) h.keyword

/-- After the condition there are no literals. -/
theorem quote_notMem (h : p.Formed) (hlast : '\'' ∉ last) :
    '\'' ∉ p.afterOrder last ∧ '\'' ∉ p.afterFilter last := by
  have hlimit : '\'' ∉ Clause.sourceOf p.limit :=
    Clause.notMem_sourceOf (by decide) (by decide) fun c hc =>
      ⟨(h.limit c hc).1, (h.limit c hc).2.quote_notMem⟩
  have horder : '\'' ∉ Clause.sourceOf p.order :=
    Clause.notMem_sourceOf (by decide) (by decide) fun c hc =>
      ⟨(h.order c hc).1, (h.order c hc).2.1⟩
  simp [afterOrder, afterFilter, hlimit, horder, hlast]

/-- A statement is masked in its condition only. -/
theorem mask_eq (h : p.Formed) (hlast : '\'' ∉ last) :
    ((p.afterEntity last).QuotesClosed ∧ mask (p.afterEntity last) = p.masked.afterEntity last) ∧
    ((p.afterFields last).QuotesClosed ∧ mask (p.afterFields last) = p.masked.afterFields last) ∧
    ((p.text last).QuotesClosed ∧ mask (p.text last) = p.masked.text last) := by
  have hquote := (h.quote_notMem hlast).2
  obtain ⟨hfilter, hmaskFilter⟩ := Clause.mask_sourceOf_append (by decide) h.filter
    (Text.quotesClosed_of_notMem hquote)
  obtain ⟨hsource, hmaskSource⟩ := Clause.mask_source_append (by decide) h.source_stands hfilter
  rw [mask_of_notMem hquote] at hmaskFilter
  rw [hmaskFilter, Clause.masked_of_quote_notMem
    (Text.isPlain_of_isIdentifier h.source.2).quote_notMem] at hmaskSource
  have hfields : mask (p.afterFields last) = p.masked.afterFields last := hmaskSource
  have hgap : '\'' ∉ p.gap := Text.notMem_of_isBlank h.gap.2 rfl
  have hfirst : '\'' ∉ p.keyword ++ (p.gap ++ p.fields) := by
    simp [h.isPlain_keyword.quote_notMem, hgap, h.fields.1]
  have hclosed := Text.quotesClosed_of_notMem hfirst
  have htext : p.text last = (p.keyword ++ (p.gap ++ p.fields)) ++ p.afterFields last := by
    simp [text]
  refine ⟨⟨hfilter, hmaskFilter⟩, ⟨hsource, hfields⟩, htext ▸ hclosed.append hsource, ?_⟩
  rw [htext, mask_append (t := p.afterFields last) hclosed hsource, mask_of_notMem hfirst, hfields]
  simp [text, masked]

/-- Outside of literals no part has a semicolon. -/
theorem semicolon_notMem (h : p.Formed) : ';' ∉ p.masked.text [] := by
  have hgap : ';' ∉ p.gap := Text.notMem_of_isBlank h.gap.2 rfl
  have hsource : ';' ∉ p.source.source := fun hmem => (List.mem_append.1 hmem).elim
    (h.source.1.notMem (by decide) (by decide))
    (Text.isPlain_of_isIdentifier h.source.2).semicolon_notMem
  have hfilter : ';' ∉ Clause.sourceOf (p.filter.map Clause.masked) :=
    Clause.notMem_sourceOf (by decide) (by decide) fun c hc =>
      (Clause.stands_masked h.filter c hc).imp_right fun hbody => hbody.semicolon_notMem
  have horder : ';' ∉ Clause.sourceOf p.order :=
    Clause.notMem_sourceOf (by decide) (by decide) fun c hc =>
      ⟨(h.order c hc).1, (h.order c hc).2.2.semicolon_notMem⟩
  have hlimit : ';' ∉ Clause.sourceOf p.limit :=
    Clause.notMem_sourceOf (by decide) (by decide) fun c hc =>
      ⟨(h.limit c hc).1, (h.limit c hc).2.semicolon_notMem⟩
  simp [text, afterFields, afterEntity, afterFilter, afterOrder, masked,
    h.isPlain_keyword.semicolon_notMem, hgap, h.fields.2.semicolon_notMem, hsource, hfilter, horder,
    hlimit]

/-- The shape of a SELECT statement. -/
theorem ofText? (h : p.Formed) {w : Text} (hw : w.isBlank = true) (hlast : last = w ++ [';']) :
    SelectShape.ofText? (p.masked.text last) = some
      ⟨⟨p.fields ++ p.masked.afterFields last, p.masked.afterFields last⟩,
        p.source.extent (p.masked.afterEntity last),
        (p.filter.map Clause.masked).map (Clause.extent (p.afterFilter last)),
        p.order.map (Clause.extent (p.afterOrder last)), p.limit.map (Clause.extent last)⟩ := by
  subst hlast
  obtain ⟨hclauses, hends⟩ := readSelectClauses_append (Clause.stands_masked h.filter)
    (fun c hc => ⟨(h.order c hc).1, (h.order c hc).2.2⟩)
    (fun c hc => ⟨(h.limit c hc).1, (h.limit c hc).2.1,
      fun d hd => (h.limit c hc).2.isBlank_eq_false hd⟩) hw
  have hread := readSource_append h.source.1 h.source.2 hends hclauses
  have hselect : Text.IsKeyword "select".toList := by decide
  have hbody := readBody_append h.fields.2 opensWith_readSource (by decide)
    (h.source.1.endsBody _) hread h.gap
  have hafter : Text.afterKeyword? "select".toList (p.masked.text (w ++ [';'])) =
      some (p.gap ++ (p.fields ++ p.masked.afterFields (w ++ [';']))) :=
    Text.afterKeyword?_append (hselect.map_foldCase h.keyword) _
  rw [SelectShape.ofText?, hafter, Option.bind_eq_bind, Option.bind_some]
  exact congrArg (Option.bind · _) hbody

/-- The parts are read from where they are. -/
theorem readPart_eq (h : p.Formed) (hlast : '\'' ∉ last) :
    readPart (p.text last) ⟨p.fields ++ p.masked.afterFields last, p.masked.afterFields last⟩ =
      p.fields ∧
    ((p.filter.map Clause.masked).map (Clause.extent (p.afterFilter last))).map
      (readPart (p.text last)) = p.filter.map Clause.body ∧
    (p.order.map (Clause.extent (p.afterOrder last))).map (readPart (p.text last)) =
      p.order.map Clause.body ∧
    (p.limit.map (Clause.extent last)).map (readPart (p.text last)) = p.limit.map Clause.body := by
  obtain ⟨⟨-, -⟩, ⟨hclosed, hmask⟩, hstatement, -⟩ := h.mask_eq hlast
  obtain ⟨hlimit, horder⟩ := h.quote_notMem hlast
  have hfields : p.fields ++ p.afterFields last <:+ p.text last :=
    (List.suffix_append p.gap _).trans (List.suffix_append p.keyword _)
  have hsuffix : p.afterEntity last <:+ p.text last :=
    (List.suffix_append _ _).trans ((List.suffix_append _ _).trans hfields)
  refine ⟨?_, ?_, ?_, ?_⟩
  · have hread := readPart_of_suffix hstatement (Text.quotesClosed_of_notMem h.fields.1) hclosed
      hfields
    rwa [mask_of_notMem h.fields.1, hmask] at hread
  · have hread := readPart_sourceOf hstatement h.filter (Text.quotesClosed_of_notMem horder) hsuffix
    rwa [mask_of_notMem horder] at hread
  · exact readPart_sourceOf_of_notMem hstatement horder ((List.suffix_append _ _).trans hsuffix)
  · exact readPart_sourceOf_of_notMem hstatement hlimit
      ((List.suffix_append _ _).trans ((List.suffix_append _ _).trans hsuffix))

end Formed

end SelectText

/-! ## The values of the clauses -/

theorem readFields_of_joined {fields : List Text} {t : Text} (h : Joined ',' fields t)
    (hfields : fields = [wildcard] ∨
      fields ≠ [] ∧ ∀ f ∈ fields, f.isIdentifier = true ∧ f.sameWord "from".toList = false) :
    readFields t = .ok fields ∧ '\'' ∉ t ∧ IsBody ["from".toList] t := by
  have hplain : ∀ f ∈ fields, f.IsPlain ∧ f.map foldCase ∉ ["from".toList] := by
    intro f hf
    obtain rfl | ⟨-, hall⟩ := hfields
    · obtain rfl := List.mem_singleton.1 hf
      exact ⟨⟨by decide, by decide⟩, by decide⟩
    · obtain ⟨hident, hfrom⟩ := hall f hf
      exact ⟨Text.isPlain_of_isIdentifier hident,
        map_foldCase_notMem (by decide) (by simpa using hfrom)⟩
  have hpieces : trimmedPieces t = fields :=
    h.trimmedPieces fun f hf => ⟨(hplain f hf).1.trim_eq, (hplain f hf).1.comma_notMem⟩
  have hempty : fields.any List.isEmpty = false := by
    simpa using fun f hf => (hplain f hf).1.1
  have hwildcard : (decide (1 < fields.length) && fields.contains wildcard) = false := by
    obtain rfl | ⟨-, hall⟩ := hfields
    · rfl
    · have hnot : wildcard ∉ fields := fun hmem => absurd (hall _ hmem).1 (by decide)
      simp [hnot]
  refine ⟨?_, ?_, ?_⟩
  · rw [readFields, hpieces, hempty, hwildcard]
    rfl
  · exact h.notMem rfl (by decide) fun f hf => (hplain f hf).1.quote_notMem
  · exact h.isBody (by decide) (by decide) (by decide) fun f hf =>
      ⟨(hplain f hf).1.isBody (hplain f hf).2, (hplain f hf).1.comma_notMem⟩

/-- A field to order by is read with its direction. -/
theorem readOrderItem_of_written {item : Text × Option Direction} {u : Text}
    (hfield : item.1.isIdentifier = true) (hlimit : item.1.sameWord "limit".toList = false)
    (hu : Written (orderMarks item) u) :
    readOrderItem u = .ok ⟨item.1, item.2.getD .asc⟩ ∧ '\'' ∉ u ∧ ',' ∉ u ∧
      IsBody ["limit".toList] u := by
  obtain ⟨field, direction⟩ := item
  have hplain := Text.isPlain_of_isIdentifier hfield
  have hfold : field.map foldCase ∉ ["limit".toList] :=
    map_foldCase_notMem (by decide) (by simpa using hlimit)
  cases direction with
  | none =>
    obtain rfl : u = field := written_singleton.1 hu
    refine ⟨?_, hplain.quote_notMem, hplain.comma_notMem, hplain.isBody hfold⟩
    rw [readOrderItem, hplain.words_eq]
    rfl
  | some direction =>
    obtain ⟨_, _, rfl, rfl, g, word, rfl, hg, hword⟩ := hu
    have hword : word.sameWord direction.word = true := written_singleton.1 hword
    have hkeyword : Text.IsKeyword direction.word.lower := by cases direction <;> decide
    have hdirection := Text.isPlain_of_sameWord hkeyword hword
    have hlower : word.lower = direction.word.lower := by simpa [Text.sameWord] using hword
    have hstop : word.sameWord "limit".toList = false := by
      rw [Text.sameWord, hlower]
      cases direction <;> decide
    have hquote : '\'' ∉ g := Text.notMem_of_isBlank hg.2 rfl
    have hcomma : ',' ∉ g := Text.notMem_of_isBlank hg.2 rfl
    refine ⟨?_, ?_, ?_, ?_⟩
    · have hread : Direction.ofWord word = direction := by
        rw [Direction.ofWord, Text.sameWord, hlower]
        cases direction <;> decide
      rw [readOrderItem, ← List.append_assoc, Text.words_append hg, hplain.words_eq,
        hdirection.words_eq]
      simp [hread]
    · simp [hplain.quote_notMem, hdirection.quote_notMem, hquote]
    · simp [hplain.comma_notMem, hdirection.comma_notMem, hcomma]
    · exact (hplain.isBody hfold).append
        (hdirection.isBody (map_foldCase_notMem (by decide) (by simpa using hstop))) hg

theorem readOrderItem_trim (t : Text) : readOrderItem t.trim = readOrderItem t := by
  rw [readOrderItem, readOrderItem, Text.words_trim, Text.trim_trim]

/-- The fields to order by are read from their list. -/
theorem readOrder_of_written {items : List (Text × Option Direction)} (hne : items ≠ [])
    (hitems : ∀ item ∈ items, item.1.isIdentifier = true ∧ item.1.sameWord "limit".toList = false)
    {t : Text} (h : Written (Mark.list (items.map orderMarks)) t) :
    readOrder t = .ok (items.map fun (field, direction) => ⟨field, direction.getD .asc⟩) ∧
      '\'' ∉ t ∧ IsBody ["limit".toList] t := by
  obtain ⟨us, hus, hjoined⟩ := exists_joined (by simpa using hne) h
  obtain ⟨hread, hall⟩ := mapM_of_forall₂_written hus fun item hitem _ hu =>
    readOrderItem_of_written (hitems item hitem).1 (hitems item hitem).2 hu
  have hpieces : trimmedPieces t = us := hjoined.trimmedPieces fun u hu =>
    ⟨Text.trim_of_ends (hall u hu).2.2.isBlank_head (hall u hu).2.2.isBlank_last, (hall u hu).2.1⟩
  refine ⟨?_, ?_, ?_⟩
  · have htrim : readOrderItem ∘ Text.trim = readOrderItem := funext readOrderItem_trim
    rw [← hread, ← hpieces, trimmedPieces, List.mapM_map, htrim, readOrder]
  · exact hjoined.notMem rfl (by decide) fun u hu => (hall u hu).1
  · exact hjoined.isBody (by decide) (by decide) (by decide) fun u hu =>
      ⟨(hall u hu).2.2, (hall u hu).2.1⟩

/-- The limit is read from its decimal numeral. -/
theorem readLimitValue_ofNat (n : UInt64) : readLimitValue (Text.ofNat n.toNat) = .ok n := by
  rw [readLimitValue, Text.toUInt64?_ofNat]

/-! ## Statements -/

/-- Whether the parts of a statement say what it is to say. -/
structure SelectText.Says (p : SelectText) (s : Selection) : Prop where
  fields : readFields p.fields = .ok s.fields
  entity : p.source.body = s.entity
  filter : (p.filter.map Clause.body).bind readFilter = s.query.filter
  order : (p.order.map Clause.body).mapM readOrder = .ok s.query.orderBy
  limit : (p.limit.map Clause.body).mapM readLimitValue = .ok s.limit

/-- A statement as it is written has the parts that are to be read from it. -/
theorem Selection.Valid.exists_text {s : Selection} (hs : s.Valid) {t : Text}
    (ht : Written s.marks t) : ∃ p : SelectText, p.Formed ∧ p.Says s ∧ t = p.text [] := by
  obtain ⟨t, l, rfl, ht, hl⟩ := written_append.1 ht
  obtain ⟨t, o, rfl, ht, ho⟩ := written_append.1 ht
  obtain ⟨t, f, rfl, ht, hf⟩ := written_append.1 ht
  obtain ⟨t, e, rfl, ht, he⟩ := written_append.1 ht
  obtain ⟨keyword, _, rfl, hkeyword, gap, fields, rfl, hgap, hfields⟩ := ht
  obtain ⟨limit, rfl, hlimit⟩ := exists_optional hl
  obtain ⟨order, rfl, horder⟩ := exists_optional ho
  obtain ⟨filter, rfl, hfilter⟩ := exists_optional hf
  obtain ⟨source, rfl, hsource, hentity⟩ := exists_clause he
  have hentity : source.body = s.entity := written_singleton.1 hentity
  have hne : s.fields ≠ [] := hs.fields.elim (fun h => by simp [h]) And.left
  obtain ⟨hread, hquote, hbody⟩ := readFields_of_joined (joined_of_written hne hfields) hs.fields
  have hfilterBody : ∀ c ∈ s.condition, (filter c).body = c := fun c hc =>
    written_singleton.1 (hfilter c hc).2
  have hlimitBody : ∀ n ∈ s.limit, (limit n).body = Text.ofNat n.toNat := fun n hn =>
    written_singleton.1 (hlimit n hn).2
  have horderBody := fun items hitems => readOrder_of_written (hs.order items hitems).1
    (hs.order items hitems).2 (horder items hitems).2
  refine ⟨⟨keyword, gap, fields, source, s.condition.map filter, s.order.map order,
    s.limit.map limit⟩, ⟨hkeyword, hgap, ⟨hquote, hbody⟩, ⟨hsource, ?_⟩, ?_, ?_, ?_⟩,
    ⟨hread, hentity, ?_, ?_, ?_⟩, by
      simp [SelectText.text, SelectText.afterFields, SelectText.afterEntity, SelectText.afterFilter,
        SelectText.afterOrder]⟩
  · exact hentity ▸ hs.entity.1
  · simp only [Option.mem_map]
    rintro _ ⟨c, hc, rfl⟩
    have hcondition := hs.condition c hc
    refine ⟨(hfilter c hc).1, ?_, ?_⟩
    · exact (hfilterBody c hc).symm ▸ hcondition.closed
    · exact (hfilterBody c hc).symm ▸ hcondition.isBody (by decide)
  · simp only [Option.mem_map]
    rintro _ ⟨items, hitems, rfl⟩
    exact ⟨(horder items hitems).1, (horderBody items hitems).2⟩
  · simp only [Option.mem_map]
    rintro _ ⟨n, hn, rfl⟩
    exact ⟨(hlimit n hn).1, (hlimitBody n hn).symm ▸ Text.isPlain_ofNat n.toNat⟩
  · cases hc : s.condition with
    | none => simp [Selection.query, hc]
    | some c =>
      simp [Selection.query, hc, hfilterBody c hc, (hs.condition c hc).readFilter]
  · cases hitems : s.order with
    | none => simp [Selection.query, hitems]; rfl
    | some items =>
      simp [Selection.query, hitems, (horderBody items hitems).1]
  · cases hn : s.limit with
    | none => rfl
    | some n => simp [hlimitBody n hn, readLimitValue_ofNat]

/-- A statement is read part by part. -/
theorem readSelect_text {p : SelectText} {s : Selection} (hp : p.Formed) (hparts : p.Says s)
    (hentity : s.entity.IsEntityName) {w : Text} (hw : w.isBlank = true) :
    readSelect (p.text (w ++ [';'])) = .ok s.query := by
  have hlast := quote_notMem_end hw
  obtain ⟨hfields, hfilter, horder, hlimit⟩ := hp.readPart_eq hlast
  have hname : readEntity (p.source.extent (p.masked.afterEntity (w ++ [';']))) = .ok s.entity := by
    rw [Clause.extent, hparts.entity, readEntity_append hentity]
  rw [readSelect, (hp.mask_eq hlast).2.2.2, hp.ofText? hw rfl]
  simp only [requireShape, bind, Except.bind, hname, hfields, hparts.fields, horder, hparts.order,
    hlimit, hparts.limit, hfilter, hparts.filter]
  rfl

/-- A text that states a selection becomes a statement from which its query is read. -/
theorem Selection.Valid.exists_statement {s : Selection} (hs : s.Valid) {t : Text}
    (ht : States s.marks t) : ∃ statement, Statement.ofText? t = some statement ∧
      Operation.ofWord? (leadingWord statement) = some .select ∧
      readSelect statement = .ok s.query := by
  have hmarks : ∀ u, Written s.marks u → u ≠ [] ∧ u.QuotesClosed ∧ ';' ∉ mask u := by
    intro u hu
    obtain ⟨p, hp, -, rfl⟩ := hs.exists_text hu
    obtain ⟨-, -, hclosed, hmask⟩ := hp.mask_eq (List.not_mem_nil (a := '\''))
    exact ⟨by simp [SelectText.text, hp.isPlain_keyword.1], hclosed, hmask ▸ hp.semicolon_notMem⟩
  obtain ⟨u, w, hu, hw, hstatement⟩ := exists_ofText? ht hmarks
  obtain ⟨p, hp, hparts, rfl⟩ := hs.exists_text hu
  have htext : p.text [] ++ (w ++ [';']) = p.text (w ++ [';']) := by
    simp [SelectText.text, SelectText.afterFields, SelectText.afterEntity, SelectText.afterFilter,
      SelectText.afterOrder]
  rw [htext] at hstatement
  exact ⟨_, hstatement, ofWord?_leadingWord (by decide) hp.keyword hp.gap _,
    readSelect_text hp hparts hs.entity hw⟩

/-- A SELECT statement is read back, however it is written. -/
theorem ofText_selection {s : Selection} (hs : s.Valid) {t : Text} (ht : States s.marks t)
    (checks : Checks) : Query.ofText checks t = .ok (.select s.query) := by
  obtain ⟨statement, hstatement, hword, hread⟩ := hs.exists_statement ht
  exact ofText_of_readSelect hstatement hword hread

/-- The clauses of this statement are all there, and the literal in its condition has the words and
    the semicolon in it that would end the condition. -/
theorem ofText_selection_of_all_clauses :
    Query.ofText .strict
        "Select a ,b from t\nWHERE c = 'x; ORDER BY y' order  by a DESC, b limit 10 ;".toList =
      .ok (.select ⟨"t".toList, ["a".toList, "b".toList],
        some (Filter.ofCondition "c = 'x; ORDER BY y'".toList),
        some [⟨"a".toList, .desc⟩, ⟨"b".toList, .asc⟩], some 10⟩) := by
  refine ofText_selection (s := ⟨["a".toList, "b".toList], "t".toList,
    some "c = 'x; ORDER BY y'".toList, some [("a".toList, some .desc), ("b".toList, none)],
    some 10⟩) (by decide +kernel) ⟨?_, ?_, .inr ⟨[' '], by decide, ?_⟩⟩ .strict
  · exact "Select a ,b from t\nWHERE c = 'x; ORDER BY y' order  by a DESC, b limit 10".toList
  · decide +kernel
  · decide +kernel

end EntityQuery.Statement
