-- SUMMARY: Blanks before the semicolon do not change what a statement says, unless a clause is left without a body.
import EntityQuery.Proofs.Ending.Shape
import EntityQuery.Proofs.Statement.Accepted
import EntityQuery.Proofs.Statement.Cut
import EntityQuery.Proofs.Statement.Written

/-!
# The semicolon is optional

A semicolon may end a statement, with any blanks before it. It changes nothing,
unless the statement ends with the keyword of a filter or of an order. After
such a keyword two blanks or more are read as one that ends the keyword and one
that is the body of the clause. A filter of blanks is no filter, so the
statement is accepted without the clause. With fewer blanks the keyword is no
keyword but the end of what comes before it, or the statement is refused.
-/

namespace EntityQuery

namespace Statement

/-! ## Statements with an ending -/

section

variable {s b : Text}

theorem mask_append_ending (hb : b.isBlank = true) (s : Text) :
    mask (s ++ ending b) = mask s ++ ending b :=
  mask_append_of_quote_notMem (quote_notMem_end hb) s

theorem isTight_mask (hs : s.IsTight) : (mask s).IsTight := by
  rw [Text.IsTight, getLast?_mask]
  exact hs

theorem leadingWord_append_ending (hb : b.isBlank = true) (s : Text) :
    leadingWord (s ++ ending b) = leadingWord s := by
  have hnot : (ending b).takeWhile Char.isAlpha = [] := by
    cases hend : ending b with
    | nil => rfl
    | cons c rest =>
      have hc := forall_mem_ending (p := fun c => !c.isAlpha) hb (by decide) (by decide) c
        (hend ▸ List.mem_cons_self)
      exact List.takeWhile_cons_of_neg (by simpa using hc)
  rw [leadingWord, leadingWord, List.takeWhile_append, hnot, List.append_nil]
  split
  · next hlength => exact ((List.takeWhile_prefix _).eq_of_length hlength).symm
  · rfl

/-- A statement with a semicolon is read as it is. -/
theorem ofText?_append_ending (htrim : s.trim = s) (hne : s ≠ []) (b : Text) :
    ofText? (s ++ ending b) = some (s ++ ending b) := by
  refine ofText?_of_trim_append hne (Text.trim_of_ends ?_ ?_)
  · rw [List.head?_append_of_ne_nil _ hne]
    exact (Text.isBlank_ends_of_trim htrim).1
  · rw [ending, ← List.append_assoc, List.getLast?_concat]
    decide

end

/-! ## Blank parts -/

section

variable {t : Text}

theorem readOrder_of_isBlank (ht : t.isBlank = true) : readOrder t = .error .emptyOrderItem := by
  have hwords : t.words = [] := by
    rw [← Text.words_trim, Text.trim_eq_nil_iff.2 ht]
    rfl
  have hpieces : t.pieces ',' = [t] :=
    List.splitOnP_eq_singleton fun c hc => by
      simpa using ne_of_mem_of_not_mem hc (Text.notMem_of_isBlank ht (c := ',') rfl)
  rw [readOrder, hpieces, List.mapM_cons, readOrderItem, hwords]
  rfl

end

/-! ## Parts -/

section

variable {ι β : Type} {s : Text} {w : ι → Text} {e : ι → Extent}

theorem Within.text_eq {m : Text} (h : Within m w e) (i j : ι) : (e i).text = (e j).text := by
  obtain ⟨start, stop, ⟨part, rfl⟩, -, he⟩ := h
  rw [he, he, List.append_assoc, List.append_assoc, Extent.text_append, Extent.text_append]

theorem Within.readPart_eq (hw : ∀ i, (w i).isBlank = true) (h : Within (mask s) w e)
    (hcut : ∀ i, (e i).IsCut (s ++ ending (w i))) :
    ∃ t, ∀ i, readPart (s ++ ending (w i)) (e i) = t := by
  obtain ⟨start, stop, hstop, -, he⟩ := h
  refine ⟨readPart s ⟨start, stop⟩, fun i => ?_⟩
  have hspan : (e i).span (mask (s ++ ending (w i))) = Extent.span ⟨start, stop⟩ (mask s) := by
    rw [he, mask_append_ending (hw i)]
    simp only [Extent.span, Text.byteSize_append, Nat.add_sub_add_right]
  have hstart := (hcut i).start_boundary
  have horder := (hcut i).start_le_stop
  rw [hspan] at hstart horder
  rw [readPart, hspan, Text.slice_append_of_le hstart horder]
  · rfl
  · rw [← byteSize_mask s]
    exact Nat.sub_le _ _

theorem readPart_lastBlank {b : Text} (s : Text) :
    readPart (s ++ ending b) (lastBlank b) = b.getLast?.toList := by
  obtain ⟨front, last, rfl, hlast⟩ : ∃ front last, b = front ++ last ∧ b.getLast?.toList = last := by
    obtain rfl | ⟨front, c, rfl⟩ := List.eq_nil_or_concat b
    · exact ⟨[], [], rfl, rfl⟩
    · exact ⟨front, [c], by simp, by simp⟩
  have hspan : (lastBlank (front ++ last)).span (mask (s ++ ending (front ++ last))) =
      ⟨(s ++ front).byteSize, (s ++ front).byteSize + last.byteSize⟩ := by
    rw [Extent.span, byteSize_mask, lastBlank, hlast, Span.mk.injEq]
    simp only [ending, Text.byteSize_append]
    omega
  have htext : s ++ ending (front ++ last) = s ++ front ++ last ++ [';'] := by simp [ending]
  rw [readPart, hspan, htext, Text.slice_append, hlast]

theorem isBlank_readPart_lastBlank {b : Text} (hb : b.isBlank = true) (s : Text) :
    (readPart (s ++ ending b) (lastBlank b)).isBlank = true := by
  rw [readPart_lastBlank, Text.isBlank_iff]
  intro c hc
  exact Text.isBlank_iff.1 hb c (List.mem_of_mem_getLast? (Option.mem_toList.1 hc))

/-- What is made of a part is the same for all endings, if the same is made of all blank texts. -/
theorem alike_part {part : ι → Option Extent} {f : Option Text → β}
    (hf : ∀ t t' : Text, t.isBlank = true → t'.isBlank = true → f (some t) = f (some t'))
    (hw : ∀ i, (w i).isBlank = true) (h : Alike (Placed (mask s) w) part)
    (hcut : ∀ i, ∀ e ∈ part i, Extent.IsCut (s ++ ending (w i)) e) (i j : ι) :
    f ((part i).map (readPart (s ++ ending (w i)))) =
      f ((part j).map (readPart (s ++ ending (w j)))) := by
  obtain hnone | ⟨e, he | he, hsome⟩ := h.none_or_some
  · rw [hnone, hnone]
    rfl
  · obtain ⟨t, ht⟩ := he.readPart_eq hw fun i => hcut i _ (hsome i)
    rw [hsome, hsome, Option.map_some, Option.map_some, ht, ht]
  · rw [hsome, hsome, Option.map_some, Option.map_some, (he i).2, (he j).2]
    exact hf _ _ (isBlank_readPart_lastBlank (hw i) s) (isBlank_readPart_lastBlank (hw j) s)

theorem alike_filter {filter : ι → Option Extent} (hw : ∀ i, (w i).isBlank = true)
    (h : Alike (Placed (mask s) w) filter)
    (hcut : ∀ i, ∀ e ∈ filter i, Extent.IsCut (s ++ ending (w i)) e) (i j : ι) :
    ((filter i).map (readPart (s ++ ending (w i)))).bind readFilter =
      ((filter j).map (readPart (s ++ ending (w j)))).bind readFilter := by
  refine alike_part (f := fun part => part.bind readFilter) (fun t t' ht ht' => ?_) hw h hcut i j
  rw [Option.bind_some, Option.bind_some, readFilter_of_isBlank ht, readFilter_of_isBlank ht']

theorem alike_order {order : ι → Option Extent} (hw : ∀ i, (w i).isBlank = true)
    (h : Alike (Placed (mask s) w) order)
    (hcut : ∀ i, ∀ e ∈ order i, Extent.IsCut (s ++ ending (w i)) e) (i j : ι) :
    ((order i).map (readPart (s ++ ending (w i)))).mapM readOrder =
      ((order j).map (readPart (s ++ ending (w j)))).mapM readOrder := by
  refine alike_part (f := fun part => part.mapM readOrder) (fun t t' ht ht' => ?_) hw h hcut i j
  rw [Option.mapM_some, Option.mapM_some, readOrder_of_isBlank ht, readOrder_of_isBlank ht']

theorem alike_limit {part : ι → Option Extent} (hw : ∀ i, (w i).isBlank = true)
    (h : Alike (Within (mask s) w) part)
    (hcut : ∀ i, ∀ e ∈ part i, Extent.IsCut (s ++ ending (w i)) e) (i j : ι) :
    (part i).map (readPart (s ++ ending (w i))) = (part j).map (readPart (s ++ ending (w j))) := by
  obtain hnone | ⟨e, he, hsome⟩ := h.none_or_some
  · rw [hnone, hnone]
    rfl
  · obtain ⟨t, ht⟩ := he.readPart_eq hw fun i => hcut i _ (hsome i)
    rw [hsome, hsome, Option.map_some, Option.map_some, ht, ht]

end

/-! ## Results without their errors -/

section

variable {ε ε' α β : Type}

theorem toOption_ok (a : α) : (Except.ok a : Except ε α).toOption = some a := rfl

theorem toOption_bind (x : Except ε α) (f : α → Except ε β) :
    (x >>= f).toOption = x.toOption.bind fun a => (f a).toOption := by
  cases x <;> rfl

theorem toOption_map (x : Except ε α) (f : α → β) : (x.map f).toOption = x.toOption.map f := by
  cases x <;> rfl

theorem toOption_atStatement (op : Operation) (statement : Text) (x : Except Fault α) :
    (atStatement op statement x).toOption = x.toOption := by
  cases x <;> rfl

theorem toOption_atLexer (statement : Text) (x : Except Lexer.Error α) :
    (atLexer statement x).toOption = x.toOption := by
  cases x <;> rfl

theorem toOption_requireShape (shape : Option α) : (requireShape shape).toOption = shape := by
  cases shape <;> rfl

end

/-! ## Reading the statements -/

section

variable {ι : Type} {s : Text} {w : ι → Text}

theorem readEntity_congr {e e' : Extent} (h : e.text = e'.text) : readEntity e = readEntity e' := by
  rw [readEntity, readEntity, h]

theorem ReadsAlike.none_or_some {α : Type} {P : (ι → α) → Prop} {k : Text → Option α}
    (h : Endings (mask s) w) (hk : ReadsAlike (mask s) w P k) :
    (∀ i, k (mask (s ++ ending (w i))) = none) ∨
      ∃ a, P a ∧ ∀ i, k (mask (s ++ ending (w i))) = some (a i) := by
  simp only [mask_append_ending (h.blank _)]
  exact hk (mask s) (List.suffix_refl _)

theorem toOption_readDelete (h : Endings (mask s) w)
    (hwhere : EndsWith ["where".toList] (mask s) → LongAlike w) (i j : ι) :
    (readDelete (s ++ ending (w i))).toOption = (readDelete (s ++ ending (w j))).toOption := by
  simp only [readDelete, toOption_atStatement, toOption_bind, toOption_requireShape]
  obtain hnone | ⟨shape, hshape, hsome⟩ := (readsAlike_deleteShape h hwhere).none_or_some h
  · rw [hnone, hnone]
    rfl
  · have hcut (i : ι) := (isCut_deleteShape (hsome i)).1
    have hfilter := alike_filter h.blank hshape.filter
      (fun i e he => hcut i e (by simp [DeleteShape.extents, Option.mem_def.1 he])) i j
    simp only [hsome, Option.bind_some, readEntity_congr (hshape.entity.text_eq i j), hfilter]

theorem toOption_readSelect (h : Endings (mask s) w)
    (hwhere : EndsWith ["where".toList] (mask s) → LongAlike w)
    (horder : EndsWith ["order".toList, "by".toList] (mask s) → LongAlike w) (i j : ι) :
    (readSelect (s ++ ending (w i))).toOption = (readSelect (s ++ ending (w j))).toOption := by
  simp only [readSelect, toOption_atStatement, toOption_bind, toOption_requireShape]
  obtain hnone | ⟨shape, hshape, hsome⟩ := (readsAlike_selectShape h hwhere horder).none_or_some h
  · rw [hnone, hnone]
    rfl
  · have hcut (i : ι) := (isCut_selectShape (hsome i)).1
    obtain ⟨fields, hfields⟩ := hshape.fields.readPart_eq h.blank fun i =>
      hcut i _ (by simp [SelectShape.extents])
    have hfilter := alike_filter h.blank hshape.filter
      (fun i e he => hcut i e (by simp [SelectShape.extents, Option.mem_def.1 he])) i j
    have horder := alike_order h.blank hshape.order
      (fun i e he => hcut i e (by simp [SelectShape.extents, Option.mem_def.1 he])) i j
    have hlimit := alike_limit h.blank hshape.limit
      (fun i e he => hcut i e (by simp [SelectShape.extents, Option.mem_def.1 he])) i j
    simp only [hsome, Option.bind_some, readEntity_congr (hshape.entity.text_eq i j), hfields,
      hfilter, horder, hlimit]

theorem toOption_readInsert (checks : Checks) (h : Endings (mask s) w) (i j : ι) :
    (readInsert checks (s ++ ending (w i))).toOption =
      (readInsert checks (s ++ ending (w j))).toOption := by
  simp only [readInsert, toOption_atStatement, toOption_atLexer, toOption_bind,
    toOption_requireShape]
  obtain hnone | ⟨shape, hshape, hsome⟩ := (readsAlike_insertShape h).none_or_some h
  · rw [hnone, hnone]
    rfl
  · have hcut (i : ι) := (isCut_insertShape (hsome i)).1
    obtain ⟨columns, hcolumns⟩ := hshape.columns.readPart_eq h.blank fun i =>
      hcut i _ (by simp [InsertShape.extents])
    obtain ⟨values, hvalues⟩ := hshape.values.readPart_eq h.blank fun i =>
      hcut i _ (by simp [InsertShape.extents])
    simp only [hsome, toOption_ok, Option.bind_some,
      readEntity_congr (hshape.entity.text_eq i j), hcolumns, hvalues]

/-- An UPDATE statement with a blank for its assignments says nothing. -/
theorem toOption_readUpdate_of_lastBlank {b : Text} (hb : b.isBlank = true)
    (hblank : ∀ shape ∈ UpdateShape.ofText? (mask (s ++ ending b)),
      shape.assignments = lastBlank b) : (readUpdate (s ++ ending b)).toOption = none := by
  simp only [readUpdate, toOption_atStatement, toOption_atLexer, toOption_bind,
    toOption_requireShape, Option.bind_assoc]
  refine Option.bind_eq_none_iff.2 fun shape hshape => Option.bind_eq_none_iff.2 fun entity _ => ?_
  have hnil := splitList_of_isBlank (isBlank_readPart_lastBlank hb s)
  rw [← hblank shape hshape] at hnil
  simp only [toOption_ok, Option.bind_some, hnil]
  rfl

theorem toOption_readUpdate (h : Endings (mask s) w)
    (hwhere : EndsWith ["where".toList] (mask s) → LongAlike w) (i j : ι) :
    (readUpdate (s ++ ending (w i))).toOption = (readUpdate (s ++ ending (w j))).toOption := by
  have hshapes := alike_updateShape h hwhere
  simp only [← mask_append_ending (h.blank _)] at hshapes
  obtain halike | hblank := hshapes
  · simp only [readUpdate, toOption_atStatement, toOption_atLexer, toOption_bind,
      toOption_requireShape]
    obtain hnone | ⟨shape, hshape, hsome⟩ := halike.none_or_some
    · rw [hnone, hnone]
      rfl
    · have hcut (i : ι) := (isCut_updateShape (hsome i)).1
      obtain ⟨assignments, hassignments⟩ := hshape.assignments.readPart_eq h.blank fun i =>
        hcut i _ (by simp [UpdateShape.extents])
      have hfilter := alike_filter h.blank hshape.filter
        (fun i e he => hcut i e (by simp [UpdateShape.extents, Option.mem_def.1 he])) i j
      simp only [hsome, toOption_ok, Option.bind_some, Option.bind_assoc,
        readEntity_congr (hshape.entity.text_eq i j), hassignments, hfilter]
  · rw [toOption_readUpdate_of_lastBlank (h.blank i) (hblank i),
      toOption_readUpdate_of_lastBlank (h.blank j) (hblank j)]

/-- The keywords of the clauses of an operation whose body can be any text up to the semicolon. -/
def clauseWords : Operation → List (List Text)
  | .select => [["where".toList], ["order".toList, "by".toList]]
  | .insert => []
  | .update => [["where".toList]]
  | .delete => [["where".toList]]

theorem toOption_readOperation (checks : Checks) (h : Endings (mask s) w) {op : Operation}
    (hlong : ∀ words ∈ clauseWords op, EndsWith words (mask s) → LongAlike w) (i j : ι) :
    (readOperation checks (s ++ ending (w i)) op).toOption =
      (readOperation checks (s ++ ending (w j)) op).toOption := by
  cases op with
  | select =>
    have hread := toOption_readSelect h (hlong _ (.head _)) (hlong _ (.tail _ (.head _))) i j
    simp only [readOperation, toOption_map, hread]
  | insert => simp only [readOperation, toOption_map, toOption_readInsert checks h i j]
  | update =>
    simp only [readOperation, toOption_map, toOption_readUpdate h (hlong _ (.head _)) i j]
  | delete =>
    simp only [readOperation, toOption_map, toOption_readDelete h (hlong _ (.head _)) i j]

end

/-! ## Keywords at the end -/

/-- Whether a statement ends with the keywords of a clause of its operation, so that the body of the
    clause is still to come. Literals are masked, so no word in one of them counts. -/
def AwaitsBody (s : Text) : Prop :=
  ∃ op ∈ Operation.ofWord? (leadingWord s), ∃ words ∈ clauseWords op,
    words <:+ (mask s).words.map (List.map foldCase)

instance (s : Text) : Decidable (AwaitsBody s) :=
  inferInstanceAs (Decidable (∃ op ∈ Operation.ofWord? (leadingWord s), ∃ words ∈ clauseWords op,
    words <:+ (mask s).words.map (List.map foldCase)))

theorem isKeyword_clauseWords {op : Operation} {words : List Text} (h : words ∈ clauseWords op) :
    words ≠ [] ∧ ∀ word ∈ words, Text.IsKeyword word := by
  revert words
  cases op <;> decide

/-- Keywords that are read at the end of a text are its last words. -/
theorem EndsWith.suffix_words {words : List Text} {m : Text} (hne : words ≠ [])
    (hwords : ∀ word ∈ words, Text.IsKeyword word) (h : EndsWith words m) :
    words <:+ m.words.map (List.map foldCase) := by
  obtain ⟨u, ⟨before, rfl⟩, hread⟩ := h
  obtain ⟨t, ht, hphrase⟩ := Option.bind_eq_some_iff.1 hread
  obtain ⟨g, hg, rfl⟩ := Text.exists_gap_of_afterBlanks? ht
  obtain ⟨p, rfl, hp⟩ := Text.exists_folds_of_afterPhrase? hne hphrase
  rw [List.append_nil, ← List.append_assoc, Text.words_append hg, List.map_append,
    hp.map_words hwords]
  exact List.suffix_append _ _

end Statement

namespace Query

open Statement

variable {s : Text}

/-- The blanks before the semicolon matter only to a statement that ends with the keywords of a
    clause, and then only whether they are at least two. -/
theorem toOption_ofText_ending (checks : Checks) (htrim : s.trim = s) (hne : s ≠ []) {ι : Type}
    {w : ι → Text} (hw : ∀ i, (w i).isBlank = true) (hlong : AwaitsBody s → LongAlike w) (i j : ι) :
    (ofText checks (s ++ ending (w i))).toOption = (ofText checks (s ++ ending (w j))).toOption := by
  have h : Endings (mask s) w := ⟨isTight_mask (Text.isBlank_ends_of_trim htrim).2, hw⟩
  simp only [ofText, ofText?_append_ending htrim hne, leadingWord_append_ending (hw _)]
  cases hop : Operation.ofWord? (leadingWord s) with
  | none => rfl
  | some op =>
    have hends : ∀ words ∈ clauseWords op, EndsWith words (mask s) → LongAlike w := by
      intro words hmem hwords
      obtain ⟨hne, hkeywords⟩ := isKeyword_clauseWords hmem
      exact hlong ⟨op, hop, words, hmem, hwords.suffix_words hne hkeywords⟩
    simp only [toOption_bind, toOption_readOperation checks h hends i j]
    refine Option.bind_congr fun q _ => ?_
    split <;> rfl

/-- A semicolon with blanks before it changes nothing, and it does not matter how many blanks they
    are. Only if the statement ends with the keywords of a clause there may be at most one, and of
    two or more it does not matter how many. -/
theorem toOption_ofText_semicolon (checks : Checks) {w : Text} (htrim : s.trim = s) (hne : s ≠ [])
    (hlast : s.getLast? ≠ some ';') (hw : w.isBlank = true) :
    ((AwaitsBody s → w.length ≤ 1) →
      (ofText checks (s ++ w ++ [';'])).toOption = (ofText checks s).toOption) ∧
    ∀ w' : Text, w'.isBlank = true → (AwaitsBody s → (2 ≤ w.length ↔ 2 ≤ w'.length)) →
      (ofText checks (s ++ w ++ [';'])).toOption = (ofText checks (s ++ w' ++ [';'])).toOption := by
  have hany (w' : Text) (hw' : w'.isBlank = true)
      (hlong : AwaitsBody s → (2 ≤ w.length ↔ 2 ≤ w'.length)) :
      (ofText checks (s ++ ending w)).toOption = (ofText checks (s ++ ending w')).toOption := by
    refine toOption_ofText_ending checks htrim hne (w := fun b => cond b w w') ?_ (fun h => ?_) true
      false
    · rintro (_ | _)
      · exact hw'
      · exact hw
    · by_cases htwo : 2 ≤ w.length
      · left
        rintro (_ | _)
        · exact (hlong h).1 htwo
        · exact htwo
      · right
        rintro (_ | _)
        · exact mt (hlong h).2 htwo
        · exact htwo
  have hnone : (ofText checks s).toOption = (ofText checks (s ++ ending [])).toOption := by
    rw [ofText, ofText, ofText?_of_trim hne hlast htrim, ofText?_append_ending htrim hne]
    rfl
  simp only [List.append_assoc]
  refine ⟨fun hshort => ?_, fun w' hw' hlong => hany w' hw' hlong⟩
  rw [hnone]
  refine hany [] rfl fun h => ?_
  have hone := hshort h
  rw [List.length_nil]
  omega

/-- A change whose last word is a keyword; a semicolon with one blank keeps it in the value. -/
theorem toOption_ofText_semicolon_of_one_blank :
    (AwaitsBody "UPDATE t SET a = 1 WHERE".toList ∧ Text.isBlank "\u3000".toList = true) ∧
      (ofText {} "UPDATE t SET a = 1 WHERE\u3000;".toList).toOption =
        (ofText {} "UPDATE t SET a = 1 WHERE".toList).toOption ∧
      (ofText {} "UPDATE t SET a = 1 WHERE\u3000;".toList).toOption =
        (ofText {} "UPDATE t SET a = 1 WHERE;".toList).toOption := by
  have h := toOption_ofText_semicolon {} (s := "UPDATE t SET a = 1 WHERE".toList)
    (w := "\u3000".toList) (by decide) (by decide) (by decide) (by decide)
  exact ⟨by decide +kernel, h.1 (fun _ => by decide), h.2 [] rfl (fun _ => by decide)⟩

/-- The deletion without its filter is refused, and with two blanks and a semicolon it is accepted
    as the deletion of all records. -/
theorem toOption_ofText_of_two_blanks :
    (ofText {} "DELETE FROM t WHERE".toList).toOption = none ∧
      (ofText {} ("DELETE FROM t WHERE".toList ++ "  ".toList ++ [';'])).toOption =
        some (.delete ⟨['t'], none⟩) := by
  decide +kernel

end Query

end EntityQuery
