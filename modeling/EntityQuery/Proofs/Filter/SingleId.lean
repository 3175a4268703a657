-- SUMMARY: Filters that name one record, described as written texts; exactly these are read as such.
import EntityQuery.Proofs.Filter.RecordId

/-!
# Filters that name one record

A filter names a record if it is written as one comparison: an id field, the
word `eq`, and a literal, with blanks between them and around them. The reader
of ids looks for a word, and takes all of it, before it knows whether the word
ends in `id`. That makes no difference, since no blank is in a word. What comes
after the literal decides: it must be blank.
-/

namespace EntityQuery.Filter

/-! ## Id clauses -/

/-- Whether a word is the name of an id field: three characters at least, and the last two are `id`
    in any case. -/
def IsIdWord (field : Text) : Prop :=
  (∀ c ∈ field, isWordChar c = true) ∧ 3 ≤ field.length ∧
    Text.sameWord (field.drop (field.length - 2)) "id".toList = true

/-- How the comparison of a field with a literal is written. -/
def idClause (field content : Text) : List Mark :=
  [.space, .text field, .gap, .keyword "eq".toList, .gap, .text content.quoted, .space]

/-- Whether a filter names the record with an id: it is the comparison of an id field with a
    literal, and the id is the literal without braces, trimmed. -/
def NamesRecord (filter id : Text) : Prop :=
  ∃ field content : Text, IsIdWord field ∧ Written (idClause field content) filter ∧
    '\'' ∉ content ∧ (withoutBraces content).isBlank = false ∧ id = (withoutBraces content).trim

/-! ## Words of id fields -/

variable {field content : Text}

/-- A word ends in `id` if its last two letters are these, and there is more to it. -/
theorem isIdField_eq_true_iff : isIdField field = true ↔
    ∃ stem i d, field = stem ++ [i, d] ∧ stem ≠ [] ∧ foldCase i = 'i' ∧ foldCase d = 'd' := by
  unfold isIdField
  split
  · next d i c rest hreverse =>
    have hfield : field = (c :: rest).reverse ++ [i, d] := by
      rw [← List.reverse_reverse field, hreverse]
      simp
    rw [Bool.and_eq_true, beq_iff_eq, beq_iff_eq]
    constructor
    · rintro ⟨hd, hi⟩
      exact ⟨_, i, d, hfield, by simp, hi, hd⟩
    · rintro ⟨stem, i', d', hstem, -, hi, hd⟩
      obtain ⟨-, hid⟩ := List.append_inj' (hfield.symm.trans hstem) rfl
      obtain ⟨rfl, rfl⟩ : i = i' ∧ d = d' := by simpa using hid
      exact ⟨hd, hi⟩
  · next hshort =>
    refine iff_of_false Bool.false_ne_true ?_
    rintro ⟨stem, i, d, rfl, hne, -, -⟩
    obtain ⟨c, rest, hstem⟩ := List.exists_cons_of_ne_nil (mt List.reverse_eq_nil_iff.1 hne)
    exact hshort d i c rest (by simp [hstem])

/-- The letters of `id` have no other characters that stand for them. -/
theorem sameWord_id_iff {i d : Char} :
    Text.sameWord [i, d] "id".toList = true ↔ foldCase i = 'i' ∧ foldCase d = 'd' := by
  constructor
  · intro h
    have hkeyword : Text.IsKeyword "id".toList := by decide
    simpa using hkeyword.map_foldCase h
  · rintro ⟨hi, hd⟩
    exact Text.sameWord_of_map_foldCase (by simp [hi, hd]; decide) (by decide) (by decide)

theorem isIdWord_iff : IsIdWord field ↔
    (∀ c ∈ field, isWordChar c = true) ∧ isIdField field = true := by
  refine and_congr_right fun _ => ?_
  rw [isIdField_eq_true_iff]
  constructor
  · rintro ⟨hlength, hsame⟩
    have hdrop : (field.drop (field.length - 2)).length = 2 := by
      rw [List.length_drop]
      omega
    obtain ⟨i, d, hid⟩ := List.length_eq_two.1 hdrop
    rw [hid, sameWord_id_iff] at hsame
    refine ⟨field.take (field.length - 2), i, d, ?_, ?_, hsame⟩
    · rw [← hid, List.take_append_drop]
    · refine List.length_pos_iff.1 ?_
      rw [List.length_take]
      omega
  · rintro ⟨stem, i, d, rfl, hne, hsame⟩
    have hstem := List.length_pos_iff.2 hne
    refine ⟨by simp; omega, ?_⟩
    rw [show (stem ++ [i, d]).length - 2 = stem.length by simp, List.drop_left]
    exact sameWord_id_iff.2 hsame

/-! ## Reading -/

/-- What stands before the first quote is the content of a literal. -/
theorem eq_quoted_append_of_dropWhile {t rest : Text} {q : Char}
    (h : t.dropWhile (· != '\'') = q :: rest) :
    '\'' :: t = Text.quoted (t.takeWhile (· != '\'')) ++ rest ∧ '\'' ∉ t.takeWhile (· != '\'') := by
  have hquote : q = '\'' := by
    have hhead := List.head?_dropWhile_not (· != '\'') t
    simpa [h] using hhead
  have ht := List.takeWhile_append_dropWhile (p := (· != '\'')) (l := t)
  rw [h, hquote] at ht
  refine ⟨?_, fun hmem => by simpa using List.mem_takeWhile_imp hmem⟩
  simpa [Text.quoted] using ht.symm

/-- What is read as the literal of an id field is written as its literal. -/
theorem written_of_idLiteral? {filter : Text} (h : idLiteral? filter = some content) :
    ∃ field, IsIdWord field ∧ Written (idClause field content) filter ∧ '\'' ∉ content := by
  obtain ⟨before, hbefore, hfilter⟩ := Text.exists_eq_append_trimStart filter
  have hsplit := List.takeWhile_append_dropWhile (p := isWordChar) (l := filter.trimStart)
  have hword : ∀ c ∈ filter.trimStart.takeWhile isWordChar, isWordChar c = true :=
    fun c hc => List.mem_takeWhile_imp hc
  unfold idLiteral? at h
  dsimp only at h
  split at h
  · next hfield =>
    simp only [Option.bind_eq_bind, Option.bind_eq_some_iff] at h
    obtain ⟨t₁, h₁, t₂, h₂, t₃, h₃, h⟩ := h
    obtain ⟨g, hg, hrest⟩ := Text.exists_gap_of_afterBlanks? h₁
    obtain ⟨s, rfl, hs⟩ := Text.afterKeyword?_eq_some.1 h₂
    obtain ⟨g', hg', rfl⟩ := Text.exists_gap_of_afterBlanks? h₃
    split at h
    · next t =>
      split at h
      · next q rest hclose =>
        split at h
        · next hafter =>
          obtain rfl := Option.some.inj h
          obtain ⟨hquoted, hcontent⟩ := eq_quoted_append_of_dropWhile hclose
          have heq : s.sameWord "eq".toList = true :=
            Text.sameWord_of_map_foldCase hs (by decide) (by decide)
          refine ⟨filter.trimStart.takeWhile isWordChar, isIdWord_iff.2 ⟨hword, hfield⟩, ?_, ?_⟩
          · refine ⟨before, _, hfilter, hbefore, _, _, hsplit.symm, rfl, g, _, hrest, hg, s, _, rfl,
              heq, g', _, rfl, hg', _, rest, hquoted, rfl, written_singleton.2 hafter⟩
          · exact hcontent
        · cases h
      · cases h
    · cases h
  · cases h

/-- After the literal there must be nothing but blanks. -/
theorem idLiteral?_append {before g word g' : Text} (hfield : IsIdWord field)
    (hbefore : before.isBlank = true) (hg : g.IsGap)
    (hword : word.sameWord "eq".toList = true) (hg' : g'.IsGap) (hcontent : '\'' ∉ content)
    (after : Text) :
    idLiteral? (before ++ (field ++ (g ++ (word ++ (g' ++ (content.quoted ++ after)))))) =
      if after.isBlank then some content else none := by
  obtain ⟨hchars, hid⟩ := isIdWord_iff.1 hfield
  have hhead : ∀ (rest : Text), ∀ c ∈ (field ++ rest).head?, isBlank c = false := by
    obtain ⟨c, t, rfl⟩ := List.exists_cons_of_ne_nil
      (List.ne_nil_of_length_pos (Nat.lt_of_lt_of_le (by decide) hfield.2.1))
    rintro rest d hd
    obtain rfl : c = d := by simpa using hd
    exact isBlank_of_isWordChar (hchars c (.head _))
  have hkeyword : Text.IsKeyword "eq".toList := by decide
  have hfold := hkeyword.map_foldCase hword
  have hblanks : Text.afterBlanks? (g ++ (word ++ (g' ++ (content.quoted ++ after)))) =
      some (word ++ (g' ++ (content.quoted ++ after))) := by
    rw [Text.afterBlanks?_append hg, hkeyword.trimStart_append hfold]
  have hopen : Text.afterBlanks? (g' ++ (content.quoted ++ after)) =
      some ('\'' :: (content ++ '\'' :: after)) := by
    rw [Text.afterBlanks?_append hg']
    simp [Text.quoted, Text.trimStart, show isBlank '\'' = false from rfl]
  obtain ⟨hfirst, hrest⟩ := takeWhile_append_of_head? (t := g ++ (word ++ (g' ++
    (content.quoted ++ after)))) hchars fun c hc => isWordChar_of_isBlank (hg.head?_append _ c hc)
  obtain ⟨hinside, hclose⟩ := takeWhile_append_of_head? (p := (· != '\'')) (s := content)
    (t := '\'' :: after) (fun c hc => by simpa using ne_of_mem_of_not_mem hc hcontent)
    (fun c hc => by cases hc; rfl)
  rw [idLiteral?, Text.trimStart_append_of_isBlank hbefore, Text.trimStart_of_head? (hhead _)]
  simp only [hfirst, hrest, hid, if_true, Option.bind_eq_bind, hblanks, Option.bind_some,
    Text.afterKeyword?_append hfold, hopen, hclose, hinside]

theorem idLiteral?_of_written {filter : Text} (hfield : IsIdWord field)
    (h : Written (idClause field content) filter) (hcontent : '\'' ∉ content) (more : Text) :
    idLiteral? (filter ++ more) = if more.isBlank then some content else none := by
  obtain ⟨before, _, rfl, hbefore, _, _, rfl, rfl, g, _, rfl, hg, word, _, rfl, hword, g', _, rfl,
    hg', _, _, rfl, rfl, h⟩ := h
  have hafter : Text.isBlank _ = true := written_singleton.1 h
  simp only [List.append_assoc]
  rw [idLiteral?_append hfield hbefore hg hword hg' hcontent, Text.isBlank_append, hafter,
    Bool.true_and]

/-! ## Records -/

theorem recordId?_eq_some_iff_idLiteral? {filter id : Text} : recordId? filter = some id ↔
    ∃ content, idLiteral? filter = some content ∧ (withoutBraces content).isBlank = false ∧
      id = (withoutBraces content).trim := by
  rw [recordId?, Option.bind_eq_bind, Option.bind_eq_some_iff]
  refine exists_congr fun content => and_congr_right fun _ => ?_
  dsimp only
  rw [Text.isEmpty_trim]
  cases (withoutBraces content).isBlank <;> simp [eq_comm]

/-- A filter is read as naming a record exactly if it names it. -/
theorem recordId?_eq_some_iff {filter id : Text} :
    recordId? filter = some id ↔ NamesRecord filter id := by
  rw [recordId?_eq_some_iff_idLiteral?]
  constructor
  · rintro ⟨content, hread, hid⟩
    obtain ⟨field, hfield, hwritten, hcontent⟩ := written_of_idLiteral? hread
    exact ⟨field, content, hfield, hwritten, hcontent, hid⟩
  · rintro ⟨field, content, hfield, hwritten, hcontent, hid⟩
    have hread := idLiteral?_of_written hfield hwritten hcontent []
    rw [List.append_nil] at hread
    exact ⟨content, hread, hid⟩

theorem recordId?_eq_none_iff {filter : Text} :
    recordId? filter = none ↔ ∀ id, ¬ NamesRecord filter id := by
  simp only [Option.eq_none_iff_forall_ne_some, ne_eq, recordId?_eq_some_iff]

/-- With more text after it, a filter that names a record names none. -/
theorem NamesRecord.not_append {filter id more : Text} (h : NamesRecord filter id)
    (hmore : more.isBlank = false) (other : Text) : ¬ NamesRecord (filter ++ more) other := by
  obtain ⟨field, content, hfield, hwritten, hcontent, -⟩ := h
  intro hother
  obtain ⟨_, hread, -⟩ := recordId?_eq_some_iff_idLiteral?.1 (recordId?_eq_some_iff.2 hother)
  rw [idLiteral?_of_written hfield hwritten hcontent, hmore] at hread
  cases hread

end EntityQuery.Filter
