-- SUMMARY: Literals as they are written: each is read back as the value that it stands for.
import EntityQuery.Proofs.Statement.Name

/-!
# Literals as they are written

A value is written as a text in quotes, a whole number, or one of the words for
the booleans and null. Outside of quotes a literal has neither a comma nor an
equals sign in it, and it is no keyword that ends a list.
-/

namespace EntityQuery

/-- A literal, by the value that it stands for. -/
inductive Literal where
  | text (content : Text)
  | integer (n : Int64)
  | boolean (b : Bool)
  | null
deriving DecidableEq

namespace Literal

/-- The value that a literal stands for. -/
def value : Literal → Value
  | text content => .string content
  | integer n => .integer n
  | boolean b => .boolean b
  | null => .null

/-- How a literal is written. -/
def marks : Literal → List Mark
  | text content => [.text content.quoted]
  | integer n => [.text (Text.ofInt n.toInt)]
  | boolean true => [.keyword "true".toList]
  | boolean false => [.keyword "false".toList]
  | null => [.keyword "null".toList]

/-- Whether a literal can be written: a text in quotes has no quote in it. -/
def Valid : Literal → Prop
  | text content => '\'' ∉ content
  | _ => True

instance Valid.decidable : (l : Literal) → Decidable l.Valid
  | text content => inferInstanceAs (Decidable ('\'' ∉ content))
  | integer _ => isTrue trivial
  | boolean _ => isTrue trivial
  | null => isTrue trivial

/-- A digit stands for itself. -/
theorem isLower_foldCase_of_isDigit {c : Char} (h : c.isDigit = true) :
    (foldCase c).isLower = false := by
  have hchar : isIdentifierChar c = true := by simp [isIdentifierChar, Char.isAlphanum, h]
  have hall : (!(c.isDigit && (foldCase c).isLower)) = true :=
    of_isIdentifierChar (p := fun c => !(c.isDigit && (foldCase c).isLower)) (by decide +kernel)
      hchar
  simpa [h] using hall

theorem isPlain_ofInt (n : Int) : (Text.ofInt n).IsPlain := by
  have hplain := Text.isPlain_ofNat n.natAbs
  rw [Text.ofInt]
  split
  · exact ⟨List.cons_ne_nil _ _, List.forall_mem_cons.2 ⟨by decide, hplain.2⟩⟩
  · exact hplain

/-- The first character of a number is no letter. -/
theorem map_foldCase_ofInt (n : Int) {word : Text} (hword : Text.IsKeyword word) :
    (Text.ofInt n).map foldCase ≠ word := by
  have hhead : ∀ c ∈ (Text.ofInt n).head?, (foldCase c).isLower = false := by
    intro c hc
    rw [Text.ofInt] at hc
    split at hc
    · obtain rfl : '-' = c := by simpa using hc
      decide
    · have hdigits := (Bool.and_eq_true_iff.1 (Text.isDigits_ofNat n.natAbs)).2
      exact isLower_foldCase_of_isDigit (List.all_eq_true.1 hdigits c (List.mem_of_head? hc))
  rintro rfl
  obtain ⟨c, t, ht⟩ := List.exists_cons_of_ne_nil (isPlain_ofInt n).1
  rw [ht] at hword hhead
  exact absurd ((hhead c rfl).symm.trans (hword.2 _ (.head _))) (by decide)

/-- A word in any case is not another one. -/
theorem map_foldCase_of_sameWord_ne {t word other : Text} (h : t.sameWord word = true)
    (hother : Text.IsKeyword other ∧ 's' ∉ other ∧ 'k' ∉ other)
    (hne : word.lower ≠ other.lower) : t.map foldCase ≠ other := by
  have hlower : t.lower = word.lower := by simpa [Text.sameWord] using h
  have hsame : t.sameWord other = false := by simpa [Text.sameWord, hlower] using hne
  exact Statement.map_foldCase_ne hother hsame

/-- A literal is a word, or a text in quotes. -/
theorem plain_or_quoted {l : Literal} (hl : l.Valid) {t : Text} (ht : Written l.marks t) :
    (∃ content : Text, '\'' ∉ content ∧ t = content.quoted) ∨
      t.IsPlain ∧ t.map foldCase ≠ "where".toList := by
  have hwhere : Text.IsKeyword "where".toList ∧ 's' ∉ "where".toList ∧ 'k' ∉ "where".toList := by
    decide
  have hword {word : Text} (hkeyword : Text.IsKeyword word.lower)
      (hne : word.lower ≠ Text.lower "where".toList) (h : Written [.keyword word] t) :
      t.IsPlain ∧ t.map foldCase ≠ "where".toList :=
    ⟨Text.isPlain_of_sameWord hkeyword (written_singleton.1 h),
      map_foldCase_of_sameWord_ne (written_singleton.1 h) hwhere hne⟩
  cases l with
  | text content => exact .inl ⟨content, hl, written_text.1 ht⟩
  | integer n =>
    obtain rfl := written_text.1 ht
    exact .inr ⟨isPlain_ofInt n.toInt, map_foldCase_ofInt n.toInt hwhere.1⟩
  | boolean b =>
    cases b with
    | false => exact .inr (hword (by decide) (by decide) ht)
    | true => exact .inr (hword (by decide) (by decide) ht)
  | null => exact .inr (hword (by decide) (by decide) ht)

/-- What a text in quotes is masked with is one word. -/
theorem isBody_mask_quoted {content : Text} (h : '\'' ∉ content) :
    Statement.IsBody ["where".toList] (mask content.quoted) ∧ ',' ∉ mask content.quoted ∧
      '=' ∉ mask content.quoted := by
  rw [mask_quoted h]
  generalize content.byteSize = n
  have hall : ∀ c ∈ Text.quoted (List.replicate n '_'), c = '\'' ∨ c = '_' := by
    intro c hc
    simp only [Text.quoted, List.mem_cons, List.mem_append, List.mem_replicate] at hc
    tauto
  have hnone {c : Char} (hc : ¬ (c = '\'' ∨ c = '_')) : c ∉ Text.quoted (List.replicate n '_') :=
    fun hmem => hc (hall c hmem)
  have hblank : ∀ c ∈ Text.quoted (List.replicate n '_'), isBlank c = false := by
    intro c hc
    obtain rfl | rfl := hall c hc <;> rfl
  have hne : Text.quoted (List.replicate n '_') ≠ [] := List.cons_ne_nil _ _
  refine ⟨⟨hne, fun c hc => hblank c (List.mem_of_head? hc),
    fun c hc => hblank c (List.mem_of_getLast? hc), hnone (by decide), ?_⟩, hnone (by decide),
    hnone (by decide)⟩
  intro w hw
  rw [Text.words_eq_parts, Text.parts_eq_singleton hne hblank] at hw
  obtain rfl := List.mem_singleton.1 hw
  simp [Text.quoted, foldCase]

/-- A literal keeps a list of assignments together. -/
theorem isBody_of_written {l : Literal} (hl : l.Valid) {t : Text} (ht : Written l.marks t) :
    t.QuotesClosed ∧ Statement.IsBody ["where".toList] (mask t) ∧ ',' ∉ mask t ∧ '=' ∉ mask t := by
  obtain ⟨content, hquote, rfl⟩ | ⟨hplain, hword⟩ := plain_or_quoted hl ht
  · exact ⟨Text.quotesClosed_quoted hquote, isBody_mask_quoted hquote⟩
  · rw [mask_of_notMem hplain.quote_notMem]
    exact ⟨Text.quotesClosed_of_notMem hplain.quote_notMem, hplain.isBody (by simpa using hword),
      hplain.comma_notMem, hplain.equals_notMem⟩

/-! ## Values -/

theorem splitSign_of_head? {t : Text} (h : ∀ c ∈ t.head?, c ≠ '+' ∧ c ≠ '-') :
    Text.splitSign t = (false, t) := by
  unfold Text.splitSign
  split
  · exact absurd rfl (h _ rfl).1
  · exact absurd rfl (h _ rfl).2
  · rfl

/-- An integer is read from its decimal numeral. -/
theorem toInt64?_ofInt (n : Int64) : (Text.ofInt n.toInt).toInt64? = some n := by
  have hbounds := And.intro n.minValue_le_toInt n.toInt_le
  have hdigits := Text.isDigits_ofNat n.toInt.natAbs
  have hsplit : Text.splitSign (Text.ofInt n.toInt) =
      (decide (n.toInt < 0), Text.ofNat n.toInt.natAbs) := by
    by_cases hneg : n.toInt < 0
    · simp [Text.ofInt, hneg, Text.splitSign]
    · rw [Text.ofInt, if_neg hneg, decide_eq_false hneg]
      refine splitSign_of_head? fun c hc => ?_
      have hdigit := List.all_eq_true.1 (Bool.and_eq_true_iff.1 hdigits).2 c (List.mem_of_head? hc)
      constructor <;> rintro rfl <;> cases hdigit
  have hvalue : (if decide (n.toInt < 0) = true then -(n.toInt.natAbs : Int) else n.toInt.natAbs) =
      n.toInt := by
    simp only [decide_eq_true_eq]
    split <;> omega
  simp only [Text.toInt64?, hsplit, Text.digitsValue_ofNat, hvalue, hdigits, hbounds, and_self,
    if_true, Int64.ofInt_toInt]

/-- No number starts with a letter. -/
theorem ofNumeral?_cons {c : Char} (hc : c.isAlpha = true) (t : Text) :
    Value.ofNumeral? (c :: t) = none := by
  have hchar : isIdentifierChar c = true := by simp [isIdentifierChar, Char.isAlphanum, hc]
  have hdigit : c.isDigit = false := by
    simpa [hc] using
      of_isIdentifierChar (p := fun c => !(c.isAlpha && c.isDigit)) (by decide +kernel) hchar
  have hne {d : Char} (hd : d.isAlpha = false) : c ≠ d := by
    rintro rfl
    exact absurd (hd.symm.trans hc) (by decide)
  have hsplit : Text.splitSign (c :: t) = (false, c :: t) :=
    splitSign_of_head? (by simpa using ⟨hne rfl, hne rfl⟩)
  have hinteger : Text.toInt64? (c :: t) = none := by
    simp [Text.toInt64?, hsplit, Text.isDigits, hdigit]
  have hnumeral : Numeral.ofText? (c :: t) = none := by
    simp [Numeral.ofText?, hsplit, hdigit, hne (rfl : '.'.isAlpha = false)]
  rw [Value.ofNumeral?, hinteger, hnumeral]

/-- Only a text with a quote has quotes around it. -/
theorem unquote?_of_quote_notMem {t : Text} (h : '\'' ∉ t) : Value.unquote? t = none := by
  cases t with
  | nil => rfl
  | cons c t =>
    unfold Value.unquote?
    split
    · next heq =>
      obtain ⟨rfl, -⟩ := List.cons.inj heq
      exact absurd (List.mem_cons_self) h
    · rfl

theorem trim_quoted (content : Text) : Text.trim content.quoted = content.quoted := by
  have hquote : isBlank '\'' = false := rfl
  exact Text.trim_of_ends (by simpa [Text.quoted] using hquote)
    (Text.isBlank_getLast?_quoted [] content)

theorem trim_of_written {l : Literal} (hl : l.Valid) {t : Text} (ht : Written l.marks t) :
    t ≠ [] ∧ t.trim = t := by
  obtain ⟨content, -, rfl⟩ | ⟨hplain, -⟩ := plain_or_quoted hl ht
  · exact ⟨List.cons_ne_nil _ _, trim_quoted content⟩
  · exact ⟨hplain.1, hplain.trim_eq⟩

/-- A literal is read as the value that it stands for. -/
theorem ofLiteral_of_written {l : Literal} (hl : l.Valid) {t : Text} (ht : Written l.marks t) :
    Value.ofLiteral t = l.value := by
  have hword {word : Text} (hkeyword : Text.IsKeyword word.lower) (h : Written [.keyword word] t) :
      Value.ofLiteral t = (Value.ofWord? word).getD (.string t) := by
    have hsame : t.sameWord word = true := written_singleton.1 h
    have hplain := Text.isPlain_of_sameWord hkeyword hsame
    have hlower : t.lower = word.lower := by simpa [Text.sameWord] using hsame
    have hnumeral : Value.ofNumeral? t = none := by
      obtain ⟨c, u, rfl⟩ := List.exists_cons_of_ne_nil hplain.1
      have hmem : c.toLower ∈ word.lower := hlower ▸ List.mem_map_of_mem (.head _)
      exact ofNumeral?_cons (Text.isAlpha_of_isLower_toLower (hkeyword.2 _ hmem)) u
    have hread : Value.ofWord? t = Value.ofWord? word := by
      simp only [Value.ofWord?, Text.sameWord, hlower]
      rfl
    simp only [Value.ofLiteral, hplain.trim_eq, unquote?_of_quote_notMem hplain.quote_notMem,
      hnumeral, hread]
    rfl
  cases l with
  | text content =>
    obtain rfl := written_text.1 ht
    have hunquote : Value.unquote? content.quoted = some content := by
      simp [Text.quoted, Value.unquote?]
    simp only [Value.ofLiteral, trim_quoted, hunquote]
    rfl
  | integer n =>
    obtain rfl := written_text.1 ht
    have hplain := isPlain_ofInt n.toInt
    rw [Value.ofLiteral]
    simp only [hplain.trim_eq, unquote?_of_quote_notMem hplain.quote_notMem, Value.ofNumeral?,
      toInt64?_ofInt]
    rfl
  | boolean b =>
    cases b with
    | false => exact hword (by decide) ht
    | true => exact hword (by decide) ht
  | null => exact hword (by decide) ht

end Literal

end EntityQuery
