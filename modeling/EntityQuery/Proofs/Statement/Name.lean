-- SUMMARY: Names and conditions as they are written: where they end, and that they are bodies.
import EntityQuery.Proofs.Skeleton.Closed
import EntityQuery.Proofs.Skeleton.Run
import EntityQuery.Proofs.Statement.Body
import EntityQuery.Statement.Read
import Mathlib.Tactic.MkIffOfInductiveProp

/-!
# Names and conditions

Names are identifiers of ASCII. A condition may be any text whose quotes are
closed, with no semicolon outside of its literals and none of the words that
would end it.
-/

namespace EntityQuery

/-! ## Names -/

/-- A character of identifiers: an ASCII letter, a digit or the underscore. -/
def isIdentifierChar (c : Char) : Bool :=
  c.isAlphanum || c == '_'

theorem toNat_lt_of_isIdentifierChar {c : Char} (h : isIdentifierChar c = true) :
    c.toNat < 128 := by
  obtain h | h := Bool.or_eq_true_iff.1 h
  · exact toNat_lt_of_isAlphanum h
  · rw [beq_iff_eq.1 h]
    decide

/-- What is checked for the code points of ASCII holds of the characters of identifiers. -/
theorem of_isIdentifierChar {p : Char → Bool}
    (hp : ∀ n ∈ List.range 128, isIdentifierChar (Char.ofNat n) = true → p (Char.ofNat n) = true)
    {c : Char} (h : isIdentifierChar c = true) : p c = true := by
  have hc := hp c.toNat (List.mem_range.2 (toNat_lt_of_isIdentifierChar h))
  rw [Char.ofNat_toNat] at hc
  exact hc h

/-- A character that means nothing to a list or a statement. -/
def isPlainChar (c : Char) : Bool :=
  !isBlank c && c != '\'' && c != ',' && c != ';' && c != '='

/-- Whether a text is a word of its own wherever it stands. -/
def Text.IsPlain (t : Text) : Prop :=
  t ≠ [] ∧ ∀ c ∈ t, isPlainChar c = true

namespace Text

/-- An identifier: characters of identifiers, the first one no digit. -/
def isIdentifier : Text → Bool
  | [] => false
  | c :: t => !c.isDigit && (c :: t).all isIdentifierChar

/-- A name that an entity can have: an identifier that is no reserved word. -/
def IsEntityName (t : Text) : Prop :=
  t.isIdentifier = true ∧ Statement.reservedWords.any t.sameWord = false

instance (t : Text) : Decidable t.IsEntityName :=
  inferInstanceAs (Decidable (_ ∧ _))

variable {t : Text}

theorem isIdentifierChar_of_mem (h : t.isIdentifier = true) {c : Char} (hc : c ∈ t) :
    isIdentifierChar c = true := by
  cases t with
  | nil => cases hc
  | cons d t => exact List.all_eq_true.1 (Bool.and_eq_true_iff.1 h).2 c hc

theorem isPlain_of_isIdentifier (h : t.isIdentifier = true) : t.IsPlain := by
  refine ⟨fun hnil => ?_, fun c hc => ?_⟩
  · rw [hnil] at h
    cases h
  · exact of_isIdentifierChar (by decide +kernel) (isIdentifierChar_of_mem h hc)

/-- What is a letter in lower case is a letter. -/
theorem isAlpha_of_isLower_toLower {c : Char} (h : c.toLower.isLower = true) :
    c.isAlpha = true := by
  by_cases hupper : c.val ≥ 'A'.val ∧ c.val ≤ 'Z'.val
  · exact Bool.or_eq_true_iff.2 (.inl (decide_eq_true hupper))
  · have hsame : c.toLower = c := dif_neg hupper
    exact Bool.or_eq_true_iff.2 (.inr (hsame ▸ h))

/-- A keyword is a plain word. -/
theorem isPlain_of_sameWord {word : Text} (hword : IsKeyword word.lower)
    (h : t.sameWord word = true) : t.IsPlain := by
  have hlower : t.lower = word.lower := by simpa [sameWord] using h
  refine ⟨fun hnil => ?_, fun c hc => ?_⟩
  · rw [hnil] at hlower
    exact hword.1 hlower.symm
  · have hmem : c.toLower ∈ word.lower := hlower ▸ List.mem_map_of_mem hc
    have halpha := isAlpha_of_isLower_toLower (hword.2 _ hmem)
    exact of_isIdentifierChar (by decide +kernel)
      (by simp [isIdentifierChar, Char.isAlphanum, halpha] : isIdentifierChar c = true)

theorem isPlain_ofNat (n : Nat) : (ofNat n).IsPlain := by
  have hdigits := isDigits_ofNat n
  simp only [isDigits, Bool.and_eq_true, Bool.not_eq_true', List.isEmpty_eq_false_iff,
    List.all_eq_true] at hdigits
  exact ⟨hdigits.1, fun c hc => of_isIdentifierChar (by decide +kernel)
    (by simp [isIdentifierChar, Char.isAlphanum, hdigits.2 c hc] : isIdentifierChar c = true)⟩

theorem IsPlain.quote_notMem (h : t.IsPlain) : '\'' ∉ t := fun hmem =>
  absurd (h.2 _ hmem) (by decide)

theorem IsPlain.comma_notMem (h : t.IsPlain) : ',' ∉ t := fun hmem =>
  absurd (h.2 _ hmem) (by decide)

theorem IsPlain.semicolon_notMem (h : t.IsPlain) : ';' ∉ t := fun hmem =>
  absurd (h.2 _ hmem) (by decide)

theorem IsPlain.equals_notMem (h : t.IsPlain) : '=' ∉ t := fun hmem =>
  absurd (h.2 _ hmem) (by decide)

theorem IsPlain.isBlank_eq_false (h : t.IsPlain) {c : Char} (hc : c ∈ t) :
    EntityQuery.isBlank c = false := by
  have hplain := h.2 c hc
  simp only [isPlainChar, Bool.and_eq_true, Bool.not_eq_true'] at hplain
  exact hplain.1.1.1.1

theorem IsPlain.trim_eq (h : t.IsPlain) : t.trim = t :=
  trim_of_ends (fun _ hc => h.isBlank_eq_false (List.mem_of_head? hc))
    fun _ hc => h.isBlank_eq_false (List.mem_of_getLast? hc)

theorem IsPlain.trimStart_append (h : t.IsPlain) (after : Text) :
    trimStart (t ++ after) = t ++ after := by
  obtain ⟨c, t, rfl⟩ := List.exists_cons_of_ne_nil h.1
  exact trimStart_of_head? (by simpa using h.isBlank_eq_false (.head _))

theorem isBlank_getLast?_quoted (s content : Text) :
    ∀ c ∈ (s ++ content.quoted).getLast?, EntityQuery.isBlank c = false := by
  have hquote : EntityQuery.isBlank '\'' = false := rfl
  rw [quoted, ← List.append_assoc, List.getLast?_concat]
  simpa using hquote

/-- A text that starts with a word and ends with a quote has nothing to trim. -/
theorem IsPlain.trim_append_quoted (h : t.IsPlain) (s content : Text) :
    trim (t ++ (s ++ content.quoted)) = t ++ (s ++ content.quoted) := by
  refine trim_of_ends ?_ (List.append_assoc t s _ ▸ isBlank_getLast?_quoted (t ++ s) content)
  obtain ⟨c, t, rfl⟩ := List.exists_cons_of_ne_nil h.1
  simpa using h.isBlank_eq_false (.head _)

theorem IsPlain.words_eq (h : t.IsPlain) : t.words = [t] :=
  parts_eq_singleton h.1 fun _ hc => h.isBlank_eq_false hc

/-- A plain word is a body unless it is one of the keywords that end one. -/
theorem IsPlain.isBody {keywords : List Text} (h : t.IsPlain) (hword : t.map foldCase ∉ keywords) :
    Statement.IsBody keywords t where
  ne_nil := h.1
  isBlank_head _ hc := h.isBlank_eq_false (List.mem_of_head? hc)
  isBlank_last _ hc := h.isBlank_eq_false (List.mem_of_getLast? hc)
  semicolon_notMem := h.semicolon_notMem
  words w hw := by
    rw [h.words_eq, List.mem_singleton] at hw
    exact hw ▸ hword

end Text

namespace Statement

/-- A name is read up to what cannot be part of it. -/
theorem readName_append_of_head? {name after : Text} (h : name.isIdentifier = true)
    (hafter : ∀ c ∈ after.head?, isNameChar c = false) :
    readName (name ++ after) = some (⟨name ++ after, after⟩, after) := by
  have hall : ∀ c ∈ name, isNameChar c = true := fun c hc =>
    of_isIdentifierChar (by decide +kernel) (Text.isIdentifierChar_of_mem h hc)
  have hstart : ∀ c, isIdentifierChar c = true → (isNameStart c || c.isDigit) = true := fun c hc =>
    of_isIdentifierChar (p := fun c => isNameStart c || c.isDigit) (by decide +kernel) hc
  cases name with
  | nil => cases h
  | cons c name =>
    obtain ⟨hchar, hmore⟩ := List.forall_mem_cons.1 hall
    have hfirst : isNameStart c = true := by
      have hdigit : c.isDigit = false := by simpa using (Bool.and_eq_true_iff.1 h).1
      simpa [hdigit] using hstart c (Text.isIdentifierChar_of_mem h (.head _))
    rw [List.cons_append, readName, if_pos hfirst, (takeWhile_append_of_head? hmore hafter).2]

/-- No blank is part of a name. -/
theorem isNameChar_of_isBlank {c : Char} (h : isBlank c = true) : isNameChar c = false := by
  simpa using of_isBlank (p := fun c => !isNameChar c) (by decide +kernel) h

theorem readName_append {name after : Text} (h : name.isIdentifier = true)
    (hafter : EndsBody after) :
    readName (name ++ after) = some (⟨name ++ after, after⟩, after) := by
  refine readName_append_of_head? h fun c hc => ?_
  obtain hblank | rfl := hafter c hc
  · exact isNameChar_of_isBlank hblank
  · decide

/-- There are no blanks at the start of a name. -/
theorem trimStart_name_append {name : Text} (h : name.isIdentifier = true) (after : Text) :
    Text.trimStart (name ++ after) = name ++ after :=
  (Text.isPlain_of_isIdentifier h).trimStart_append after

/-! ## Conditions -/

/-- A condition that none of some words ends early. It is trimmed and not empty, its quotes are
    closed, and outside of its literals it has neither a semicolon nor one of the words. -/
@[mk_iff] structure IsCondition (stops : List Text) (c : Text) : Prop where
  trimmed : c.trim = c
  ne_nil : c ≠ []
  closed : c.QuotesClosed
  semicolon_notMem : ';' ∉ mask c
  words : ∀ w ∈ (mask c).words, ∀ stop ∈ stops, w.sameWord stop = false

instance (stops : List Text) (c : Text) : Decidable (IsCondition stops c) :=
  decidable_of_iff' _ (isCondition_iff stops c)

/-- The two characters that stand for ASCII letters without regard to case are in no keyword that
    has neither of these letters. -/
theorem map_foldCase_ne {stop w : Text}
    (hstop : Text.IsKeyword stop ∧ 's' ∉ stop ∧ 'k' ∉ stop) (h : w.sameWord stop = false) :
    w.map foldCase ≠ stop := by
  rintro rfl
  obtain ⟨hkeyword, hs, hk⟩ := hstop
  have hsame : w.sameWord (w.map foldCase) = true := by
    rw [← hkeyword.lower_eq] at hs hk
    exact Text.sameWord_of_map_foldCase hkeyword.lower_eq.symm hs hk
  rw [h] at hsame
  cases hsame

theorem map_foldCase_notMem {stops : List Text} {w : Text}
    (hstops : ∀ stop ∈ stops, Text.IsKeyword stop ∧ 's' ∉ stop ∧ 'k' ∉ stop)
    (h : ∀ stop ∈ stops, w.sameWord stop = false) : w.map foldCase ∉ stops :=
  fun hmem => map_foldCase_ne (hstops _ hmem) (h _ hmem) rfl

theorem IsCondition.isBody {stops : List Text} {c : Text} (h : IsCondition stops c)
    (hstops : ∀ stop ∈ stops, Text.IsKeyword stop ∧ 's' ∉ stop ∧ 'k' ∉ stop) :
    IsBody stops (mask c) := by
  obtain ⟨hhead, hlast⟩ := Text.isBlank_ends_of_trim h.trimmed
  obtain ⟨hmaskHead, hmaskLast⟩ := head?_mask h.closed
  refine ⟨fun hnil => ?_, hmaskHead ▸ hhead, hmaskLast ▸ hlast, h.semicolon_notMem, fun w hw =>
    map_foldCase_notMem hstops (h.words w hw)⟩
  rw [hnil] at hmaskHead
  exact h.ne_nil (List.head?_eq_none_iff.1 hmaskHead.symm)

theorem ofCondition_eq_nil_iff {c : Text} (hclosed : c.QuotesClosed) :
    Filter.ofCondition c = [] ↔ c.isBlank = true := by
  obtain ⟨s, hs, rfl⟩ := Skeleton.exists_outline hclosed
  rw [Skeleton.ofCondition_eq_trim hs, Text.trim_eq_nil_iff, Skeleton.isBlank_rewritten]

/-- What is not blank becomes a filter. -/
theorem readFilter_eq_some {c : Text} (hclosed : c.QuotesClosed) (hblank : c.isBlank = false) :
    readFilter c = some (Filter.ofCondition c) := by
  have hne : Filter.ofCondition c ≠ [] := mt (ofCondition_eq_nil_iff hclosed).1 (by simp [hblank])
  simp [readFilter, hne]

theorem readFilter_of_isBlank {c : Text} (hblank : c.isBlank = true) : readFilter c = none := by
  have hquote : '\'' ∉ c := Text.notMem_of_isBlank hblank rfl
  have hnil := (ofCondition_eq_nil_iff (Text.quotesClosed_of_notMem hquote)).2 hblank
  simp [readFilter, hnil]

theorem IsCondition.readFilter {stops : List Text} {c : Text} (h : IsCondition stops c) :
    Statement.readFilter c = some (Filter.ofCondition c) := by
  refine readFilter_eq_some h.closed ?_
  by_contra hblank
  exact h.ne_nil (h.trimmed ▸ Text.trim_eq_nil_iff.2 (by simpa using hblank))

end Statement

end EntityQuery
