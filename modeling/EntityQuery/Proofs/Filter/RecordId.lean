-- SUMMARY: A condition that compares an id field with a literal becomes a filter that names one record.
import EntityQuery.Filter.RecordId
import EntityQuery.Proofs.Filter.Rewrite

/-!
# Conditions that name one record

The name of an id field is a word, and none of the words of operators, so a
filter keeps it as it is. The equals sign after it becomes its OData word with
one space on both sides, and the literal is kept too. From such a filter the
content of the literal is read back, whatever it is.
-/

namespace EntityQuery

/-! ## Words in runs -/

theorem isWordChar_of_isIdentifier {w : Text} (h : w.isIdentifier = true) :
    ∀ c ∈ w, isWordChar c = true := fun _ hc =>
  of_isIdentifierChar (by decide +kernel) (Text.isIdentifierChar_of_mem h hc)

theorem isBlank_of_isWordChar {c : Char} (h : isWordChar c = true) : isBlank c = false := by
  by_contra hblank
  rw [isWordChar_of_isBlank (by simpa using hblank)] at h
  cases h

variable {w rest : Text}

theorem endsKeyword_of_not_startsInWord {keyword : Text} (hkeyword : Text.IsKeyword keyword)
    (h : rest.startsInWord = false) : Text.EndsKeyword keyword rest := by
  intro c hc hmem
  cases rest with
  | nil => cases hc
  | cons d rest =>
    obtain rfl : d = c := by simpa using hc
    exact absurd (h.symm.trans (isWordChar_of_isLower_foldCase (hkeyword.2 _ hmem))) (by decide)

namespace Operator

/-- Where the first keyword of an operator ends inside of a word, the word goes on. -/
theorem startsInWord_of_afterPhrase? {first : Text} {more : List Text}
    (hw : ∀ c ∈ w, isWordChar c = true) (hfirst : w.map foldCase ≠ first)
    (hkeyword : Text.IsKeyword first) (hrest : rest.startsInWord = false) {u : Text}
    (h : Text.afterPhrase? (first :: more) (w ++ rest) = some u) : u.startsInWord = true := by
  have hgoes {v : Text} (hv : Text.afterKeyword? first (w ++ rest) = some v) :
      ∃ c t, v = c :: t ∧ isWordChar c = true := by
    rw [Text.afterKeyword?_append_of_ends (endsKeyword_of_not_startsInWord hkeyword hrest)] at hv
    obtain ⟨x, hx, rfl⟩ := Option.map_eq_some_iff.1 hv
    obtain ⟨s, rfl, hs⟩ := Text.afterKeyword?_eq_some.1 hx
    cases x with
    | nil => exact absurd (by simpa using hs) hfirst
    | cons c x => exact ⟨c, x ++ rest, rfl, hw c (by simp)⟩
  cases more with
  | nil =>
    obtain ⟨c, t, rfl, hc⟩ := hgoes h
    exact hc
  | cons next more =>
    obtain ⟨v, hv, h⟩ := Option.bind_eq_some_iff.1 h
    obtain ⟨c, t, rfl, hc⟩ := hgoes hv
    obtain ⟨x, hx, -⟩ := Option.bind_eq_some_iff.1 h
    obtain ⟨d, y, heq, hd, -⟩ := Text.afterBlanks?_eq_some.1 hx
    obtain ⟨rfl, -⟩ := List.cons.inj heq
    rw [isWordChar_of_isBlank hd] at hc
    cases hc

/-- No operator is read from a word that is not the first word of one. -/
theorem readPhrase?_append_of_word (hw : ∀ c ∈ w, isWordChar c = true)
    (hfirst : ∀ phrase ∈ phrases, phrase.2.head? ≠ some (w.map foldCase))
    (hrest : rest.startsInWord = false) : readPhrase? (w ++ rest) = none := by
  have hne : ∀ phrase ∈ phrases, phrase.2 ≠ [] := by decide
  rw [readPhrase?, List.findSome?_eq_none_iff]
  rintro ⟨op, words⟩ hmem
  obtain ⟨hwords, -⟩ := isKeyword_of_mem_phrases hmem
  obtain ⟨first, more, rfl⟩ := List.exists_cons_of_ne_nil (hne _ hmem)
  have hother : w.map foldCase ≠ first := fun h => hfirst _ hmem (congrArg some h.symm)
  dsimp only
  split
  · next u hu =>
    exact if_pos (startsInWord_of_afterPhrase? hw hother (hwords first (.head _)) hrest hu)
  · rfl

theorem readSigns?_of_isWordChar {c : Char} (hc : isWordChar c = true) (t : Text) :
    readSigns? (c :: t) = none := by
  have hne {d : Char} (hd : isWordChar d = false) : c ≠ d := by
    rintro rfl
    exact absurd (hd.symm.trans hc) (by decide)
  have hsigns : ∀ d ∈ ['<', '>', '!', '='], isWordChar d = false := by decide
  simp only [List.forall_mem_cons] at hsigns
  unfold readSigns?
  split <;> simp_all

end Operator

namespace Filter

/-- Inside of a word nothing is replaced. -/
theorem replaceFrom_inWord (hw : ∀ c ∈ w, isWordChar c = true) (t : Text) :
    replaceFrom true 0 (w ++ t) = w ++ replaceFrom true 0 t := by
  induction w with
  | nil => rfl
  | cons c w ih =>
    obtain ⟨hc, hw⟩ := List.forall_mem_cons.1 hw
    have hread : Operator.read? true (c :: (w ++ t)) = none := by
      rw [Operator.read?, Operator.readSigns?_of_isWordChar hc]
      rfl
    rw [List.cons_append, replaceFrom, hread, hc, ih hw]
    rfl

/-- A word that is not the first one of an operator is kept. -/
theorem replaceFrom_word (hne : w ≠ []) (hw : ∀ c ∈ w, isWordChar c = true)
    (hphrase : Operator.readPhrase? (w ++ rest) = none) :
    replaceFrom false 0 (w ++ rest) = w ++ replaceFrom true 0 rest := by
  obtain ⟨c, w, rfl⟩ := List.exists_cons_of_ne_nil hne
  obtain ⟨hc, hw⟩ := List.forall_mem_cons.1 hw
  have hread : Operator.read? false (c :: (w ++ rest)) = none := by
    rw [Operator.read?, Operator.readSigns?_of_isWordChar hc, if_neg Bool.false_ne_true]
    rw [List.cons_append] at hphrase
    rw [hphrase]
    rfl
  rw [List.cons_append, replaceFrom, hread, hc, replaceFrom_inWord hw]
  rfl

/-- An equals sign is replaced wherever it stands. -/
theorem replaceFrom_equals (inWord : Bool) (t : Text) :
    replaceFrom inWord 0 ('=' :: t) = ' ' :: "eq".toList ++ ' ' :: replaceFrom false 0 t := by
  have hread : Operator.read? inWord ('=' :: t) = some (.equal, t) := by
    rw [Operator.read?, Operator.readPhrase?_of_foldCase (by decide)]
    cases inWord <;> rfl
  exact replaceFrom_of_read? hread

/-- Blanks, an equals sign and blanks after a word become the word of the operator. -/
theorem ofRun_equals (hne : w ≠ []) (hw : ∀ c ∈ w, isWordChar c = true)
    (hfirst : ∀ phrase ∈ Operator.phrases, phrase.2.head? ≠ some (w.map foldCase)) {l r : Text}
    (hl : l.isBlank = true) (hr : r.isBlank = true) :
    ofRun (w ++ (l ++ '=' :: r)) = w ++ " eq ".toList := by
  have hstops : Text.startsInWord (l ++ '=' :: r) = false := by
    cases l with
    | nil => exact (by decide : isWordChar '=' = false)
    | cons c l => exact isWordChar_of_isBlank (Text.isBlank_iff.1 hl c (.head _))
  have hreplaced : replaceFrom true 0 (l ++ '=' :: r) = l ++ (" eq".toList ++ ' ' :: r) := by
    have hequals (inWord : Bool) :
        replaceFrom inWord 0 ('=' :: r) = " eq".toList ++ ' ' :: r := by
      rw [replaceFrom_equals, replaceFrom_of_isBlank hr]
      rfl
    by_cases hnil : l = []
    · rw [hnil, List.nil_append, hequals, List.nil_append]
    · rw [replaceFrom_gap ⟨hnil, hl⟩, hequals]
  have hspace : Text.IsGap (l ++ [' ']) := ⟨by simp, by simp [hl, show isBlank ' ' = true from rfl]⟩
  have hlast : Text.IsGap (' ' :: r) := ⟨by simp, by simp [hr, show isBlank ' ' = true from rfl]⟩
  have hblank : ∀ c ∈ w, isBlank c = false := fun c hc => isBlank_of_isWordChar (hw c hc)
  calc ofRun (w ++ (l ++ '=' :: r))
      = Text.collapse (w ++ (l ++ [' ']) ++ ("eq".toList ++ ' ' :: r)) := by
        rw [ofRun, replaceFrom_word hne hw (Operator.readPhrase?_append_of_word hw hfirst hstops),
          hreplaced]
        simp
    _ = w ++ ' ' :: Text.collapseFrom true ("eq".toList ++ ' ' :: r) := by
        rw [Text.collapse_append_gap hspace,
          Text.trimEnd_of_getLast? fun c hc => hblank c (List.mem_of_getLast? hc),
          Text.collapse, Text.collapseFrom_of_forall hblank]
    _ = w ++ " eq ".toList := by
        rw [Text.collapseFrom_append, show Text.endsBlank true "eq".toList = false from rfl,
          Text.collapseFrom_of_isGap hlast]
        rfl

end Filter

/-! ## Id fields -/

/-- The name of an id field: an identifier of three characters at least that ends in `id`, in any
    case. -/
def Text.IsIdName (t : Text) : Prop :=
  t.isIdentifier = true ∧ 3 ≤ t.length ∧ Text.sameWord (t.drop (t.length - 2)) "id".toList = true

instance (t : Text) : Decidable t.IsIdName :=
  inferInstanceAs (Decidable (_ ∧ _))

/-- What the name of an id field consists of. -/
theorem Text.IsIdName.exists_eq {t : Text} (h : t.IsIdName) :
    ∃ stem i d, t = stem ++ [i, d] ∧ stem ≠ [] ∧ foldCase i = 'i' ∧ foldCase d = 'd' := by
  obtain ⟨-, hlength, hsame⟩ := h
  have hfold := IsKeyword.map_foldCase (by decide) hsame
  have hdrop : (t.drop (t.length - 2)).length = 2 := by
    rw [List.length_drop]
    omega
  obtain ⟨i, d, hid⟩ := List.length_eq_two.1 hdrop
  rw [hid] at hfold
  refine ⟨t.take (t.length - 2), i, d, ?_, ?_, ?_⟩
  · rw [← hid, List.take_append_drop]
  · refine List.length_pos_iff.1 ?_
    rw [List.length_take]
    omega
  · simpa using hfold

namespace Filter

theorem isIdField_of_isIdName {t : Text} (h : t.IsIdName) : isIdField t = true := by
  obtain ⟨stem, i, d, rfl, hne, hi, hd⟩ := h.exists_eq
  obtain ⟨c, rest, hstem⟩ := List.exists_cons_of_ne_nil (mt List.reverse_eq_nil_iff.1 hne)
  simp [isIdField, hstem, hi, hd]

/-- The name of an id field is not the first word of an operator. -/
theorem head?_phrases_of_isIdName {t : Text} (h : t.IsIdName) :
    ∀ phrase ∈ Operator.phrases, phrase.2.head? ≠ some (t.map foldCase) := by
  obtain ⟨stem, i, d, rfl, -, hi, hd⟩ := h.exists_eq
  have hends : ∀ phrase ∈ Operator.phrases, ∀ first ∈ phrase.2.head?,
      first.reverse.take 2 ≠ ['d', 'i'] := by decide
  intro phrase hmem hfirst
  exact hends phrase hmem _ hfirst (by simp [hi, hd])

open Skeleton

/-- The filter of a run with a literal after it. -/
theorem ofCondition_append_quoted {run value : Text} (hquote : '\'' ∉ run) (hcomma : ',' ∉ run)
    (hvalue : '\'' ∉ value) :
    ofCondition (run ++ value.quoted) = (ofRun run ++ value.quoted).trim := by
  have hproper : Proper (run.map Slot.char ++ [Slot.literal fun _ : Unit => value]) :=
    Proper.append_iff.2 ⟨proper_map_char hquote, List.forall_mem_singleton.2 fun _ => hvalue⟩
  have htrim := ofCondition_eq_trim hproper ()
  rw [rewritten_append () (.inr (by simp [Slot.isRun])), rewritten_map_char () hcomma,
    rewritten_singleton rfl] at htrim
  simpa [Slot.source, Text.quoted] using htrim

theorem notMem_comparison {field l r : Text} (hl : l.isBlank = true) (hr : r.isBlank = true)
    {c : Char} (hc : isBlank c = false) (hne : c ≠ '=') (hmem : c ∉ field) :
    c ∉ field ++ (l ++ '=' :: r) := by
  simp [hmem, Text.notMem_of_isBlank hl hc, hne, Text.notMem_of_isBlank hr hc]

/-- The filter of a comparison of an id field with a literal. -/
theorem ofCondition_id {field l r value : Text} (hfield : field.IsIdName) (hl : l.isBlank = true)
    (hr : r.isBlank = true) (hvalue : '\'' ∉ value) :
    ofCondition (field ++ (l ++ '=' :: (r ++ value.quoted))) =
      field ++ (" eq ".toList ++ value.quoted) := by
  have hplain := Text.isPlain_of_isIdentifier hfield.1
  have hquote := notMem_comparison hl hr rfl (by decide) hplain.quote_notMem
  have hcomma := notMem_comparison hl hr rfl (by decide) hplain.comma_notMem
  have hrun := ofRun_equals hplain.1 (isWordChar_of_isIdentifier hfield.1)
    (head?_phrases_of_isIdName hfield) hl hr
  have hwhole : field ++ (l ++ '=' :: (r ++ value.quoted)) =
      field ++ (l ++ '=' :: r) ++ value.quoted := by simp
  rw [hwhole, ofCondition_append_quoted hquote hcomma hvalue, hrun, List.append_assoc]
  exact hplain.trim_append_quoted _ _

/-- The content of the literal is read back. -/
theorem idLiteral?_id {field value : Text} (hfield : field.IsIdName) (hvalue : '\'' ∉ value) :
    idLiteral? (field ++ (" eq ".toList ++ value.quoted)) = some value := by
  obtain ⟨hfirst, hrest⟩ := takeWhile_append_of_head? (isWordChar_of_isIdentifier hfield.1)
    (t := " eq ".toList ++ value.quoted) fun c hc => by
      obtain rfl : ' ' = c := by simpa using hc
      decide
  obtain ⟨hcontent, hclose⟩ := takeWhile_append_of_head? (p := (· != '\'')) (s := value)
    (t := ['\'']) (fun c hc => by simpa using ne_of_mem_of_not_mem hc hvalue)
    (fun c hc => by cases hc; rfl)
  have hblanks : Text.afterBlanks? (" eq ".toList ++ value.quoted) =
      some ("eq ".toList ++ value.quoted) := rfl
  have hkeyword : Text.afterKeyword? "eq".toList ("eq ".toList ++ value.quoted) =
      some (' ' :: value.quoted) := rfl
  have hopen : Text.afterBlanks? (' ' :: value.quoted) = some ('\'' :: (value ++ ['\''])) := rfl
  rw [idLiteral?, Statement.trimStart_name_append hfield.1]
  simp only [hfirst, hrest, isIdField_of_isIdName hfield, if_true, Option.bind_eq_bind, hblanks,
    Option.bind_some, hkeyword, hopen, hclose, hcontent]
  rfl

/-- The filter of a comparison of an id field with a literal names the record with this id. -/
theorem recordId?_id {field value : Text} (hfield : field.IsIdName) (hvalue : '\'' ∉ value)
    (hid : (withoutBraces value).isBlank = false) :
    recordId? (field ++ (" eq ".toList ++ value.quoted)) = some (withoutBraces value).trim := by
  have hne : (withoutBraces value).trim ≠ [] := fun h => by
    rw [Text.trim_eq_nil_iff.1 h] at hid
    cases hid
  rw [recordId?, idLiteral?_id hfield hvalue]
  simp [hne]

end Filter

end EntityQuery
