-- SUMMARY: Rewriting a run step by step: at each place a blank, an operator, or a character that is kept.
import EntityQuery.Proofs.Filter.Operator
import EntityQuery.Proofs.Statement.Name

/-!
# Rewriting runs

Replacing operators and collapsing blanks are one pass over a run. At every
place there is a blank, an operator, or a character that is kept, and what
follows is rewritten in the same way. Where an operator ends no word goes on, so
what follows it is rewritten as if it stood after a blank.
-/

namespace EntityQuery

/-! ## Words -/

/-- A character that stands for a letter belongs to words. -/
theorem isWordChar_of_isLower_foldCase {c : Char} (h : (foldCase c).isLower = true) :
    isWordChar c = true := by
  rw [foldCase] at h
  split at h
  · next hc => exact hc ▸ by decide +kernel
  · split at h
    · next hc => exact hc ▸ by decide +kernel
    · exact of_isIdentifierChar (by decide +kernel)
        (by simp [isIdentifierChar, Char.isAlphanum, Text.isAlpha_of_isLower_toLower h] :
          isIdentifierChar c = true)

/-- Whether the last character of a text belongs to a word; in an empty text it is the character
    before it. -/
def Text.endsInWord (inWord : Bool) (t : Text) : Bool :=
  t.getLast?.elim inWord isWordChar

theorem Text.endsInWord_cons (inWord : Bool) (c : Char) (t : Text) :
    Text.endsInWord inWord (c :: t) = t.endsInWord (isWordChar c) := by
  cases t <;> simp [endsInWord, List.getLast?_cons]

namespace Text

/-- What is read as a keyword consists of letters. -/
theorem IsKeyword.of_map_foldCase {word s : Text} (hword : IsKeyword word)
    (h : s.map foldCase = word) : s ≠ [] ∧ ∀ c ∈ s, (foldCase c).isLower = true := by
  refine ⟨?_, fun c hc => hword.2 _ (h ▸ List.mem_map_of_mem hc)⟩
  rintro rfl
  exact hword.1 h.symm

/-- A phrase is taken from the start of a text, and it consists of letters and blanks. -/
theorem exists_of_afterPhrase? {words : List Text} (hwords : ∀ word ∈ words, IsKeyword word)
    (hne : words ≠ []) {t rest : Text} (h : afterPhrase? words t = some rest) :
    ∃ taken, t = taken ++ rest ∧ taken ≠ [] ∧
      ∀ c ∈ taken, EntityQuery.isBlank c = true ∨ (foldCase c).isLower = true := by
  induction words generalizing t with
  | nil => exact absurd rfl hne
  | cons word words ih =>
    obtain ⟨hword, hmore⟩ := List.forall_mem_cons.1 hwords
    cases words with
    | nil =>
      obtain ⟨s, rfl, hs⟩ := afterKeyword?_eq_some.1 h
      obtain ⟨hne, hletters⟩ := hword.of_map_foldCase hs
      exact ⟨s, rfl, hne, fun c hc => .inr (hletters c hc)⟩
    | cons next words =>
      rw [afterPhrase?_cons_cons] at h
      obtain ⟨u, hu, h⟩ := Option.bind_eq_some_iff.1 h
      obtain ⟨v, hv, h⟩ := Option.bind_eq_some_iff.1 h
      obtain ⟨s, rfl, hs⟩ := afterKeyword?_eq_some.1 hu
      obtain ⟨c, w, rfl, hc, rfl⟩ := afterBlanks?_eq_some.1 hv
      obtain ⟨taken, htaken, -, hall⟩ := ih hmore (List.cons_ne_nil next words) h
      obtain ⟨g, hg, hw⟩ := exists_eq_append_trimStart w
      obtain ⟨-, hletters⟩ := hword.of_map_foldCase hs
      refine ⟨s ++ c :: (g ++ taken), ?_, by simp, fun d hd => ?_⟩
      · rw [hw, htaken]
        simp
      · simp only [List.mem_append, List.mem_cons] at hd
        obtain hd | rfl | hd | hd := hd
        · exact .inr (hletters d hd)
        · exact .inl hc
        · exact .inl (isBlank_iff.1 hg d hd)
        · exact hall d hd

end Text

namespace Operator

variable {inWord : Bool} {op : Operator} {t rest : Text}

theorem readPhrase?_eq_none_iff : readPhrase? t = none ↔
    ∀ phrase ∈ phrases, ∀ rest, Text.afterPhrase? phrase.2 t = some rest →
      rest.startsInWord = true := by
  rw [readPhrase?, List.findSome?_eq_none_iff]
  refine forall₂_congr fun phrase _ => ?_
  obtain ⟨op, words⟩ := phrase
  dsimp only
  cases Text.afterPhrase? words t <;> simp

theorem exists_of_readPhrase? (h : readPhrase? t = some (op, rest)) :
    ∃ words, (op, words) ∈ phrases ∧ Text.afterPhrase? words t = some rest ∧
      rest.startsInWord = false := by
  obtain ⟨⟨op', words⟩, hmem, hread⟩ := List.exists_of_findSome?_eq_some h
  dsimp only at hread
  split at hread
  · next u hu =>
    split at hread
    · cases hread
    · next hends =>
      cases hread
      exact ⟨words, hmem, hu, by simpa using hends⟩
  · cases hread

/-- The characters of operators in signs. -/
def signs : List Char :=
  ['<', '>', '!', '=']

theorem exists_of_readSigns? (h : readSigns? t = some (op, rest)) :
    ∃ taken, t = taken ++ rest ∧ taken ≠ [] ∧ ∀ c ∈ taken, c ∈ signs := by
  unfold readSigns? at h
  split at h
  · cases h; exact ⟨['<', '>'], rfl, by simp, by simp [signs]⟩
  · cases h; exact ⟨['!', '='], rfl, by simp, by simp [signs]⟩
  · cases h; exact ⟨['>', '='], rfl, by simp, by simp [signs]⟩
  · cases h; exact ⟨['<', '='], rfl, by simp, by simp [signs]⟩
  · cases h; exact ⟨['='], rfl, by simp, by simp [signs]⟩
  · cases h; exact ⟨['>'], rfl, by simp, by simp [signs]⟩
  · cases h; exact ⟨['<'], rfl, by simp, by simp [signs]⟩
  · cases h

theorem read?_cases (h : read? inWord t = some (op, rest)) :
    inWord = false ∧ readPhrase? t = some (op, rest) ∨ readSigns? t = some (op, rest) := by
  cases inWord with
  | true => exact .inr (by simpa [read?] using h)
  | false =>
    rw [read?, if_neg Bool.false_ne_true, Option.orElse_eq_orElse, Option.orElse_eq_or,
      Option.or_eq_some_iff] at h
    exact h.imp (fun h => ⟨rfl, h⟩) And.right

theorem read?_eq_none_iff : read? inWord t = none ↔
    (inWord = false → readPhrase? t = none) ∧ readSigns? t = none := by
  cases inWord <;> simp [read?]

/-- A blank and a letter, and so every character of a phrase, belong to runs. -/
theorem isRunChar_of_phrase {c : Char} (h : isBlank c = true ∨ (foldCase c).isLower = true) :
    isRunChar c = true := by
  have hmarks : ∀ d ∈ ['\'', ','], ¬ (isBlank d = true ∨ (foldCase d).isLower = true) := by decide
  rw [isRunChar, Bool.and_eq_true, bne_iff_ne, bne_iff_ne]
  constructor
  · rintro rfl
    exact hmarks _ (by simp) h
  · rintro rfl
    exact hmarks _ (by simp) h

/-- An operator takes neither a quote nor a comma, and where it ends no word goes on. -/
theorem exists_of_read? (h : read? inWord t = some (op, rest)) :
    ∃ taken : Text, t = taken ++ rest ∧ taken ≠ [] ∧ (∀ c ∈ taken, isRunChar c = true) ∧
      (taken.endsInWord inWord = false ∨ rest.startsInWord = false) := by
  obtain ⟨-, h⟩ | h := read?_cases h
  · obtain ⟨words, hmem, hwords, hrest⟩ := exists_of_readPhrase? h
    have hne : ∀ phrase ∈ phrases, phrase.2 ≠ [] := by decide
    obtain ⟨taken, rfl, htaken, hall⟩ :=
      Text.exists_of_afterPhrase? (isKeyword_of_mem_phrases hmem).1 (hne _ hmem) hwords
    exact ⟨taken, rfl, htaken, fun c hc => isRunChar_of_phrase (hall c hc), .inr hrest⟩
  · obtain ⟨taken, rfl, htaken, hall⟩ := exists_of_readSigns? h
    have hsigns : ∀ c ∈ signs, isRunChar c = true ∧ isWordChar c = false := by decide
    refine ⟨taken, rfl, htaken, fun c hc => (hsigns c (hall c hc)).1, .inl ?_⟩
    obtain ⟨c, hc⟩ := Option.ne_none_iff_exists'.1 (mt List.getLast?_eq_none_iff.1 htaken)
    rw [Text.endsInWord, hc]
    exact (hsigns c (hall c (List.mem_of_getLast? hc))).2

theorem length_lt_of_read? (h : read? inWord t = some (op, rest)) : rest.length < t.length := by
  obtain ⟨taken, rfl, hne, -⟩ := exists_of_read? h
  have hpos := List.length_pos_iff.2 hne
  rw [List.length_append]
  omega

/-- Where no word goes on, it does not matter whether the character before belongs to a word. -/
theorem read?_of_not_startsInWord (h : t.startsInWord = false) (inWord : Bool) :
    read? inWord t = read? false t := by
  have hphrase : readPhrase? t = none := by
    cases t with
    | nil => rfl
    | cons c t =>
      refine readPhrase?_of_foldCase (fun hmem => ?_) t
      have hletters : ∀ k ∈ ['i', 'a', 'o', 'l'], k.isLower = true := by decide
      rw [Text.startsInWord, isWordChar_of_isLower_foldCase (hletters _ hmem)] at h
      cases h
  rw [read?, read?, hphrase, ite_self, ite_self]

end Operator

/-! ## Steps of rewriting -/

namespace Filter

open Operator

variable {inWord : Bool} {op : Operator} {t rest : Text}

/-- Of the characters that are skipped the last one is known. -/
theorem replaceFrom_append_skip (inWord : Bool) (t rest : Text) :
    replaceFrom inWord t.length (t ++ rest) = replaceFrom (t.endsInWord inWord) 0 rest := by
  induction t generalizing inWord with
  | nil => rfl
  | cons c t ih =>
    rw [Text.endsInWord_cons]
    exact ih (isWordChar c)

theorem replaceFrom_of_not_startsInWord (h : t.startsInWord = false) (inWord : Bool) :
    replaceFrom inWord 0 t = replaceFrom false 0 t := by
  cases t with
  | nil => rfl
  | cons c t => rw [replaceFrom, replaceFrom, read?_of_not_startsInWord h]

/-- An operator is replaced wherever it is read, and what follows is rewritten as after a blank. -/
theorem replaceFrom_of_read? (h : read? inWord t = some (op, rest)) :
    replaceFrom inWord 0 t = ' ' :: (op.word ++ ' ' :: replaceFrom false 0 rest) := by
  obtain ⟨taken, rfl, hne, -, hends⟩ := exists_of_read? h
  have hrest : replaceFrom (taken.endsInWord inWord) 0 rest = replaceFrom false 0 rest := by
    obtain hends | hends := hends
    · rw [hends]
    · exact replaceFrom_of_not_startsInWord hends _
  cases taken with
  | nil => exact absurd rfl hne
  | cons c taken =>
    rw [List.cons_append] at h ⊢
    have hlength : (taken ++ rest).length - rest.length = taken.length := by simp
    rw [Text.endsInWord_cons] at hrest
    simp [replaceFrom, h, replaceFrom_append_skip, hrest]

/-- A run that is rewritten from a place on: whether the character before belongs to a word, and
    whether it is a blank. -/
def rewriteFrom (inWord afterBlank : Bool) (t : Text) : Text :=
  (replaceFrom inWord 0 t).collapseFrom afterBlank

/-- The space before what is rewritten, if none is there. -/
def gap (afterBlank : Bool) : Text :=
  if afterBlank then [] else [' ']

theorem rewriteFrom_blank {c : Char} (hc : isBlank c = true) (inWord afterBlank : Bool) (t : Text) :
    rewriteFrom inWord afterBlank (c :: t) = gap afterBlank ++ rewriteFrom false true t := by
  rw [rewriteFrom, replaceFrom, read?_of_isBlank hc, isWordChar_of_isBlank hc]
  cases afterBlank <;> simp [Text.collapseFrom, hc, gap, rewriteFrom]

theorem collapseFrom_word (op : Operator) (afterBlank : Bool) :
    Text.collapseFrom afterBlank op.word = op.word ∧ Text.endsBlank afterBlank op.word = false := by
  cases op <;> cases afterBlank <;> decide

theorem rewriteFrom_operator (h : read? inWord t = some (op, rest)) (afterBlank : Bool) :
    rewriteFrom inWord afterBlank t =
      gap afterBlank ++ (op.word ++ ' ' :: rewriteFrom false true rest) := by
  have hspace : isBlank ' ' = true := rfl
  obtain ⟨hword, hlast⟩ := collapseFrom_word op true
  rw [rewriteFrom, replaceFrom_of_read? h]
  cases afterBlank <;>
    simp [Text.collapseFrom, hspace, Text.collapseFrom_append, hword, hlast, gap, rewriteFrom]

theorem rewriteFrom_kept {c : Char} (hc : isBlank c = false)
    (h : read? inWord (c :: t) = none) (afterBlank : Bool) :
    rewriteFrom inWord afterBlank (c :: t) = c :: rewriteFrom (isWordChar c) false t := by
  rw [rewriteFrom, replaceFrom, h]
  simp [Text.collapseFrom, hc, rewriteFrom]

/-- Induction along a run as it is rewritten: at its end, at a blank, at an operator, and at a
    character that is kept. -/
@[elab_as_elim]
theorem rewrite_induction {motive : Bool → Text → Prop} (nil : ∀ inWord, motive inWord [])
    (blank : ∀ inWord c t, isBlank c = true → motive false t → motive inWord (c :: t))
    (operator : ∀ inWord t op rest, read? inWord t = some (op, rest) → motive false rest →
      motive inWord t)
    (kept : ∀ inWord c t, isBlank c = false → read? inWord (c :: t) = none →
      motive (isWordChar c) t → motive inWord (c :: t)) (inWord : Bool) (t : Text) :
    motive inWord t := by
  induction hn : t.length using Nat.strong_induction_on generalizing inWord t with
  | h n ih =>
    cases t with
    | nil => exact nil inWord
    | cons c t =>
      have hlength : t.length < n := by simp [← hn]
      cases hread : read? inWord (c :: t) with
      | some p =>
        obtain ⟨op, rest⟩ := p
        exact operator inWord _ op rest hread
          (ih _ (hn ▸ length_lt_of_read? hread) false rest rfl)
      | none =>
        cases hc : isBlank c with
        | true => exact blank inWord c t hc (ih _ hlength false t rfl)
        | false => exact kept inWord c t hc hread (ih _ hlength (isWordChar c) t rfl)

/-! ## Blanks at the ends -/

/-- Blanks before a run do not matter where its start is trimmed. -/
theorem trimStart_ofRun_append {g : Text} (hg : g.isBlank = true) (t : Text) :
    (ofRun (g ++ t)).trimStart = (ofRun t).trimStart := by
  by_cases hne : g = []
  · rw [hne, List.nil_append]
  · rw [ofRun, ofRun, Text.trimStart_collapse, Text.trimStart_collapse,
      replaceFrom_gap ⟨hne, hg⟩, Text.trimStart_append_of_isBlank hg]

/-- Blanks after a run do not matter where its end is trimmed. -/
theorem trimEnd_ofRun_append {g : Text} (hg : g.isBlank = true) (t : Text) :
    (ofRun (t ++ g)).trimEnd = (ofRun t).trimEnd := by
  have hstops : Stops g := by
    refine ⟨fun c hc => Text.isBlank_iff.1 hg c (List.mem_of_head? hc), fun c hc => ?_⟩
    rw [Text.trimStart_eq_nil_iff.2 hg] at hc
    cases hc
  obtain ⟨after, hafter⟩ := replaceFrom_append hstops (Nat.zero_le t.length) false
  rw [ofRun, ofRun, Text.trimEnd_collapse, Text.trimEnd_collapse, hafter,
    replaceFrom_of_isBlank hg, Text.trimEnd_append_of_isBlank hg]

theorem trim_ofRun_trim (t : Text) : (ofRun t.trim).trim = (ofRun t).trim := by
  obtain ⟨l, r, hl, hr, ht⟩ := Text.exists_eq_append_trim t
  calc (ofRun t.trim).trim = (ofRun t.trim).trimEnd.trimStart := by rw [Text.trimStart_trimEnd]
    _ = (ofRun (t.trim ++ r)).trim := by rw [← trimEnd_ofRun_append hr, Text.trimStart_trimEnd]
    _ = (ofRun (l ++ (t.trim ++ r))).trim := by
      rw [Text.trim, ← trimStart_ofRun_append hl, ← Text.trim]
    _ = (ofRun t).trim := by rw [← ht]

end Filter

end EntityQuery
