-- SUMMARY: Operators in a run of text: which ones are read, and that none reaches over blanks into what follows.
import EntityQuery.Filter
import EntityQuery.Proofs.Text.Keyword
import Mathlib.Data.List.Basic

/-!
# Operators in runs

A run of text is rewritten operator by operator. An operator in words may have
blanks in it, so it could start in one text and end in the next one. It does
not if the next text starts with blanks and then with a letter other than `n`,
for only `NOT` and `NULL` go on with an operator.
-/

namespace EntityQuery

/-! ## Where operators end -/

/-- Whether no operator that starts before a text reaches into it. -/
def Operator.Stops (rest : Text) : Prop :=
  (∀ c ∈ rest.head?, isBlank c = true) ∧ ∀ c ∈ rest.trimStart.head?, foldCase c ≠ 'n'

namespace Text

/-- A phrase whose words go on with `n` does not reach into what follows a text. -/
theorem afterPhrase?_append_of_stops {words : List Text} (hwords : ∀ word ∈ words, IsKeyword word)
    (hn : ∀ word ∈ words.tail, word.head? = some 'n') {rest : Text} (hrest : Operator.Stops rest)
    (t : Text) : afterPhrase? words (t ++ rest) = (afterPhrase? words t).map (· ++ rest) := by
  induction words generalizing t with
  | nil => rfl
  | cons word words ih =>
    obtain ⟨hword, hmore⟩ := List.forall_mem_cons.1 hwords
    have hkeyword := afterKeyword?_append_of_ends (hword.endsKeyword hrest.1) t
    cases words with
    | nil => exact hkeyword
    | cons next words =>
      obtain ⟨k, rfl⟩ : ∃ k, next = 'n' :: k := List.head?_eq_some_iff.1 (hn next (.head _))
      rw [afterPhrase?_cons_cons, afterPhrase?_cons_cons, hkeyword]
      cases afterKeyword? word t with
      | none => rfl
      | some s =>
        rw [Option.map_some, Option.bind_some, Option.bind_some]
        cases hs : s.isBlank with
        | true =>
          -- The phrase would have to go on with what follows the text.
          have hleft :
              (s ++ rest).afterBlanks?.bind (afterPhrase? (('n' :: k) :: words)) = none := by
            refine Option.bind_eq_none_iff.2 fun u hu => afterPhrase?_of_head? fun c hc => ?_
            rw [eq_trimStart_of_afterBlanks? hu, trimStart_append_of_isBlank hs] at hc
            exact hrest.2 c hc
          have hright : s.afterBlanks?.bind (afterPhrase? (('n' :: k) :: words)) = none := by
            refine Option.bind_eq_none_iff.2 fun u hu => afterPhrase?_of_head? fun c hc => ?_
            rw [eq_trimStart_of_afterBlanks? hu, trimStart_eq_nil_iff.2 hs] at hc
            cases hc
          rw [hleft, hright, Option.map_none]
        | false =>
          rw [afterBlanks?_append_of_not_isBlank hs]
          cases s.afterBlanks? with
          | none => rfl
          | some u => exact ih hmore (fun word hmem => hn word (.tail _ hmem)) u

theorem startsInWord_append {rest : Text} (h : ∀ c ∈ rest.head?, EntityQuery.isBlank c = true)
    (t : Text) : startsInWord (t ++ rest) = t.startsInWord := by
  cases t with
  | cons c t => rfl
  | nil =>
    cases rest with
    | nil => rfl
    | cons c rest => exact isWordChar_of_isBlank (h c rfl)

end Text

namespace Operator

/-! ## Reading an operator -/

theorem isKeyword_of_mem_phrases {op : Operator} {words : List Text} (h : (op, words) ∈ phrases) :
    (∀ word ∈ words, Text.IsKeyword word) ∧ ∀ word ∈ words.tail, word.head? = some 'n' := by
  have hall : ∀ phrase ∈ phrases, (∀ word ∈ phrase.2, word ≠ [] ∧ ∀ c ∈ word, c.isLower = true) ∧
      ∀ word ∈ phrase.2.tail, word.head? = some 'n' := by decide
  exact hall _ h

variable {rest : Text}

theorem readPhrase?_append (h : Stops rest) (t : Text) :
    readPhrase? (t ++ rest) = (readPhrase? t).map fun (op, u) => (op, u ++ rest) := by
  rw [readPhrase?, readPhrase?, List.map_findSome?, ← List.head?_filterMap, ← List.head?_filterMap]
  refine congrArg List.head? (List.filterMap_congr fun (op, words) hmem => ?_)
  obtain ⟨hwords, hn⟩ := isKeyword_of_mem_phrases hmem
  simp only [Function.comp_apply, Text.afterPhrase?_append_of_stops hwords hn h]
  cases Text.afterPhrase? words t with
  | none => rfl
  | some u =>
    simp only [Option.map_some, Text.startsInWord_append h.1]
    cases u.startsInWord <;> rfl

theorem readSigns?_append (h : ∀ c ∈ rest.head?, isBlank c = true) {t : Text} (ht : t ≠ []) :
    readSigns? (t ++ rest) = (readSigns? t).map fun (op, u) => (op, u ++ rest) := by
  rcases t with _ | ⟨c, _ | ⟨d, t⟩⟩
  · exact absurd rfl ht
  · cases rest with
    | nil => simp
    | cons d rest =>
      have hd : isBlank d = true := h d rfl
      have hgreater : d ≠ '>' := by
        rintro rfl
        cases hd
      have hequal : d ≠ '=' := by
        rintro rfl
        cases hd
      simp only [List.cons_append, List.nil_append]
      unfold readSigns?
      split <;> simp_all
  · generalize hu : c :: d :: t = u
    fun_cases readSigns? u <;> cases hu <;> simp_all [readSigns?]

theorem read?_append (h : Stops rest) (inWord : Bool) {t : Text} (ht : t ≠ []) :
    read? inWord (t ++ rest) = (read? inWord t).map fun (op, u) => (op, u ++ rest) := by
  unfold read?
  rw [readSigns?_append h.1 ht, readPhrase?_append h]
  cases inWord
  · cases readPhrase? t <;> rfl
  · rfl

/-- An operator in words starts with one of four letters. -/
theorem readPhrase?_of_foldCase {c : Char} (h : foldCase c ∉ ['i', 'a', 'o', 'l']) (t : Text) :
    readPhrase? (c :: t) = none := by
  have hnone : ∀ k ∈ ['i', 'a', 'o', 'l'], ∀ (word : Text) (words : List Text),
      Text.afterPhrase? ((k :: word) :: words) (c :: t) = none := fun k hk word words =>
    Text.afterPhrase?_of_head? (by simpa using (ne_of_mem_of_not_mem hk h).symm)
  simp only [List.forall_mem_cons] at hnone
  obtain ⟨hi, ha, ho, hl, -⟩ := hnone
  simp [readPhrase?, phrases, hi, ha, ho, hl]

/-- No operator starts with a blank. -/
theorem read?_of_isBlank {c : Char} (h : isBlank c = true) (inWord : Bool) (t : Text) :
    read? inWord (c :: t) = none := by
  have hphrase : readPhrase? (c :: t) = none := by
    refine readPhrase?_of_foldCase (fun hmem => ?_) t
    rw [foldCase_of_isBlank h] at hmem
    have hnone : ∀ c ∈ ['i', 'a', 'o', 'l'], isBlank c = false := by decide
    simp [hnone c hmem] at h
  have hsigns : readSigns? (c :: t) = none := by
    unfold readSigns?
    split <;> simp_all [isBlank]
  cases inWord <;> simp [read?, hphrase, hsigns]

end Operator

/-! ## Replacing operators -/

namespace Filter

variable {rest : Text}

/-- Operators are replaced in a text and in what follows it, each on its own. -/
theorem replaceFrom_append (h : Operator.Stops rest) {skip : Nat} {t : Text}
    (hskip : skip ≤ t.length) (inWord : Bool) : ∃ after, replaceFrom inWord skip (t ++ rest) =
      replaceFrom inWord skip t ++ replaceFrom after 0 rest := by
  induction t generalizing inWord skip with
  | nil =>
    obtain rfl : skip = 0 := by simpa using hskip
    exact ⟨inWord, rfl⟩
  | cons c t ih =>
    cases skip with
    | succ skip => exact ih (by simpa using hskip) (isWordChar c)
    | zero =>
      have hread := Operator.read?_append h inWord (List.cons_ne_nil c t)
      rw [List.cons_append] at hread
      simp only [List.cons_append, replaceFrom, hread]
      cases Operator.read? inWord (c :: t) with
      | none =>
        obtain ⟨after, hafter⟩ := ih (Nat.zero_le _) (isWordChar c)
        exact ⟨after, by simp [hafter]⟩
      | some p =>
        obtain ⟨op, u⟩ := p
        have hlength : t.length + rest.length - (u.length + rest.length) = t.length - u.length := by
          omega
        obtain ⟨after, hafter⟩ := ih (Nat.sub_le t.length u.length) (isWordChar c)
        exact ⟨after, by simp [hlength, hafter]⟩

/-- Blanks are kept, and a new word starts after them. -/
theorem replaceFrom_gap {g : Text} (hg : g.IsGap) (inWord : Bool) (t : Text) :
    replaceFrom inWord 0 (g ++ t) = g ++ replaceFrom false 0 t := by
  obtain ⟨hne, hblank⟩ := hg
  induction g generalizing inWord with
  | nil => exact absurd rfl hne
  | cons c g ih =>
    obtain ⟨hc, hblank⟩ := List.forall_mem_cons.1 (Text.isBlank_iff.1 hblank)
    rw [List.cons_append, replaceFrom, Operator.read?_of_isBlank hc, isWordChar_of_isBlank hc]
    cases g with
    | nil => rfl
    | cons d g =>
      exact congrArg (c :: ·) (ih false (List.cons_ne_nil d g) (Text.isBlank_iff.2 hblank))

theorem replaceFrom_of_isBlank {t : Text} (ht : t.isBlank = true) (inWord : Bool) :
    replaceFrom inWord 0 t = t := by
  by_cases hne : t = []
  · rw [hne]
    rfl
  · have hgap := replaceFrom_gap ⟨hne, ht⟩ inWord []
    rw [List.append_nil] at hgap
    exact hgap.trans (List.append_nil t)

theorem isBlank_replaceFrom (inWord : Bool) (t : Text) :
    (replaceFrom inWord 0 t).isBlank = t.isBlank := by
  induction t generalizing inWord with
  | nil => rfl
  | cons c t ih =>
    rw [replaceFrom]
    cases hread : Operator.read? inWord (c :: t) with
    | none => simp [ih]
    | some p =>
      obtain ⟨op, rest⟩ := p
      have hc : isBlank c = false := by
        by_contra hblank
        rw [Operator.read?_of_isBlank (by simpa using hblank)] at hread
        cases hread
      have hword : op.word.isBlank = false := by
        cases op <;> decide
      simp [hc, hword]

/-- A run is blank only if it was before. -/
theorem isBlank_ofRun (t : Text) : (ofRun t).isBlank = t.isBlank := by
  rw [ofRun, Text.collapse, Text.isBlank_collapseFrom, isBlank_replaceFrom]

end Filter

end EntityQuery
