-- SUMMARY: A run that has been rewritten stays as it is.
import EntityQuery.Proofs.Filter.Compose
import EntityQuery.Proofs.Filter.RecordId

/-!
# Runs that are rewritten twice

No operator can be read from a rewritten run that could not be read before. Of
the signs only the exclamation mark is left. An operator in words starts in text
that is kept up to the next blank. If that blank was in the run, the next word
of the phrase was after it, and if it comes from an operator, the phrase does
not go on: no operator becomes a word that starts as `not` or `null`.
-/

namespace EntityQuery

namespace Filter

open Operator

variable {inWord : Bool} {op : Operator} {t rest : Text}

/-! ## Signs -/

theorem readSigns?_ne_none {x : Char} (hx : x ∈ ['<', '>', '=']) (t : Text) :
    readSigns? (x :: t) ≠ none := by
  unfold readSigns?
  split <;> simp_all

/-- The signs that are operators by themselves are all replaced. -/
theorem notMem_rewriteFrom {x : Char} (hx : x ∈ ['<', '>', '=']) (inWord afterBlank : Bool)
    (t : Text) : x ∉ rewriteFrom inWord afterBlank t := by
  have hplain : isBlank x = false ∧ x ≠ ' ' ∧ ∀ op : Operator, x ∉ op.word := by
    simp only [List.mem_cons, List.not_mem_nil, or_false] at hx
    obtain rfl | rfl | rfl := hx <;> exact ⟨by decide, by decide, fun op => by cases op <;> decide⟩
  have hgap (afterBlank : Bool) : x ∉ gap afterBlank := by
    cases afterBlank <;> simp [gap, hplain.2.1]
  induction inWord, t using rewrite_induction generalizing afterBlank with
  | nil inWord => exact List.not_mem_nil
  | blank inWord c t hc ih =>
    rw [rewriteFrom_blank hc]
    exact List.not_mem_append (hgap _) (ih true)
  | operator inWord t op rest hread ih =>
    rw [rewriteFrom_operator hread]
    simp [hgap, hplain, ih]
  | kept inWord c t hc hread ih =>
    have hne : x ≠ c := by
      rintro rfl
      exact readSigns?_ne_none hx t (read?_eq_none_iff.1 hread).2
    rw [rewriteFrom_kept hc hread]
    simp [hne, ih]

/-! ## Kept text -/

/-- Whether no character is kept at the start of a text. -/
inductive Breaks (inWord : Bool) : Text → Prop where
  | nil : Breaks inWord []
  | blank {c : Char} (t : Text) : isBlank c = true → Breaks inWord (c :: t)
  | operator {op : Operator} {t rest : Text} : read? inWord t = some (op, rest) → Breaks inWord t

/-- Up to the next blank or operator the characters of a run are kept. -/
theorem exists_kept (inWord : Bool) (t : Text) : ∃ u v : Text, t = u ++ v ∧
    (∀ c ∈ u, isBlank c = false) ∧ Breaks (u.endsInWord inWord) v ∧
    rewriteFrom inWord false t = u ++ rewriteFrom (u.endsInWord inWord) false v := by
  induction inWord, t using rewrite_induction with
  | nil inWord => exact ⟨[], [], rfl, by simp, .nil, rfl⟩
  | blank inWord c t hc _ => exact ⟨[], c :: t, rfl, by simp, .blank t hc, rfl⟩
  | operator inWord t op rest hread _ => exact ⟨[], t, rfl, by simp, .operator hread, rfl⟩
  | kept inWord c t hc hread ih =>
    obtain ⟨u, v, rfl, hu, hbreaks, heq⟩ := ih
    refine ⟨c :: u, v, rfl, List.forall_mem_cons.2 ⟨hc, hu⟩, ?_, ?_⟩
    · rwa [Text.endsInWord_cons]
    · rw [rewriteFrom_kept hc hread, heq, Text.endsInWord_cons]
      rfl

theorem Breaks.isBlank_head? (h : Breaks inWord t) :
    ∀ c ∈ (rewriteFrom inWord false t).head?, isBlank c = true := by
  intro c hc
  cases h with
  | nil => cases hc
  | blank t hblank =>
    rw [rewriteFrom_blank hblank] at hc
    cases hc
    rfl
  | operator hread =>
    rw [rewriteFrom_operator hread] at hc
    cases hc
    rfl

/-- After a word nothing but a blank or a sign ends what is kept. -/
theorem Breaks.not_startsInWord (h : Breaks true t) : t.startsInWord = false := by
  cases h with
  | nil => rfl
  | blank t hblank => exact isWordChar_of_isBlank hblank
  | operator hread =>
    obtain ⟨hfalse, -⟩ | hsigns := read?_cases hread
    · cases hfalse
    · cases t with
      | nil => rfl
      | cons c t =>
        by_contra hc
        rw [readSigns?_of_isWordChar (Bool.of_not_eq_false hc)] at hsigns
        cases hsigns

theorem isBlank_head?_word (op : Operator) (t : Text) :
    ∀ c ∈ (op.word ++ t).head?, isBlank c = false := by
  intro c hc
  cases op <;> cases hc <;> rfl

/-- After a blank the blanks that follow are dropped. -/
theorem trimStart_rewriteFrom (t : Text) :
    (rewriteFrom false true t).trimStart = rewriteFrom false true t.trimStart := by
  induction t with
  | nil => rfl
  | cons c t ih =>
    cases hc : isBlank c with
    | true =>
      rw [rewriteFrom_blank hc, gap, if_pos rfl, List.nil_append, ih]
      simp [Text.trimStart, hc]
    | false =>
      rw [Text.trimStart_of_head? (t := c :: t) (by simpa using hc)]
      refine Text.trimStart_of_head? fun d hd => ?_
      cases hread : read? false (c :: t) with
      | none =>
        rw [rewriteFrom_kept hc hread] at hd
        cases hd
        exact hc
      | some p =>
        rw [rewriteFrom_operator hread, gap, if_pos rfl, List.nil_append] at hd
        exact isBlank_head?_word _ _ d hd

/-- What follows a blank in a rewritten run: nothing, an operator that has been replaced, or what
    follows a blank in the run. -/
theorem cases_of_afterBlanks? (h : Breaks inWord t) {x : Text}
    (hx : (rewriteFrom inWord false t).afterBlanks? = some x) :
    x = [] ∨ (∃ (op : Operator) (y : Text), x = op.word ++ y) ∨
      ∃ c u, t.afterBlanks? = some (c :: u) ∧ isBlank c = false ∧
        x = c :: rewriteFrom (isWordChar c) false u := by
  have hspace : isBlank ' ' = true := rfl
  cases h with
  | nil => cases hx
  | operator hread =>
    rw [rewriteFrom_operator hread, gap, if_neg Bool.false_ne_true, List.singleton_append,
      Text.afterBlanks?, if_pos hspace, Text.trimStart_of_head? (isBlank_head?_word _ _)] at hx
    exact .inr (.inl ⟨_, _, (Option.some.inj hx).symm⟩)
  | @blank c t hblank =>
    rw [rewriteFrom_blank hblank, gap, if_neg Bool.false_ne_true, List.singleton_append,
      Text.afterBlanks?, if_pos hspace, trimStart_rewriteFrom] at hx
    obtain rfl := Option.some.inj hx
    rw [Text.afterBlanks?, if_pos hblank]
    cases ht : t.trimStart with
    | nil => exact .inl rfl
    | cons d u =>
      have hd : isBlank d = false := Text.isBlank_head?_trimStart (t := t) (by simp [ht])
      cases hread : read? false (d :: u) with
      | some p =>
        rw [rewriteFrom_operator hread]
        exact .inr (.inl ⟨_, _, rfl⟩)
      | none => exact .inr (.inr ⟨d, u, rfl, hd, rewriteFrom_kept hd hread true⟩)

/-! ## Phrases -/

/-- A keyword that is read from a text before a blank is taken from that text. -/
theorem exists_of_afterKeyword?_append {word : Text} (hword : Text.IsKeyword word) {s x r : Text}
    (hx : ∀ c ∈ x.head?, isBlank c = true) (h : Text.afterKeyword? word (s ++ x) = some r) :
    ∃ taken left, s = taken ++ left ∧ taken.map foldCase = word ∧ r = left ++ x := by
  rw [Text.afterKeyword?_append_of_ends (hword.endsKeyword hx)] at h
  obtain ⟨left, hleft, rfl⟩ := Option.map_eq_some_iff.1 h
  obtain ⟨taken, rfl, htaken⟩ := Text.afterKeyword?_eq_some.1 hleft
  exact ⟨taken, left, rfl, htaken, rfl⟩

/-- A keyword ends inside of a word. -/
theorem endsInWord_of_keyword {word taken : Text} (hword : Text.IsKeyword word)
    (h : taken.map foldCase = word) (inWord : Bool) : taken.endsInWord inWord = true := by
  obtain ⟨hne, hletters⟩ := hword.of_map_foldCase h
  obtain ⟨c, hc⟩ := Option.ne_none_iff_exists'.1 (mt List.getLast?_eq_none_iff.1 hne)
  rw [Text.endsInWord, hc]
  exact isWordChar_of_isLower_foldCase (hletters c (List.mem_of_getLast? hc))

/-- Whether the words that a phrase goes on with are words of none of the operators. -/
def Continues (words : List Text) : Prop :=
  ∀ word ∈ words.tail, ∀ (op : Operator) (t : Text), Text.afterKeyword? word (op.word ++ t) = none

theorem afterPhrase?_eq_none {word : Text} (words : List Text) {t : Text}
    (h : Text.afterKeyword? word t = none) : Text.afterPhrase? (word :: words) t = none := by
  cases words with
  | nil => exact h
  | cons next words => rw [Text.afterPhrase?_cons_cons, h, Option.bind_none]

/-- A keyword that is read from a run after it has been rewritten could be read before. What is left
    of the kept text is the same, and if nothing is left, the keyword is the end of a word. -/
theorem exists_afterKeyword? {word : Text} (hword : Text.IsKeyword word) {c : Char}
    (hc : isBlank c = false) {t r : Text}
    (h : Text.afterKeyword? word (c :: rewriteFrom (isWordChar c) false t) = some r) :
    ∃ (left v : Text) (inWord : Bool), Text.afterKeyword? word (c :: t) = some (left ++ v) ∧
      r = left ++ rewriteFrom inWord false v ∧ Breaks inWord v ∧
      (∀ d ∈ left, isBlank d = false) ∧ (left = [] → inWord = true) := by
  obtain ⟨u, v, rfl, hu, hbreaks, heq⟩ := exists_kept (isWordChar c) t
  rw [heq, ← List.cons_append] at h
  obtain ⟨taken, left, hs, htaken, rfl⟩ :=
    exists_of_afterKeyword?_append hword hbreaks.isBlank_head? h
  refine ⟨left, v, u.endsInWord (isWordChar c), ?_, rfl, hbreaks, fun d hd => ?_, ?_⟩
  · rw [← List.cons_append, hs, List.append_assoc]
    exact Text.afterKeyword?_append htaken (left ++ v)
  · have hkept : ∀ d ∈ c :: u, isBlank d = false := List.forall_mem_cons.2 ⟨hc, hu⟩
    exact hkept d (hs ▸ List.mem_append_right taken hd)
  · rintro rfl
    rw [List.append_nil] at hs
    rw [← Text.endsInWord_cons false, hs]
    exact endsInWord_of_keyword hword htaken false

/-- A phrase that is read from a run after it has been rewritten could be read before. -/
theorem exists_afterPhrase? {words : List Text} (hwords : ∀ word ∈ words, Text.IsKeyword word)
    (hne : words ≠ []) (hnext : Continues words) {c : Char} (hc : isBlank c = false) {t r : Text}
    (h : Text.afterPhrase? words (c :: rewriteFrom (isWordChar c) false t) = some r)
    (hr : r.startsInWord = false) :
    ∃ rest, Text.afterPhrase? words (c :: t) = some rest ∧ rest.startsInWord = false := by
  induction words generalizing c t with
  | nil => exact absurd rfl hne
  | cons word words ih =>
    obtain ⟨hword, hmore⟩ := List.forall_mem_cons.1 hwords
    cases words with
    | nil =>
      obtain ⟨left, v, inWord, hread, rfl, hbreaks, -, hends⟩ := exists_afterKeyword? hword hc h
      refine ⟨left ++ v, hread, ?_⟩
      cases left with
      | nil =>
        obtain rfl := hends rfl
        exact hbreaks.not_startsInWord
      | cons d left => exact hr
    | cons next words =>
      rw [Text.afterPhrase?_cons_cons] at h ⊢
      obtain ⟨y, hy, h⟩ := Option.bind_eq_some_iff.1 h
      obtain ⟨x, hx, h⟩ := Option.bind_eq_some_iff.1 h
      obtain ⟨left, v, inWord, hread, rfl, hbreaks, hleft, -⟩ := exists_afterKeyword? hword hc hy
      -- A blank follows the keyword, so nothing of the kept text is left.
      obtain rfl : left = [] := by
        cases left with
        | nil => rfl
        | cons d left =>
          obtain ⟨e, z, hz, he, -⟩ := Text.afterBlanks?_eq_some.1 hx
          obtain ⟨rfl, -⟩ := List.cons.inj hz
          rw [hleft d (.head _)] at he
          cases he
      obtain rfl | ⟨op, z, rfl⟩ | ⟨d, w, hd, hblank, rfl⟩ := cases_of_afterBlanks? hbreaks hx
      · have hnone : Text.afterKeyword? next [] = none := by
          obtain ⟨k, next, rfl⟩ := List.exists_cons_of_ne_nil (hmore next (.head _)).1
          rfl
        rw [afterPhrase?_eq_none words hnone] at h
        cases h
      · rw [afterPhrase?_eq_none words (hnext next (.head _) op z)] at h
        cases h
      · obtain ⟨rest, hrest, hstart⟩ := ih hmore (List.cons_ne_nil next words)
          (fun word hmem => hnext word (.tail _ hmem)) hblank h
        refine ⟨rest, ?_, hstart⟩
        rw [hread, Option.bind_some, List.nil_append, hd, Option.bind_some, hrest]

/-- The second word of an operator is no word that replaces one. -/
theorem continues_of_mem_phrases {words : List Text} (h : (op, words) ∈ phrases) :
    Continues words := by
  have hall : ∀ phrase ∈ phrases, ∀ word ∈ phrase.2.tail, word ∈ ["not".toList, "null".toList] := by
    decide
  intro word hword op t
  have hmem := hall _ h word hword
  simp only [List.mem_cons, List.not_mem_nil, or_false] at hmem
  obtain rfl | rfl := hmem <;> cases op <;> rfl

/-! ## Rewriting twice -/

/-- Where no operator is read from a run, none is read after what follows has been rewritten. -/
theorem read?_rewriteFrom {c : Char} (hc : isBlank c = false)
    (h : read? inWord (c :: t) = none) :
    read? inWord (c :: rewriteFrom (isWordChar c) false t) = none := by
  obtain ⟨hphrase, hsigns⟩ := read?_eq_none_iff.1 h
  refine read?_eq_none_iff.2 ⟨fun hstart => ?_, ?_⟩
  · have hphrase := readPhrase?_eq_none_iff.1 (hphrase hstart)
    refine readPhrase?_eq_none_iff.2 fun phrase hmem r hr => ?_
    by_contra hends
    have hne : ∀ phrase ∈ phrases, phrase.2 ≠ [] := by decide
    obtain ⟨rest, hread, hrest⟩ := exists_afterPhrase? (isKeyword_of_mem_phrases hmem).1
      (hne phrase hmem) (continues_of_mem_phrases hmem) hc hr (by simpa using hends)
    rw [hphrase phrase hmem rest hread] at hrest
    cases hrest
  · have hplain : c ∉ ['<', '>', '='] := fun hmem => readSigns?_ne_none hmem t hsigns
    have hequals : ∀ u, rewriteFrom (isWordChar c) false t ≠ '=' :: u := by
      intro u heq
      exact notMem_rewriteFrom (x := '=') (by simp) (isWordChar c) false t (by simp [heq])
    unfold readSigns?
    split <;> simp_all

/-- A word that is not the first one of an operator stays as it is. -/
theorem rewriteFrom_word {w : Text} (hne : w ≠ []) (hw : ∀ c ∈ w, isWordChar c = true)
    (hfirst : ∀ phrase ∈ phrases, phrase.2.head? ≠ some (w.map foldCase)) (t : Text) :
    rewriteFrom false true (w ++ ' ' :: t) = w ++ ' ' :: rewriteFrom false true t := by
  have hblank : ∀ c ∈ w, isBlank c = false := fun c hc => isBlank_of_isWordChar (hw c hc)
  have hlast : Text.endsBlank true w = false := by
    obtain ⟨c, hc⟩ := Option.ne_none_iff_exists'.1 (mt List.getLast?_eq_none_iff.1 hne)
    rw [Text.endsBlank, hc]
    exact hblank c (List.mem_of_getLast? hc)
  have hspace : Text.startsInWord (' ' :: t) = false := (by decide : isWordChar ' ' = false)
  rw [rewriteFrom, replaceFrom_word hne hw (readPhrase?_append_of_word hw hfirst hspace),
    Text.collapseFrom_append, Text.collapseFrom_of_forall hblank, hlast]
  exact congrArg (w ++ ·) (rewriteFrom_blank rfl true false t)

/-- The words of OData that are no operators in words themselves. -/
def plainWords : List Text :=
  ["ne".toList, "eq".toList, "null".toList, "contains".toList, "ge".toList, "le".toList,
    "gt".toList, "lt".toList]

theorem rewriteFrom_plainWord {w : Text} (h : w ∈ plainWords) (t : Text) :
    rewriteFrom false true (w ++ ' ' :: t) = w ++ ' ' :: rewriteFrom false true t := by
  have hall : ∀ w ∈ plainWords, w ≠ [] ∧ (∀ c ∈ w, isWordChar c = true) ∧
      ∀ phrase ∈ phrases, phrase.2.head? ≠ some (w.map foldCase) := by decide +kernel
  obtain ⟨hne, hw, hfirst⟩ := hall w h
  exact rewriteFrom_word hne hw hfirst t

/-- The word of an operator stays as it is: `and` and `or` are read as themselves, and the others
    are no operators. -/
theorem rewriteFrom_operatorWord (op : Operator) (t : Text) :
    rewriteFrom false true (op.word ++ ' ' :: t) = op.word ++ ' ' :: rewriteFrom false true t := by
  have hphrase {op : Operator} (hop : (op, [op.word]) ∈ phrases)
      (hword : Written (Mark.phrase [op.word]) op.word) :
      rewriteFrom false true (op.word ++ ' ' :: t) = op.word ++ ' ' :: rewriteFrom false true t := by
    have hread := (spells_of_phrase hop hword).read (' ' :: t) (by rintro c ⟨⟩; rfl)
    rw [rewriteFrom_operator hread, rewriteFrom_blank rfl]
    rfl
  have htwo {v w : Text} (hv : v ∈ plainWords) (hw : w ∈ plainWords) :
      rewriteFrom false true (v ++ ' ' :: w ++ ' ' :: t) =
        v ++ ' ' :: w ++ ' ' :: rewriteFrom false true t := by
    rw [List.append_assoc, List.cons_append, rewriteFrom_plainWord hv, rewriteFrom_plainWord hw]
    simp
  cases op with
  | and => exact hphrase (by decide) (by decide)
  | or => exact hphrase (by decide) (by decide)
  | isNotNull => exact htwo (v := "ne".toList) (w := "null".toList) (by decide) (by decide)
  | isNull => exact htwo (v := "eq".toList) (w := "null".toList) (by decide) (by decide)
  | like => exact rewriteFrom_plainWord (by decide) t
  | notEqual => exact rewriteFrom_plainWord (by decide) t
  | greaterOrEqual => exact rewriteFrom_plainWord (by decide) t
  | lessOrEqual => exact rewriteFrom_plainWord (by decide) t
  | equal => exact rewriteFrom_plainWord (by decide) t
  | greater => exact rewriteFrom_plainWord (by decide) t
  | less => exact rewriteFrom_plainWord (by decide) t

/-- A run that has been rewritten stays as it is. -/
theorem rewriteFrom_rewriteFrom (inWord : Bool) (t : Text) (afterBlank : Bool)
    (h : afterBlank = true → inWord = false) :
    rewriteFrom inWord afterBlank (rewriteFrom inWord afterBlank t) =
      rewriteFrom inWord afterBlank t := by
  -- A space that is written before the rest makes it start after a blank.
  have hgap {inWord afterBlank : Bool} (h : afterBlank = true → inWord = false) {u : Text}
      (hu : rewriteFrom false true u = u) :
      rewriteFrom inWord afterBlank (gap afterBlank ++ u) = gap afterBlank ++ u := by
    cases afterBlank with
    | true => rw [h rfl, gap, if_pos rfl, List.nil_append, hu]
    | false => exact (rewriteFrom_blank rfl inWord false u).trans (by rw [hu])
  induction inWord, t using rewrite_induction generalizing afterBlank with
  | nil inWord => rfl
  | blank inWord c t hc ih =>
    rw [rewriteFrom_blank hc]
    exact hgap h (ih true fun _ => rfl)
  | operator inWord t op rest hread ih =>
    rw [rewriteFrom_operator hread]
    refine hgap h ?_
    rw [rewriteFrom_operatorWord, ih true fun _ => rfl]
  | kept inWord c t hc hread ih =>
    rw [rewriteFrom_kept hc hread, rewriteFrom_kept hc (read?_rewriteFrom hc hread),
      ih false (by simp)]

/-- Rewriting a run once more does not change it. -/
theorem ofRun_ofRun (t : Text) : ofRun (ofRun t) = ofRun t :=
  rewriteFrom_rewriteFrom false t false (by simp)

/-! ## Quotes and commas -/

/-- Quotes and commas are as many as before. -/
theorem count_rewriteFrom {x : Char} (hx : isRunChar x = false) (inWord afterBlank : Bool)
    (t : Text) : (rewriteFrom inWord afterBlank t).count x = t.count x := by
  have hnone {u : Text} (hu : ∀ c ∈ u, isRunChar c = true) : u.count x = 0 :=
    List.count_eq_zero.2 fun hmem => absurd (hx.symm.trans (hu x hmem)) (by decide)
  have hgap (afterBlank : Bool) : (gap afterBlank).count x = 0 :=
    hnone (by cases afterBlank <;> decide)
  have hword (op : Operator) : (op.word ++ [' ']).count x = 0 :=
    hnone (by cases op <;> decide)
  induction inWord, t using rewrite_induction generalizing afterBlank with
  | nil inWord => rfl
  | blank inWord c t hc ih =>
    have hfirst : [c].count x = 0 :=
      hnone (List.forall_mem_singleton.2 (of_isBlank (p := isRunChar) (by decide) hc))
    rw [rewriteFrom_blank hc, List.count_append, hgap, ih, ← List.singleton_append (l := t),
      List.count_append, hfirst]
  | operator inWord t op rest hread ih =>
    obtain ⟨taken, rfl, -, htaken, -⟩ := exists_of_read? hread
    rw [rewriteFrom_operator hread, ← List.singleton_append, ← List.append_assoc op.word,
      List.count_append, List.count_append, hgap, hword, ih, List.count_append, hnone htaken]
    simp
  | kept inWord c t hc hread ih => rw [rewriteFrom_kept hc hread, List.count_cons, List.count_cons, ih]

theorem count_ofRun {x : Char} (hx : isRunChar x = false) (t : Text) :
    (ofRun t).count x = t.count x :=
  count_rewriteFrom hx false false t

end Filter

end EntityQuery
