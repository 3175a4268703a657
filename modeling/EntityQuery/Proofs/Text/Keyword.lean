-- SUMMARY: Keywords and phrases at the start of a text, and where they end.
import EntityQuery.Proofs.Text.Mark

/-!
# Keywords at the start of a text

A keyword is read where it is written, whatever follows it. It is not read
partly from a text and partly from what follows, if what follows starts with a
character that is in no keyword, as a blank or a semicolon does.
-/

namespace EntityQuery

/-! ## Case -/

/-- Letters and digits are characters of ASCII. -/
theorem toNat_lt_of_isAlphanum {c : Char} (h : c.isAlphanum = true) : c.toNat < 128 := by
  have hbelow {last : Char} (hlast : c.val ≤ last.val) (h : last.toNat < 128) : c.toNat < 128 :=
    Nat.lt_of_le_of_lt (UInt32.le_iff_toNat_le.1 hlast) h
  obtain hletter | hdigit := Bool.or_eq_true_iff.1 h
  · obtain hcapital | hsmall := Bool.or_eq_true_iff.1 hletter
    · exact hbelow (of_decide_eq_true hcapital).2 (by decide)
    · exact hbelow (of_decide_eq_true (Bool.and_eq_true_iff.1 hsmall).2) (by decide)
  · exact hbelow (of_decide_eq_true (Bool.and_eq_true_iff.1 hdigit).2) (by decide)

/-- Unless it stands for one of the two other characters, a letter is folded as in ASCII. -/
theorem foldCase_of_toLower {c : Char} (hs : c.toLower ≠ '\u017f') (hk : c.toLower ≠ '\u212a') :
    foldCase c = c.toLower := by
  have hs' : c ≠ '\u017f' := by
    rintro rfl
    exact hs (by decide)
  have hk' : c ≠ '\u212a' := by
    rintro rfl
    exact hk (by decide)
  rw [foldCase, if_neg hs', if_neg hk']

theorem toLower_of_foldCase {c k : Char} (h : foldCase c = k) (hs : k ≠ 's') (hk : k ≠ 'k') :
    c.toLower = k := by
  unfold foldCase at h
  split at h
  · exact absurd h.symm hs
  · split at h
    · exact absurd h.symm hk
    · exact h

namespace Text

/-- A word in ASCII is a keyword if it is one in ASCII case. -/
theorem map_foldCase_of_sameWord {t word : Text} (h : t.sameWord word = true)
    (hs : '\u017f' ∉ word.lower) (hk : '\u212a' ∉ word.lower) : t.map foldCase = word.lower := by
  have hlower : t.lower = word.lower := by simpa [sameWord] using h
  rw [← hlower, lower]
  refine List.map_congr_left fun c hc => ?_
  have hmem : c.toLower ∈ word.lower := hlower ▸ List.mem_map_of_mem hc
  exact foldCase_of_toLower (ne_of_mem_of_not_mem hmem hs) (ne_of_mem_of_not_mem hmem hk)

/-- A keyword without `s` and `k` is folded as in ASCII. -/
theorem sameWord_of_map_foldCase {t word : Text} (h : t.map foldCase = word.lower)
    (hs : 's' ∉ word.lower) (hk : 'k' ∉ word.lower) : t.sameWord word = true := by
  have hlower : t.lower = word.lower := by
    rw [← h, lower]
    refine List.map_congr_left fun c hc => ?_
    have hmem : foldCase c ∈ word.lower := h ▸ List.mem_map_of_mem hc
    exact toLower_of_foldCase rfl (ne_of_mem_of_not_mem hmem hs) (ne_of_mem_of_not_mem hmem hk)
  simpa [sameWord] using hlower

/-! ## Keywords -/

theorem afterKeyword?_eq_some {keyword t rest : Text} :
    afterKeyword? keyword t = some rest ↔ ∃ s, t = s ++ rest ∧ s.map foldCase = keyword := by
  induction keyword generalizing t with
  | nil => simp [afterKeyword?, eq_comm]
  | cons k keyword ih =>
    cases t with
    | nil => simp [afterKeyword?]
    | cons c t =>
      rw [afterKeyword?]
      constructor
      · intro h
        split at h
        · next hc =>
          obtain ⟨s, rfl, rfl⟩ := ih.1 h
          exact ⟨c :: s, rfl, by simp [hc]⟩
        · cases h
      · rintro ⟨s, hs, hkeyword⟩
        cases s with
        | nil => cases hkeyword
        | cons d s =>
          obtain ⟨rfl, rfl⟩ := List.cons.inj hs
          obtain ⟨hd, rfl⟩ := List.cons.inj hkeyword
          rw [if_pos hd]
          exact ih.2 ⟨s, rfl, rfl⟩

theorem suffix_of_afterKeyword? {keyword t rest : Text}
    (h : afterKeyword? keyword t = some rest) : rest <:+ t := by
  obtain ⟨s, rfl, -⟩ := afterKeyword?_eq_some.1 h
  exact List.suffix_append s rest

theorem afterKeyword?_append {keyword s : Text} (h : s.map foldCase = keyword) (rest : Text) :
    afterKeyword? keyword (s ++ rest) = some rest :=
  afterKeyword?_eq_some.2 ⟨s, rfl, h⟩

/-- Whether a text starts with a character that is in none of some keywords, or is empty. -/
def EndsKeyword (keyword rest : Text) : Prop :=
  ∀ c ∈ rest.head?, foldCase c ∉ keyword

/-- A keyword does not reach into what follows a text. -/
theorem afterKeyword?_append_of_ends {keyword rest : Text} (h : EndsKeyword keyword rest)
    (t : Text) : afterKeyword? keyword (t ++ rest) = (afterKeyword? keyword t).map (· ++ rest) := by
  induction keyword generalizing t with
  | nil => rfl
  | cons k keyword ih =>
    have hkeyword : EndsKeyword keyword rest := fun c hc hmem => h c hc (.tail _ hmem)
    cases t with
    | nil =>
      cases rest with
      | nil => rfl
      | cons c rest =>
        have hc : foldCase c ≠ k := fun hc => h c rfl (hc ▸ .head _)
        simp [afterKeyword?, hc]
    | cons c t =>
      simp only [List.cons_append, afterKeyword?]
      split
      · exact ih hkeyword t
      · rfl

/-! ## Blanks -/

theorem afterBlanks?_append {g : Text} (h : g.IsGap) (t : Text) :
    (g ++ t).afterBlanks? = some t.trimStart := by
  obtain ⟨hne, hblank⟩ := h
  cases g with
  | nil => exact absurd rfl hne
  | cons c g =>
    obtain ⟨hc, hg⟩ := List.forall_mem_cons.1 (isBlank_iff.1 hblank)
    rw [List.cons_append, afterBlanks?, if_pos hc, trimStart_append_of_isBlank (isBlank_iff.2 hg)]

theorem afterBlanks?_of_head? {t : Text} (h : ∀ c ∈ t.head?, EntityQuery.isBlank c = false) :
    t.afterBlanks? = none := by
  cases t with
  | nil => rfl
  | cons c t => simp [afterBlanks?, h c rfl]

/-- After blanks there is what is trimmed at its start. -/
theorem afterBlanks?_eq_some {t rest : Text} :
    t.afterBlanks? = some rest ↔
      ∃ (c : Char) (u : Text), t = c :: u ∧ EntityQuery.isBlank c = true ∧ rest = u.trimStart := by
  cases t with
  | nil => simp [afterBlanks?]
  | cons c t =>
    rw [afterBlanks?]
    constructor
    · intro h
      split at h
      · next hc => exact ⟨c, t, rfl, hc, (Option.some.inj h).symm⟩
      · cases h
    · rintro ⟨d, u, ht, hd, rfl⟩
      obtain ⟨rfl, rfl⟩ := List.cons.inj ht
      rw [if_pos hd]

theorem exists_gap_of_afterBlanks? {t rest : Text} (h : t.afterBlanks? = some rest) :
    ∃ g : Text, g.IsGap ∧ t = g ++ rest := by
  obtain ⟨c, u, rfl, hc, rfl⟩ := afterBlanks?_eq_some.1 h
  obtain ⟨g, hg, hu⟩ := exists_eq_append_trimStart u
  exact ⟨c :: g, ⟨by simp, by simp [hc, hg]⟩, by rw [List.cons_append, ← hu]⟩

theorem suffix_of_afterBlanks? {t rest : Text} (h : t.afterBlanks? = some rest) : rest <:+ t := by
  obtain ⟨g, -, rfl⟩ := exists_gap_of_afterBlanks? h
  exact List.suffix_append g rest

theorem eq_trimStart_of_afterBlanks? {t rest : Text} (h : t.afterBlanks? = some rest) :
    rest = t.trimStart := by
  obtain ⟨c, u, rfl, hc, rfl⟩ := afterBlanks?_eq_some.1 h
  simp [trimStart, hc]

/-- Blanks at the start of a text that is not blank end in that text. -/
theorem afterBlanks?_append_of_not_isBlank {s : Text} (h : s.isBlank = false) (t : Text) :
    (s ++ t).afterBlanks? = s.afterBlanks?.map (· ++ t) := by
  cases s with
  | nil => cases h
  | cons c s =>
    rw [List.cons_append, afterBlanks?, afterBlanks?]
    split
    · next hc =>
      have hs : Text.isBlank s = false := by simpa [Text.isBlank, hc] using h
      rw [trimStart_append_of_not_isBlank hs]
      rfl
    · rfl

/-! ## Phrases -/

theorem afterPhrase?_cons_cons (word next : Text) (words : List Text) (t : Text) :
    afterPhrase? (word :: next :: words) t =
      (afterKeyword? word t).bind fun s => s.afterBlanks?.bind (afterPhrase? (next :: words)) := rfl

/-- Keywords are read in small letters. -/
def IsKeyword (word : Text) : Prop :=
  word ≠ [] ∧ ∀ c ∈ word, c.isLower = true

instance (word : Text) : Decidable word.IsKeyword :=
  inferInstanceAs (Decidable (word ≠ [] ∧ ∀ c ∈ word, c.isLower = true))

/-- No blank stands for a character of a keyword. -/
theorem IsKeyword.foldCase_notMem {word : Text} (hword : IsKeyword word) {c : Char}
    (hc : EntityQuery.isBlank c = true) : foldCase c ∉ word := by
  intro hmem
  have hlower := hword.2 _ hmem
  rw [foldCase_of_isBlank hc] at hlower
  have hnot := of_isBlank (p := fun c => !c.isLower) (by decide) hc
  simp [hlower] at hnot

theorem IsKeyword.isBlank_eq_false {word : Text} (hword : IsKeyword word) {c : Char}
    (hc : foldCase c ∈ word) : EntityQuery.isBlank c = false := by
  by_contra hblank
  exact hword.foldCase_notMem (by simpa using hblank) hc

/-- A keyword ends before a blank. -/
theorem IsKeyword.endsKeyword {word rest : Text} (hword : IsKeyword word)
    (h : ∀ c ∈ rest.head?, EntityQuery.isBlank c = true) : EndsKeyword word rest :=
  fun c hc => hword.foldCase_notMem (h c hc)

theorem IsKeyword.lower_eq {word : Text} (hword : IsKeyword word) : word.lower = word := by
  refine (List.map_congr_left fun c hc => ?_).trans (List.map_id word)
  have hsmall : 97 ≤ c.val := of_decide_eq_true (Bool.and_eq_true_iff.1 (hword.2 c hc)).1
  have hcapital : ¬ (c.val ≥ 'A'.val ∧ c.val ≤ 'Z'.val) := fun h =>
    absurd (UInt32.le_trans hsmall h.2) (by decide)
  exact dif_neg hcapital

/-- A keyword in any case is folded to the letters that it is read in. -/
theorem IsKeyword.map_foldCase {t word : Text} (hword : IsKeyword word)
    (h : t.sameWord word = true) : t.map foldCase = word := by
  have hfold := map_foldCase_of_sameWord h
  rw [hword.lower_eq] at hfold
  exact hfold (fun hmem => absurd (hword.2 _ hmem) (by decide))
    (fun hmem => absurd (hword.2 _ hmem) (by decide))

/-- A keyword starts with a letter, and so with no blank. -/
theorem IsKeyword.trimStart_append {t word : Text} (hword : IsKeyword word)
    (h : t.map foldCase = word) (rest : Text) : trimStart (t ++ rest) = t ++ rest := by
  refine trimStart_of_head? fun c hc => ?_
  cases t with
  | nil => exact absurd h.symm hword.1
  | cons d t =>
    obtain rfl : d = c := by simpa using hc
    exact hword.isBlank_eq_false (h ▸ List.mem_map_of_mem List.mem_cons_self)

/-- The letter that keywords start with. -/
def initial? (words : List Text) : Option Char :=
  words.head?.bind List.head?

theorem exists_of_initial? {words : List Text} {k : Char} (h : initial? words = some k) :
    ∃ (word : Text) (more : List Text), words = (k :: word) :: more := by
  rcases words with _ | ⟨_ | ⟨c, word⟩, more⟩
  · cases h
  · cases h
  · obtain rfl : c = k := by simpa [initial?] using h
    exact ⟨word, more, rfl⟩

/-- A text that is read as keywords, with blanks between them. Each may be in any case, also in one
    that only Unicode folds. -/
inductive Folds : List Text → Text → Prop where
  | word {word s : Text} : s.map foldCase = word → Folds [word] s
  | cons {word s g u : Text} {words : List Text} :
      s.map foldCase = word → g.IsGap → Folds words u → Folds (word :: words) (s ++ (g ++ u))

theorem Folds.of_singleton {word t : Text} (h : Folds [word] t) : t.map foldCase = word := by
  cases h with
  | word h => exact h
  | cons _ _ h => cases h

/-- A phrase starts with the first letter of its keywords. -/
theorem Folds.exists_cons {words : List Text} (hwords : ∀ word ∈ words, IsKeyword word) {t : Text}
    (h : Folds words t) : ∃ (c : Char) (u : Text), t = c :: u ∧
      initial? words = some (foldCase c) ∧ EntityQuery.isBlank c = false := by
  obtain ⟨word, more, s, rest, rfl, rfl, hs⟩ : ∃ (word : Text) (more : List Text) (s rest : Text),
      words = word :: more ∧ t = s ++ rest ∧ s.map foldCase = word := by
    cases h with
    | word hs => exact ⟨_, [], t, [], rfl, (List.append_nil t).symm, hs⟩
    | cons hs _ _ => exact ⟨_, _, _, _, rfl, rfl, hs⟩
  have hword := hwords word (.head _)
  cases s with
  | nil => exact absurd hs.symm hword.1
  | cons c s =>
    refine ⟨c, s ++ rest, rfl, by simp [initial?, ← hs], hword.isBlank_eq_false ?_⟩
    exact hs ▸ List.mem_map_of_mem List.mem_cons_self

/-- The keywords are the words of a phrase. -/
theorem Folds.map_words {words : List Text} (hwords : ∀ word ∈ words, IsKeyword word) {t : Text}
    (h : Folds words t) : t.words.map (List.map foldCase) = words := by
  have hword {word s : Text} (hword : IsKeyword word) (hs : s.map foldCase = word) :
      s.words = [s] := by
    refine parts_eq_singleton ?_ fun c hc => ?_
    · rintro rfl
      exact hword.1 hs.symm
    · exact hword.isBlank_eq_false (hs ▸ List.mem_map_of_mem hc)
  induction h with
  | word hs => rw [hword (hwords _ (.head _)) hs, List.map_singleton, hs]
  | cons hs hg _ ih =>
    obtain ⟨hfirst, hmore⟩ := List.forall_mem_cons.1 hwords
    rw [← List.append_assoc, words_append hg, List.map_append, ih hmore, hword hfirst hs,
      List.map_singleton, hs]
    rfl

/-- A phrase is read where it is written. -/
theorem Folds.afterPhrase?_append {words : List Text} (hwords : ∀ word ∈ words, IsKeyword word)
    {t : Text} (h : Folds words t) (rest : Text) : afterPhrase? words (t ++ rest) = some rest := by
  induction h with
  | word hs => exact afterKeyword?_append hs rest
  | @cons word s g u words hs hg hu ih =>
    obtain ⟨hword, hmore⟩ := List.forall_mem_cons.1 hwords
    obtain ⟨c, v, hcons, -, hc⟩ := hu.exists_cons hmore
    have hstart : trimStart (u ++ rest) = u ++ rest :=
      trimStart_of_head? (by simpa [hcons] using hc)
    cases words with
    | nil => cases hu
    | cons next words =>
      rw [afterPhrase?_cons_cons, List.append_assoc, List.append_assoc, afterKeyword?_append hs,
        Option.bind_some, afterBlanks?_append hg, Option.bind_some, hstart]
      exact ih hmore

/-- What is read as a phrase is one. -/
theorem exists_folds_of_afterPhrase? {words : List Text} (hne : words ≠ []) {t rest : Text}
    (h : afterPhrase? words t = some rest) : ∃ s, t = s ++ rest ∧ Folds words s := by
  induction words generalizing t with
  | nil => exact absurd rfl hne
  | cons word words ih =>
    cases words with
    | nil =>
      obtain ⟨s, rfl, hs⟩ := afterKeyword?_eq_some.1 h
      exact ⟨s, rfl, .word hs⟩
    | cons next words =>
      rw [afterPhrase?_cons_cons] at h
      obtain ⟨u, hu, hgap⟩ := Option.bind_eq_some_iff.1 h
      obtain ⟨v, hv, hmore⟩ := Option.bind_eq_some_iff.1 hgap
      obtain ⟨s, rfl, hs⟩ := afterKeyword?_eq_some.1 hu
      obtain ⟨g, hg, rfl⟩ := exists_gap_of_afterBlanks? hv
      obtain ⟨p, rfl, hp⟩ := ih (List.cons_ne_nil _ _) hmore
      exact ⟨s ++ (g ++ p), by simp, .cons hs hg hp⟩

theorem suffix_of_afterPhrase? {words : List Text} (hne : words ≠ []) {t rest : Text}
    (h : afterPhrase? words t = some rest) : rest <:+ t := by
  obtain ⟨s, rfl, -⟩ := exists_folds_of_afterPhrase? hne h
  exact List.suffix_append s rest

theorem exists_of_written_phrase {word : Text} {words : List Text} {t : Text}
    (h : Written (Mark.phrase (word :: words)) t) :
    ∃ s rest : Text, t = s ++ rest ∧ s.sameWord word = true ∧
      (words = [] ∧ rest = [] ∨
        words ≠ [] ∧ ∃ g u : Text, rest = g ++ u ∧ g.IsGap ∧ Written (Mark.phrase words) u) := by
  obtain ⟨s, rest, rfl, hs, hrest⟩ : ∃ s rest : Text, t = s ++ rest ∧ s.sameWord word = true ∧
      Written (if words = [] then [] else .gap :: Mark.phrase words) rest := by
    cases words <;> exact h
  refine ⟨s, rest, rfl, hs, ?_⟩
  cases words with
  | nil => exact .inl ⟨rfl, hrest⟩
  | cons next words =>
    obtain ⟨g, u, rfl, hg, hu⟩ := hrest
    exact .inr ⟨List.cons_ne_nil _ _, g, u, rfl, hg, hu⟩

theorem folds_of_written {words : List Text} (hwords : ∀ word ∈ words, IsKeyword word)
    (hne : words ≠ []) {t : Text} (h : Written (Mark.phrase words) t) : Folds words t := by
  induction words generalizing t with
  | nil => exact absurd rfl hne
  | cons word words ih =>
    obtain ⟨hword, hmore⟩ := List.forall_mem_cons.1 hwords
    obtain ⟨s, _, rfl, hs, ⟨rfl, rfl⟩ | ⟨hnext, g, u, rfl, hg, hu⟩⟩ := exists_of_written_phrase h
    · exact (List.append_nil s).symm ▸ .word (hword.map_foldCase hs)
    · exact .cons (hword.map_foldCase hs) hg (ih hmore hnext hu)

theorem exists_cons_of_written_phrase {words : List Text}
    (hwords : ∀ word ∈ words, IsKeyword word) (hne : words ≠ []) {t : Text}
    (h : Written (Mark.phrase words) t) :
    ∃ (c : Char) (u : Text), t = c :: u ∧ initial? words = some (foldCase c) := by
  obtain ⟨c, u, ht, hc, -⟩ := (folds_of_written hwords hne h).exists_cons hwords
  exact ⟨c, u, ht, hc⟩

theorem afterPhrase?_append_of_written {words : List Text}
    (hwords : ∀ word ∈ words, IsKeyword word) {t : Text} (h : Written (Mark.phrase words) t)
    (rest : Text) : afterPhrase? words (t ++ rest) = some rest := by
  by_cases hne : words = []
  · subst hne
    cases h
    rfl
  · exact (folds_of_written hwords hne h).afterPhrase?_append hwords rest

/-- A phrase consists of letters and blanks. -/
theorem of_mem_written_phrase {words : List Text} (hwords : ∀ word ∈ words, IsKeyword word)
    {t : Text} (h : Written (Mark.phrase words) t) {c : Char} (hc : c ∈ t) :
    EntityQuery.isBlank c = true ∨ (foldCase c).isLower = true := by
  induction words generalizing t with
  | nil =>
    cases h
    cases hc
  | cons word words ih =>
    obtain ⟨hword, hmore⟩ := List.forall_mem_cons.1 hwords
    obtain ⟨s, rest, rfl, hs, hrest⟩ := exists_of_written_phrase h
    obtain hc | hc := List.mem_append.1 hc
    · exact .inr (hword.2 _ (hword.map_foldCase hs ▸ List.mem_map_of_mem hc))
    · obtain ⟨rfl, rfl⟩ | ⟨-, g, u, rfl, hg, hu⟩ := hrest
      · cases hc
      · obtain hc | hc := List.mem_append.1 hc
        · exact .inl (isBlank_iff.1 hg.2 c hc)
        · exact ih hmore hu hc

theorem notMem_of_written_phrase {words : List Text} (hwords : ∀ word ∈ words, IsKeyword word)
    {t : Text} (h : Written (Mark.phrase words) t) {x : Char}
    (hx : EntityQuery.isBlank x = false ∧ (foldCase x).isLower = false) : x ∉ t := by
  intro hmem
  obtain hblank | hlower := of_mem_written_phrase hwords h hmem
  · exact absurd (hx.1.symm.trans hblank) (by decide)
  · exact absurd (hx.2.symm.trans hlower) (by decide)

/-- A phrase is not read from a text that does not start like it. -/
theorem afterPhrase?_of_head? {k : Char} {word : Text} {words : List Text} {t : Text}
    (h : ∀ c ∈ t.head?, foldCase c ≠ k) : afterPhrase? ((k :: word) :: words) t = none := by
  have hkeyword : afterKeyword? (k :: word) t = none := by
    cases t with
    | nil => rfl
    | cons c t => simp [afterKeyword?, h c rfl]
  cases words <;> simp [afterPhrase?, hkeyword]

end Text

end EntityQuery
