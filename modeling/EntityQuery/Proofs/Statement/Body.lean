-- SUMMARY: Where the body of a clause ends: at the first place from which the rest can be read.
import EntityQuery.Proofs.Text.Keyword
import EntityQuery.Statement.Shape
import Mathlib.Data.List.Basic

/-!
# Bodies of clauses

What follows a body is the end of the statement or a clause, which opens with a
keyword between blanks. So no reader of what follows succeeds inside of a body
that has no semicolon and none of the keywords in it, and a body of that kind
is read as it was written.
-/

namespace EntityQuery.Statement

variable {α : Type} {k : Text → Option α}

/-! ## Extents -/

theorem Extent.text_append (part after : Text) : Extent.text ⟨part ++ after, after⟩ = part := by
  simp [Extent.text]

/-! ## Runs -/

theorem readLongest_of_head? {p : Char → Bool} {t : Text} (h : ∀ c ∈ t.head?, p c = false) :
    readLongest p k t = none := by
  cases t with
  | nil => rfl
  | cons c t => simp [readLongest, h c rfl]

/-- Characters of a class are taken up to a place where the rest can be read, unless it can be read
    further on too. -/
theorem readLongest_append {p : Char → Bool} {s rest : Text} (hne : s ≠ [])
    (hs : ∀ c ∈ s, p c = true) (hrest : readLongest p k rest = none) {a : α}
    (ha : k rest = some a) : readLongest p k (s ++ rest) = some a := by
  induction s with
  | nil => exact absurd rfl hne
  | cons c s ih =>
    obtain ⟨hc, hs⟩ := List.forall_mem_cons.1 hs
    rw [List.cons_append, readLongest, if_pos hc]
    by_cases hnil : s = []
    · subst hnil
      rw [List.nil_append, hrest, ha]
      rfl
    · rw [ih hnil hs]
      rfl

/-- A text is passed over if the rest cannot be read from any place in it. -/
theorem readShortest_append {b after : Text} {a : α}
    (hnone : ∀ u : Text, u ≠ [] → u <:+ b → k (u ++ after) = none) (ha : k after = some a) :
    readShortest k (b ++ after) = some (after, a) := by
  induction b with
  | nil => cases after <;> simp [readShortest, ha]
  | cons c b ih =>
    have hc : k (c :: b ++ after) = none := hnone _ (List.cons_ne_nil c b) (List.suffix_refl _)
    rw [List.cons_append] at hc ⊢
    rw [readShortest, hc]
    exact ih fun u hne hu => hnone u hne (hu.trans (List.suffix_cons c b))

theorem readUpToLast_of_bracket_notMem {t : Text} (h : ')' ∉ t) :
    readUpToLast readValuesEnd t = none := by
  induction t with
  | nil => rfl
  | cons c t ih =>
    obtain ⟨hc, ht⟩ := not_or.1 (mt List.mem_cons.2 h)
    have hnone : readValuesEnd (c :: t) = none := by
      unfold readValuesEnd
      split
      · next heq => exact absurd (List.cons.inj heq).1.symm hc
      · rfl
    rw [readUpToLast, ih ht, hnone]
    rfl

/-! ## What follows a body -/

/-- Whether a reader succeeds at the end of a statement only, or at a clause that one of some
    keywords opens. -/
def OpensWith (keywords : List Text) (k : Text → Option α) : Prop :=
  ∀ t a, k t = some a → t.trimStart = [';'] ∨ ∃ keyword ∈ keywords, ∃ u rest : Text,
    t.afterBlanks? = some u ∧ Text.afterKeyword? keyword u = some rest ∧ rest.afterBlanks? ≠ none

theorem OpensWith.mono {keywords more : List Text} (hk : OpensWith keywords k)
    (h : keywords ⊆ more) : OpensWith more k := fun t a ha =>
  (hk t a ha).imp_right fun ⟨keyword, hmem, hopens⟩ => ⟨keyword, h hmem, hopens⟩

theorem opensWith_readEnd : OpensWith [] readEnd := by
  intro t a h
  rw [readEnd] at h
  split at h
  · exact .inl ‹_›
  · cases h

/-- Blanks stand before a body. -/
theorem afterBlanks?_of_readBody {t : Text} {r : Extent × α} (h : readBody k t = some r) :
    t.afterBlanks? ≠ none := by
  intro hnone
  rw [readBody, readLongest_of_head?] at h
  · cases h
  · intro c hc
    cases t with
    | nil => cases hc
    | cons d t =>
      obtain rfl : d = c := by simpa using hc
      simpa [Text.afterBlanks?] using hnone

theorem opensWith_readClause (keyword : Text) (more : List Text) :
    OpensWith [keyword] (readClause (keyword :: more) k) := by
  intro t r h
  obtain ⟨u, hu, hu'⟩ := Option.bind_eq_some_iff.1 h
  obtain ⟨v, hv, hbody⟩ := Option.bind_eq_some_iff.1 hu'
  refine .inr ⟨keyword, .head _, u, ?_⟩
  cases more with
  | nil => exact ⟨v, hu, hv, afterBlanks?_of_readBody hbody⟩
  | cons next more =>
    obtain ⟨rest, hrest, hv⟩ := Option.bind_eq_some_iff.1 hv
    obtain ⟨w, hw, -⟩ := Option.bind_eq_some_iff.1 hv
    exact ⟨rest, hu, hrest, by simp [hw]⟩

theorem OpensWith.readOptional {keywords : List Text} (hk : OpensWith keywords k) (keyword : Text)
    (more : List Text) : OpensWith (keyword :: keywords) (readOptional (keyword :: more) k) := by
  intro t r h
  rw [Statement.readOptional] at h
  rw [Option.orElse_eq_orElse, Option.orElse_eq_or, Option.or_eq_some_iff] at h
  obtain h | ⟨-, h⟩ := h
  · obtain ⟨s, hs, -⟩ := Option.map_eq_some_iff.1 h
    exact (opensWith_readClause keyword more).mono (by simp) t s hs
  · obtain ⟨a, ha, -⟩ := Option.map_eq_some_iff.1 h
    exact hk.mono (List.subset_cons_self _ _) t a ha

theorem opensWith_readLimitAndEnd : OpensWith ["limit".toList] readLimitAndEnd := by
  intro t r h
  rw [readLimitAndEnd] at h
  rw [Option.orElse_eq_orElse, Option.orElse_eq_or, Option.or_eq_some_iff] at h
  obtain h | ⟨-, h⟩ := h
  · obtain ⟨e, he, -⟩ := Option.map_eq_some_iff.1 h
    obtain ⟨u, hu, he⟩ := Option.bind_eq_some_iff.1 he
    obtain ⟨v, hv, he⟩ := Option.bind_eq_some_iff.1 he
    obtain ⟨w, hw, -⟩ := Option.bind_eq_some_iff.1 he
    exact .inr ⟨_, .head _, u, v, hu, hv, by simp [hw]⟩
  · obtain ⟨a, ha, -⟩ := Option.map_eq_some_iff.1 h
    exact opensWith_readEnd.mono (List.nil_subset _) t a ha

theorem opensWith_readSource : OpensWith ["from".toList] readSource := by
  intro t r h
  obtain ⟨u, hu, h⟩ := Option.bind_eq_some_iff.1 h
  obtain ⟨v, hv, -⟩ := Option.bind_eq_some_iff.1 h
  obtain ⟨w, hw, hv⟩ := Option.bind_eq_some_iff.1 hv
  exact .inr ⟨_, .head _, u, w, hu, hw, by simp [hv]⟩

theorem opensWith_readFilterAndEnd : OpensWith ["where".toList] readFilterAndEnd := by
  intro t r h
  obtain ⟨a, ha, -⟩ := Option.map_eq_some_iff.1 h
  exact opensWith_readEnd.readOptional _ _ t a ha

/-! ## Bodies -/

/-- A body that none of some keywords ends early. -/
structure IsBody (keywords : List Text) (b : Text) : Prop where
  ne_nil : b ≠ []
  isBlank_head : ∀ c ∈ b.head?, isBlank c = false
  isBlank_last : ∀ c ∈ b.getLast?, isBlank c = false
  semicolon_notMem : ';' ∉ b
  words : ∀ w ∈ b.words, w.map foldCase ∉ keywords

/-- A text as it can follow a body. -/
def EndsBody (after : Text) : Prop :=
  ∀ c ∈ after.head?, isBlank c = true ∨ c = ';'

theorem IsBody.append {keywords : List Text} {a b g : Text} (ha : IsBody keywords a)
    (hb : IsBody keywords b) (hg : g.IsGap) : IsBody keywords (a ++ (g ++ b)) where
  ne_nil := by simp [ha.ne_nil]
  isBlank_head c hc := by
    obtain ⟨d, t, rfl⟩ := List.exists_cons_of_ne_nil ha.ne_nil
    exact ha.isBlank_head c hc
  isBlank_last c hc := by
    rw [← List.append_assoc, List.getLast?_append_of_ne_nil _ hb.ne_nil] at hc
    exact hb.isBlank_last c hc
  semicolon_notMem := by
    have hgap : ';' ∉ g := Text.notMem_of_isBlank hg.2 rfl
    simp [ha.semicolon_notMem, hb.semicolon_notMem, hgap]
  words w hw := by
    rw [← List.append_assoc, Text.words_append hg, List.mem_append] at hw
    exact hw.elim (ha.words w) (hb.words w)

theorem EndsBody.endsKeyword {after keyword : Text} (h : EndsBody after)
    (hkeyword : Text.IsKeyword keyword) : Text.EndsKeyword keyword after := by
  intro c hc
  obtain hblank | rfl := h c hc
  · exact hkeyword.foldCase_notMem hblank
  · exact fun hmem => absurd (hkeyword.2 _ hmem) (by decide)

variable {keywords : List Text} {b after : Text}

/-- A keyword that is read at the start of a text and ends there or before a blank is a word. -/
theorem mem_words_of_afterKeyword? {keyword w v : Text} (hkeyword : Text.IsKeyword keyword)
    (hw : w.map foldCase = keyword) (hv : ∀ c ∈ v.head?, isBlank c = true) :
    w ∈ Text.words (w ++ v) := by
  have hne : w ≠ [] := by
    rintro rfl
    exact hkeyword.1 hw.symm
  have hplain : ∀ c ∈ w, isBlank c = false := fun c hc =>
    hkeyword.isBlank_eq_false (hw ▸ List.mem_map_of_mem hc)
  have hself : Text.parts isBlank w = [w] := Text.parts_eq_singleton hne hplain
  rw [Text.words_eq_parts]
  cases v with
  | nil => simp [hself]
  | cons c v => simp [Text.parts_append_cons (hv c rfl), hself]

/-- The rest cannot be read from a place in a body. -/
theorem IsBody.eq_none (hb : IsBody keywords b) (hk : OpensWith keywords k)
    (hkeywords : ∀ keyword ∈ keywords, Text.IsKeyword keyword) (hafter : EndsBody after) {u : Text}
    (hne : u ≠ []) (hu : u <:+ b) : k (u ++ after) = none := by
  have htight : b.IsTight := hb.isBlank_last
  have hblank : u.isBlank = false := (htight.of_suffix hu).isBlank_eq_false hne
  by_contra hsome
  obtain ⟨a, ha⟩ := Option.ne_none_iff_exists'.1 hsome
  obtain hend | ⟨keyword, hmem, v, rest, hv, hrest, hgap⟩ := hk _ _ ha
  · rw [Text.trimStart_append_of_not_isBlank hblank] at hend
    have hsub : u.trimStart ⊆ b := List.Subset.trans (List.dropWhile_sublist _).subset hu.subset
    obtain ⟨c, t, ht⟩ := List.exists_cons_of_ne_nil
      (mt Text.trimStart_eq_nil_iff.1 (by simpa using hblank))
    rw [ht, List.cons_append] at hend
    obtain ⟨rfl, -⟩ := List.cons.inj hend
    exact hb.semicolon_notMem (hsub (ht ▸ .head _))
  · have hkeyword := hkeywords keyword hmem
    rw [Text.afterBlanks?_append_of_not_isBlank hblank] at hv
    obtain ⟨v, hstart, rfl⟩ := Option.map_eq_some_iff.1 hv
    rw [Text.afterKeyword?_append_of_ends (hafter.endsKeyword hkeyword)] at hrest
    obtain ⟨rest, hread, rfl⟩ := Option.map_eq_some_iff.1 hrest
    obtain ⟨w, rfl, hw⟩ := Text.afterKeyword?_eq_some.1 hread
    obtain ⟨c, u, rfl, hc, hstart⟩ := Text.afterBlanks?_eq_some.1 hstart
    have hhead : ∀ c ∈ rest.head?, isBlank c = true := by
      intro c hc
      cases rest with
      | nil => cases hc
      | cons d rest =>
        obtain rfl : d = c := by simpa using hc
        by_contra hd
        exact hgap (Text.afterBlanks?_of_head? (by simpa using hd))
    -- The keyword stands in the body as a word of its own.
    have hword : w ∈ b.words := by
      obtain ⟨x, rfl⟩ := hu
      obtain ⟨g, hg, hu⟩ := Text.exists_eq_append_trimStart u
      rw [Text.words_eq_parts, Text.parts_append_cons hc, hu, ← hstart,
        Text.parts_append_of_separators (Text.isBlank_iff.1 hg)]
      exact List.mem_append_right _ (mem_words_of_afterKeyword? hkeyword hw hhead)
    exact hb.words w hword (hw ▸ hmem)

/-- A body is read as it was written. -/
theorem readBody_append (hb : IsBody keywords b) (hk : OpensWith keywords k)
    (hkeywords : ∀ keyword ∈ keywords, Text.IsKeyword keyword) (hafter : EndsBody after) {a : α}
    (ha : k after = some a) {g : Text} (hg : g.IsGap) :
    readBody k (g ++ (b ++ after)) = some (⟨b ++ after, after⟩, a) := by
  obtain ⟨c, t, rfl⟩ := List.exists_cons_of_ne_nil hb.ne_nil
  refine readLongest_append hg.1 (Text.isBlank_iff.1 hg.2) (readLongest_of_head? ?_) ?_
  · simpa using hb.isBlank_head c rfl
  · rw [List.cons_append, readBody.body, readShortest_append (fun u hne hu => ?_) ha]
    · rfl
    · exact hb.eq_none hk hkeywords hafter hne (hu.trans (List.suffix_cons c t))

end EntityQuery.Statement
