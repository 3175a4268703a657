-- SUMMARY: Trimming, words and collapsed blanks of texts that are put together.
import EntityQuery.Text.Blank
import EntityQuery.Text.Keyword
import Mathlib.Data.List.TakeWhile

/-!
# Blanks between texts

What trimming, cutting into words and collapsing do to texts one after the
other. Blanks between two texts belong to neither: the words are those of both
texts, and the blanks become one space.
-/

namespace EntityQuery

-- A decision goes through the characters of the text, never through all characters there are.
instance (priority := 2000) Text.decidableForallMem {p : Char → Prop} [DecidablePred p]
    (t : Text) : Decidable (∀ c ∈ t, p c) :=
  List.decidableBAll p t

instance (priority := 2000) Text.decidableForallMemOption {p : Char → Prop} [DecidablePred p]
    (c? : Option Char) : Decidable (∀ c ∈ c?, p c) :=
  Option.decidableForallMem c?

/-! ## Blank characters -/

/-- The code points of the blank characters. -/
def blankPoints : List Nat :=
  List.range' 9 5 ++ List.range' 0x2000 11 ++
    [0x20, 0x85, 0xA0, 0x1680, 0x2028, 0x2029, 0x202F, 0x205F, 0x3000]

theorem toNat_mem_blankPoints {c : Char} (h : isBlank c = true) : c.toNat ∈ blankPoints := by
  simp only [isBlank, Bool.or_eq_true, Bool.and_eq_true, decide_eq_true_eq, beq_iff_eq] at h
  simp only [blankPoints, List.mem_append, List.mem_range'_1, List.mem_cons, List.not_mem_nil,
    or_false]
  rcases h with (((((((((h | h) | h) | h) | h) | h) | h) | h) | h) | h) | h <;> simp [h]
  · omega
  · omega

/-- What is checked for the code points of blanks holds of blanks. -/
theorem of_isBlank {p : Char → Bool} (hp : ∀ n ∈ blankPoints, p (Char.ofNat n) = true) {c : Char}
    (h : isBlank c = true) : p c = true := by
  have hc := hp _ (toNat_mem_blankPoints h)
  rwa [Char.ofNat_toNat] at hc

/-- No blank belongs to a word. -/
theorem isWordChar_of_isBlank {c : Char} (h : isBlank c = true) : isWordChar c = false := by
  simpa using of_isBlank (p := fun c => !isWordChar c) (by decide +kernel) h

/-- No blank stands for another character. -/
theorem foldCase_of_isBlank {c : Char} (h : isBlank c = true) : foldCase c = c := by
  simpa using of_isBlank (p := fun c => foldCase c == c) (by decide +kernel) h

namespace Text

/-- One or more blanks. -/
def IsGap (t : Text) : Prop :=
  t ≠ [] ∧ t.isBlank = true

instance (t : Text) : Decidable t.IsGap :=
  inferInstanceAs (Decidable (t ≠ [] ∧ t.isBlank = true))

theorem isBlank_iff {t : Text} : t.isBlank = true ↔ ∀ c ∈ t, EntityQuery.isBlank c = true :=
  List.all_eq_true

/-- In a text of blanks there is nothing else. -/
theorem notMem_of_isBlank {t : Text} (h : t.isBlank = true) {c : Char}
    (hc : EntityQuery.isBlank c = false) : c ∉ t := fun hmem => by
  rw [isBlank_iff.1 h c hmem] at hc
  cases hc

@[simp] theorem isBlank_nil : Text.isBlank [] = true := rfl

@[simp] theorem isBlank_cons (c : Char) (t : Text) :
    Text.isBlank (c :: t) = (EntityQuery.isBlank c && t.isBlank) := rfl

@[simp] theorem isBlank_append (s t : Text) :
    Text.isBlank (s ++ t) = (Text.isBlank s && Text.isBlank t) :=
  List.all_append

theorem IsGap.head?_append {g : Text} (hg : g.IsGap) (t : Text) :
    ∀ c ∈ (g ++ t).head?, EntityQuery.isBlank c = true := by
  intro c hc
  cases g with
  | nil => exact absurd rfl hg.1
  | cons d g =>
    obtain rfl : d = c := by simpa using hc
    exact isBlank_iff.1 hg.2 d (.head _)

/-! ## Trimming -/

theorem trimStart_eq_nil_iff {t : Text} : t.trimStart = [] ↔ t.isBlank = true := by
  rw [trimStart, List.dropWhile_eq_nil_iff, isBlank_iff]

theorem trimEnd_eq_nil_iff {t : Text} : t.trimEnd = [] ↔ t.isBlank = true := by
  rw [trimEnd, List.reverse_eq_nil_iff, ← trimStart, trimStart_eq_nil_iff, isBlank_iff, isBlank_iff]
  simp

/-- Blanks at the start are dropped. -/
theorem trimStart_append_of_isBlank {s : Text} (h : s.isBlank = true) (t : Text) :
    trimStart (s ++ t) = t.trimStart :=
  List.dropWhile_append_of_pos (isBlank_iff.1 h)

/-- A text that is not blank keeps what follows it. -/
theorem trimStart_append_of_not_isBlank {s : Text} (h : s.isBlank = false) (t : Text) :
    trimStart (s ++ t) = s.trimStart ++ t := by
  have hne : s.trimStart ≠ [] := by simpa [trimStart_eq_nil_iff] using h
  rw [trimStart, List.dropWhile_append, ← trimStart, if_neg (mt List.isEmpty_iff.1 hne)]

theorem trimEnd_append_of_isBlank {t : Text} (h : t.isBlank = true) (s : Text) :
    trimEnd (s ++ t) = s.trimEnd := by
  rw [trimEnd, List.reverse_append, ← trimStart, trimStart_append_of_isBlank]
  · rfl
  · simpa [isBlank_iff] using isBlank_iff.1 h

theorem trimEnd_append_of_not_isBlank {t : Text} (h : t.isBlank = false) (s : Text) :
    trimEnd (s ++ t) = s ++ t.trimEnd := by
  rw [trimEnd, List.reverse_append, ← trimStart, trimStart_append_of_not_isBlank]
  · simp [trimEnd, trimStart]
  · simpa [Text.isBlank] using h

/-- A text that does not start with a blank has nothing to drop there. -/
theorem trimStart_of_head? {t : Text} (h : ∀ c ∈ t.head?, EntityQuery.isBlank c = false) :
    t.trimStart = t := by
  cases t with
  | nil => rfl
  | cons c t => simp [trimStart, h c rfl]

theorem trimEnd_of_getLast? {t : Text} (h : ∀ c ∈ t.getLast?, EntityQuery.isBlank c = false) :
    t.trimEnd = t := by
  rw [trimEnd, ← trimStart, trimStart_of_head?, List.reverse_reverse]
  simpa using h

theorem exists_eq_append_trimStart (t : Text) :
    ∃ s : Text, s.isBlank = true ∧ t = s ++ t.trimStart :=
  ⟨t.takeWhile EntityQuery.isBlank, isBlank_iff.2 fun _ hc => List.mem_takeWhile_imp hc,
    List.takeWhile_append_dropWhile.symm⟩

theorem exists_eq_trimEnd_append (t : Text) :
    ∃ s : Text, s.isBlank = true ∧ t = t.trimEnd ++ s := by
  obtain ⟨s, hs, ht⟩ := exists_eq_append_trimStart t.reverse
  refine ⟨s.reverse, by simpa [isBlank_iff] using isBlank_iff.1 hs, ?_⟩
  have := congrArg List.reverse ht
  rwa [List.reverse_reverse, List.reverse_append] at this

/-- A text that is trimmed at its start does not start with a blank. -/
theorem isBlank_head?_trimStart {t : Text} {c : Char} (h : c ∈ t.trimStart.head?) :
    EntityQuery.isBlank c = false := by
  have := List.head?_dropWhile_not EntityQuery.isBlank t
  rw [trimStart] at h
  simpa [Option.mem_def.1 h] using this

theorem isBlank_getLast?_trimEnd {t : Text} {c : Char} (h : c ∈ t.trimEnd.getLast?) :
    EntityQuery.isBlank c = false := by
  rw [trimEnd, List.getLast?_reverse] at h
  exact isBlank_head?_trimStart h

theorem isBlank_trimStart (t : Text) : t.trimStart.isBlank = t.isBlank := by
  obtain ⟨s, hs, ht⟩ := exists_eq_append_trimStart t
  calc t.trimStart.isBlank = (s ++ t.trimStart).isBlank := by rw [isBlank_append, hs, Bool.true_and]
    _ = t.isBlank := by rw [← ht]

theorem isBlank_trimEnd (t : Text) : t.trimEnd.isBlank = t.isBlank := by
  obtain ⟨s, hs, ht⟩ := exists_eq_trimEnd_append t
  calc t.trimEnd.isBlank = (t.trimEnd ++ s).isBlank := by rw [isBlank_append, hs, Bool.and_true]
    _ = t.isBlank := by rw [← ht]

theorem trim_eq_nil_iff {t : Text} : t.trim = [] ↔ t.isBlank = true := by
  rw [trim, trimEnd_eq_nil_iff, isBlank_trimStart]

theorem isEmpty_trim (t : Text) : t.trim.isEmpty = t.isBlank := by
  rw [Bool.eq_iff_iff, List.isEmpty_iff, trim_eq_nil_iff]

/-- It does not matter which end is trimmed first. -/
theorem trimStart_trimEnd (t : Text) : t.trimEnd.trimStart = t.trim := by
  obtain ⟨s, hs, ht⟩ := exists_eq_append_trimStart t
  cases hblank : t.isBlank with
  | true =>
    have hstart : t.trimStart = [] := trimStart_eq_nil_iff.2 hblank
    rw [trim, hstart, trimStart_eq_nil_iff.2 (by rw [isBlank_trimEnd, hblank])]
    rfl
  | false =>
    have hend : (s ++ t.trimStart).trimEnd = s ++ t.trimStart.trimEnd :=
      trimEnd_append_of_not_isBlank (by rw [isBlank_trimStart, hblank]) s
    rw [← ht] at hend
    rw [hend, trimStart_append_of_isBlank hs, trim]
    refine trimStart_of_head? fun c hc => isBlank_head?_trimStart (t := t) ?_
    obtain ⟨e, -, he⟩ := exists_eq_trimEnd_append t.trimStart
    rw [he]
    cases hd : t.trimStart.trimEnd with
    | nil => simp [hd] at hc
    | cons d r => simpa [hd] using hc

/-- Blanks around a text are trimmed. -/
theorem trim_append_of_isBlank {l r : Text} (hl : l.isBlank = true) (hr : r.isBlank = true)
    (t : Text) : trim (l ++ (t ++ r)) = t.trim := by
  rw [trim, trimStart_append_of_isBlank hl, ← trim, ← trimStart_trimEnd,
    trimEnd_append_of_isBlank hr, trimStart_trimEnd]

theorem exists_eq_append_trim (t : Text) :
    ∃ l r : Text, l.isBlank = true ∧ r.isBlank = true ∧ t = l ++ (t.trim ++ r) := by
  obtain ⟨l, hl, ht⟩ := exists_eq_append_trimStart t
  obtain ⟨r, hr, hstart⟩ := exists_eq_trimEnd_append t.trimStart
  exact ⟨l, r, hl, hr, by rw [trim, ← hstart, ← ht]⟩

theorem trim_trim (t : Text) : t.trim.trim = t.trim := by
  obtain ⟨l, r, hl, hr, ht⟩ := exists_eq_append_trim t
  exact (trim_append_of_isBlank hl hr t.trim).symm.trans (by rw [← ht])

/-- A trimmed text does not start or end with a blank. -/
theorem isBlank_ends_of_trim {t : Text} (h : t.trim = t) :
    (∀ c ∈ t.head?, EntityQuery.isBlank c = false) ∧
      ∀ c ∈ t.getLast?, EntityQuery.isBlank c = false := by
  constructor
  · intro c hc
    rw [← h, ← trimStart_trimEnd] at hc
    exact isBlank_head?_trimStart hc
  · intro c hc
    rw [← h, trim] at hc
    exact isBlank_getLast?_trimEnd hc

theorem trim_of_ends {t : Text} (hhead : ∀ c ∈ t.head?, EntityQuery.isBlank c = false)
    (hlast : ∀ c ∈ t.getLast?, EntityQuery.isBlank c = false) : t.trim = t := by
  rw [trim, trimStart_of_head? hhead, trimEnd_of_getLast? hlast]

/-- What stands between two texts keeps the ends of the texts that it stands at. -/
theorem trim_append_append {s t : Text} (hs : s.isBlank = false) (ht : t.isBlank = false)
    (m : Text) : trim (s.trimEnd ++ m ++ t.trimStart) = s.trim ++ m ++ t.trim := by
  rw [trim, List.append_assoc, trimStart_append_of_not_isBlank (by rw [isBlank_trimEnd, hs]),
    trimStart_trimEnd, ← List.append_assoc,
    trimEnd_append_of_not_isBlank (by rw [isBlank_trimStart, ht]), ← trim]

/-- A text that does not end with a blank. -/
def IsTight (t : Text) : Prop :=
  ∀ c ∈ t.getLast?, EntityQuery.isBlank c = false

theorem IsTight.of_suffix {s t : Text} (ht : t.IsTight) (h : s <:+ t) : s.IsTight := by
  obtain ⟨before, rfl⟩ := h
  intro c hc
  exact ht c (by simp [List.getLast?_append, Option.mem_def.1 hc])

theorem IsTight.isBlank_eq_false {t : Text} (ht : t.IsTight) (hne : t ≠ []) :
    t.isBlank = false := by
  by_contra hblank
  have hall := isBlank_iff.1 (by simpa using hblank)
  have hlast := ht _ (List.getLast?_eq_some_getLast hne)
  rw [hall _ (List.getLast_mem hne)] at hlast
  cases hlast

/-! ## Words -/

/-- The runs of characters of a text between separators. -/
def parts (separates : Char → Bool) (t : Text) : List Text :=
  (t.splitOnP separates).filter (!·.isEmpty)

theorem words_eq_parts (t : Text) : t.words = t.parts EntityQuery.isBlank := rfl

variable {separates : Char → Bool}

/-- What stands between separators are characters of the text that are none. -/
theorem forall_of_mem_splitOnP {t w : Text} (h : w ∈ t.splitOnP separates) :
    (∀ c ∈ w, separates c = false) ∧ w ⊆ t := by
  induction t generalizing w with
  | nil => simp_all [List.splitOnP_nil]
  | cons c t ih =>
    rw [List.splitOnP_cons_eq_if_modifyHead] at h
    split at h
    · obtain rfl | h := List.mem_cons.1 h
      · simp
      · exact (ih h).imp_right (List.subset_cons_of_subset c)
    · next hc =>
      obtain ⟨piece, pieces, hsplit⟩ :=
        List.exists_cons_of_ne_nil (List.splitOnP_ne_nil separates t)
      rw [hsplit] at h ih
      obtain rfl | h := List.mem_cons.1 h
      · obtain ⟨hpiece, hsub⟩ := ih (.head _)
        exact ⟨List.forall_mem_cons.2 ⟨by simpa using hc, hpiece⟩, List.cons_subset_cons c hsub⟩
      · exact (ih (.tail _ h)).imp_right (List.subset_cons_of_subset c)

theorem notMem_of_mem_pieces {x : Char} {t w : Text} (h : w ∈ t.pieces x) : x ∉ w := fun hx => by
  simpa using (forall_of_mem_splitOnP h).1 x hx

theorem forall_of_mem_words {t w : Text} (h : w ∈ t.words) :
    w ≠ [] ∧ (∀ c ∈ w, EntityQuery.isBlank c = false) ∧ w ⊆ t := by
  obtain ⟨hmem, hne⟩ := List.mem_filter.1 h
  exact ⟨by simpa using hne, forall_of_mem_splitOnP hmem⟩

/-- A separator cuts a text in two. -/
theorem parts_append_cons {c : Char} (hc : separates c = true) (s t : Text) :
    parts separates (s ++ c :: t) = parts separates s ++ parts separates t := by
  rw [parts, List.splitOnP_append_cons s t hc, List.filter_append]
  rfl

/-- Separators at the start of a text belong to no part. -/
theorem parts_append_of_separators {g : Text} (hg : ∀ c ∈ g, separates c = true) (t : Text) :
    parts separates (g ++ t) = parts separates t := by
  induction g with
  | nil => rfl
  | cons c g ih =>
    obtain ⟨hc, hg⟩ := List.forall_mem_cons.1 hg
    have hcut := parts_append_cons hc [] (g ++ t)
    rw [List.nil_append] at hcut
    rw [List.cons_append, hcut, ih hg]
    rfl

theorem parts_eq_singleton {t : Text} (hne : t ≠ []) (h : ∀ c ∈ t, separates c = false) :
    parts separates t = [t] := by
  rw [parts, List.splitOnP_eq_singleton h]
  simpa using hne

/-- Separators between two texts belong to no part. -/
theorem parts_append {g : Text} (hne : g ≠ []) (hg : ∀ c ∈ g, separates c = true) (s t : Text) :
    parts separates (s ++ g ++ t) = parts separates s ++ parts separates t := by
  cases g with
  | nil => exact absurd rfl hne
  | cons c g =>
    obtain ⟨hc, hg⟩ := List.forall_mem_cons.1 hg
    rw [List.append_assoc, List.cons_append, parts_append_cons hc, parts_append_of_separators hg]

theorem words_append {g : Text} (hg : g.IsGap) (s t : Text) :
    words (s ++ g ++ t) = words s ++ words t :=
  parts_append hg.1 (isBlank_iff.1 hg.2) s t

theorem parts_congr {cuts : Char → Bool} {t : Text} (h : ∀ c ∈ t, separates c = cuts c) :
    parts separates t = parts cuts t := by
  suffices hsplit : t.splitOnP separates = t.splitOnP cuts by rw [parts, parts, hsplit]
  induction t with
  | nil => rfl
  | cons c t ih =>
    obtain ⟨hc, ht⟩ := List.forall_mem_cons.1 h
    rw [List.splitOnP_cons_eq_if_modifyHead, List.splitOnP_cons_eq_if_modifyHead, hc, ih ht]

/-- Separators around a text belong to no part. -/
theorem parts_append_append {l r : Text} (hl : ∀ c ∈ l, separates c = true)
    (hr : ∀ c ∈ r, separates c = true) (t : Text) :
    parts separates (l ++ (t ++ r)) = parts separates t := by
  rw [parts_append_of_separators hl]
  by_cases hne : r = []
  · rw [hne, List.append_nil]
  · have h := parts_append hne hr t []
    rwa [List.append_nil, show parts separates [] = [] from rfl, List.append_nil] at h

theorem words_trim (t : Text) : t.trim.words = t.words := by
  obtain ⟨l, r, hl, hr, ht⟩ := exists_eq_append_trim t
  have h := parts_append_append (isBlank_iff.1 hl) (isBlank_iff.1 hr) t.trim
  rw [← ht] at h
  exact h.symm

/-- A part without the characters of a second kind of separators is a part also if the text is cut
    there. -/
theorem mem_parts_of_mem_parts {cuts : Char → Bool}
    (hcuts : ∀ c, separates c = true → cuts c = true) {w t : Text} (hw : ∀ c ∈ w, cuts c = false)
    (h : w ∈ parts separates t) : w ∈ parts cuts t := by
  induction hn : t.length using Nat.strong_induction_on generalizing t with
  | h n ih =>
    by_cases hsep : ∃ c ∈ t, separates c = true
    · obtain ⟨c, hmem, hc⟩ := hsep
      obtain ⟨before, after, rfl⟩ := List.append_of_mem hmem
      rw [List.length_append, List.length_cons] at hn
      rw [parts_append_cons hc, List.mem_append] at h
      rw [parts_append_cons (hcuts c hc), List.mem_append]
      exact h.imp (fun h => ih _ (by omega) h rfl) (fun h => ih _ (by omega) h rfl)
    · have hnone : ∀ c ∈ t, separates c = false := by simpa using hsep
      have hne : t ≠ [] := by
        rintro rfl
        cases h
      rw [parts_eq_singleton hne hnone, List.mem_singleton] at h
      subst h
      rw [parts_eq_singleton hne hw]
      exact List.mem_singleton_self w

/-! ## Collapsing -/

/-- Whether a text ends with a blank; an empty one does if what comes before it does. -/
def endsBlank (afterBlank : Bool) (t : Text) : Bool :=
  t.getLast?.elim afterBlank EntityQuery.isBlank

theorem collapseFrom_append (afterBlank : Bool) (s t : Text) :
    collapseFrom afterBlank (s ++ t) =
      collapseFrom afterBlank s ++ collapseFrom (endsBlank afterBlank s) t := by
  induction s generalizing afterBlank with
  | nil => rfl
  | cons c s ih =>
    have hlast : endsBlank afterBlank (c :: s) = endsBlank (EntityQuery.isBlank c) s := by
      cases s <;> simp [endsBlank, List.getLast?_cons]
    rw [hlast]
    cases hc : EntityQuery.isBlank c <;> cases afterBlank <;> simp [collapseFrom, hc, ih]

/-- Where there are no blanks, nothing is collapsed. -/
theorem collapseFrom_of_forall {t : Text} (h : ∀ c ∈ t, EntityQuery.isBlank c = false)
    (afterBlank : Bool) : collapseFrom afterBlank t = t := by
  induction t generalizing afterBlank with
  | nil => rfl
  | cons c t ih =>
    obtain ⟨hc, ht⟩ := List.forall_mem_cons.1 h
    simp [collapseFrom, hc, ih ht]

theorem collapseFrom_of_isBlank {t : Text} (h : t.isBlank = true) :
    collapseFrom true t = [] := by
  induction t with
  | nil => rfl
  | cons c t ih =>
    obtain ⟨hc, ht⟩ := List.forall_mem_cons.1 (isBlank_iff.1 h)
    simp [collapseFrom, hc, ih (isBlank_iff.2 ht)]

/-- Blanks after a text that does not end with one become one space. -/
theorem collapseFrom_of_isGap {g : Text} (h : g.IsGap) : collapseFrom false g = [' '] := by
  obtain ⟨hne, hblank⟩ := h
  cases g with
  | nil => exact absurd rfl hne
  | cons c g =>
    obtain ⟨hc, hg⟩ := List.forall_mem_cons.1 (isBlank_iff.1 hblank)
    simp [collapseFrom, hc, collapseFrom_of_isBlank (isBlank_iff.2 hg)]

@[simp] theorem isBlank_collapseFrom (afterBlank : Bool) (t : Text) :
    (collapseFrom afterBlank t).isBlank = t.isBlank := by
  induction t generalizing afterBlank with
  | nil => rfl
  | cons c t ih =>
    rw [collapseFrom]
    split
    · next hc => cases afterBlank <;> simp [ih, hc, show EntityQuery.isBlank ' ' = true from rfl]
    · next hc => simp [hc]

/-- A text that does not start with a blank is collapsed alike after a blank. -/
theorem collapseFrom_of_head? {t : Text} (h : ∀ c ∈ t.head?, EntityQuery.isBlank c = false)
    (afterBlank : Bool) : collapseFrom afterBlank t = t.collapse := by
  cases t with
  | nil => rfl
  | cons c t => simp [collapse, collapseFrom, h c rfl]

theorem getLast?_collapse_trimEnd {t : Text} {c : Char} (h : c ∈ t.trimEnd.collapse.getLast?) :
    EntityQuery.isBlank c = false := by
  obtain hnil | ⟨s, d, hs⟩ := List.eq_nil_or_concat t.trimEnd
  · rw [hnil] at h
    cases h
  · have hd : EntityQuery.isBlank d = false := isBlank_getLast?_trimEnd (t := t) (by simp [hs])
    rw [hs, List.concat_eq_append, collapse, collapseFrom_append] at h
    have hlast : c = d := by simpa [collapseFrom, hd, eq_comm] using h
    rw [hlast, hd]

theorem trimEnd_collapse (t : Text) : t.collapse.trimEnd = t.trimEnd.collapse := by
  obtain ⟨s, hs, ht⟩ := exists_eq_trimEnd_append t
  calc t.collapse.trimEnd = (t.trimEnd ++ s).collapse.trimEnd := by rw [← ht]
    _ = t.trimEnd.collapse.trimEnd := by
      rw [collapse, collapseFrom_append,
        trimEnd_append_of_isBlank (by rw [isBlank_collapseFrom, hs]), ← collapse]
    _ = t.trimEnd.collapse := trimEnd_of_getLast? fun c hc => getLast?_collapse_trimEnd hc

/-- Blanks after a text, whatever it ends with, become one space. -/
theorem collapse_append_gap {g : Text} (hg : g.IsGap) (s t : Text) :
    collapse (s ++ g ++ t) = s.trimEnd.collapse ++ ' ' :: collapseFrom true t := by
  obtain ⟨b, hb, hs⟩ := exists_eq_trimEnd_append s
  have hgap : (b ++ g).IsGap := ⟨by simp [hg.1], by simp [hb, hg.2]⟩
  have hlast : endsBlank false s.trimEnd = false := by
    cases hl : s.trimEnd.getLast? with
    | none => simp [endsBlank, hl]
    | some c => simpa [endsBlank, hl] using isBlank_getLast?_trimEnd hl
  have hends : endsBlank false (b ++ g) = true := by
    obtain ⟨c, hc⟩ := Option.ne_none_iff_exists'.1 (mt List.getLast?_eq_none_iff.1 hgap.1)
    rw [endsBlank, hc]
    exact isBlank_iff.1 hgap.2 c (List.mem_of_getLast? hc)
  calc collapse (s ++ g ++ t) = collapse (s.trimEnd ++ ((b ++ g) ++ t)) := by
        simp only [← List.append_assoc, ← hs]
    _ = s.trimEnd.collapse ++ ' ' :: collapseFrom true t := by
        rw [collapse, collapseFrom_append, hlast, collapseFrom_append, hends,
          collapseFrom_of_isGap hgap]
        rfl

/-- Blanks before a text, whatever it starts with, become one space. -/
theorem collapseFrom_gap_append {g : Text} (hg : g.IsGap) (t : Text) :
    collapseFrom false (g ++ t) = ' ' :: t.trimStart.collapse := by
  obtain ⟨b, hb, ht⟩ := exists_eq_append_trimStart t
  have h := collapse_append_gap (g := g ++ b) ⟨by simp [hg.1], by simp [hb, hg.2]⟩ [] t.trimStart
  rw [collapseFrom_of_head? (fun c hc => isBlank_head?_trimStart hc)] at h
  simpa [collapse, ← ht, trimEnd, collapseFrom] using h

theorem trimStart_collapse (t : Text) : t.collapse.trimStart = t.trimStart.collapse := by
  have hstart : t.trimStart.collapse.trimStart = t.trimStart.collapse := by
    refine trimStart_of_head? fun c hc => ?_
    cases ht : t.trimStart with
    | nil => rw [ht] at hc; cases hc
    | cons d r =>
      have hd : EntityQuery.isBlank d = false := isBlank_head?_trimStart (t := t) (by simp [ht])
      rw [ht, collapse, collapseFrom] at hc
      simp only [hd] at hc
      cases hc
      exact hd
  obtain ⟨b, hb, ht⟩ := exists_eq_append_trimStart t
  by_cases hne : b = []
  · rw [hne, List.nil_append] at ht
    rw [← ht, ht, hstart]
  · have h := collapseFrom_gap_append ⟨hne, hb⟩ t.trimStart
    rw [← ht, trimStart_of_head? (fun c hc => isBlank_head?_trimStart hc)] at h
    rw [collapse, h]
    exact hstart

end Text

end EntityQuery
