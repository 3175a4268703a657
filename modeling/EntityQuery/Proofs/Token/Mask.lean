-- SUMMARY: Masking blanks the bytes between the quotes of terminated literals and keeps every other byte where it is.
import EntityQuery.Proofs.Skeleton.Outline
import EntityQuery.Proofs.Text.Slice

/-!
# Masks byte by byte

A mask has as many bytes as its text. The bytes strictly between the quotes of
a terminated literal are blanked, and every other byte is kept where it is. So
outside of literals the two texts have the same boundaries between characters,
also where a character of several bytes is blanked to as many characters.

What a mask is can be said of any two texts, without the lexer. It holds of a
text put together from parts whose quotes are closed if it holds of the parts.
-/

namespace EntityQuery

open Skeleton

namespace Text

variable {s t before after content : Text} {k : Nat}

/-! ## Bytes and boundaries -/

/-- The bytes of a text in UTF-8. -/
def utf8 (t : Text) : List UInt8 :=
  t.flatMap String.utf8EncodeChar

@[simp] theorem utf8_cons (c : Char) (t : Text) :
    utf8 (c :: t) = String.utf8EncodeChar c ++ t.utf8 := rfl

@[simp] theorem utf8_append (s t : Text) : utf8 (s ++ t) = s.utf8 ++ t.utf8 :=
  List.flatMap_append

@[simp] theorem length_utf8 (t : Text) : t.utf8.length = t.byteSize := by
  induction t with
  | nil => rfl
  | cons c t ih =>
    rw [utf8_cons, List.length_append, String.length_utf8EncodeChar, ih, byteSize_cons]

theorem byteSize_replicate_blank (n : Nat) : byteSize (List.replicate n '_') = n := by
  rw [byteSize_replicate, show '_'.utf8Size = 1 from rfl, Nat.mul_one]

theorem byteSize_cons_blank (content : Text) :
    byteSize ('\'' :: List.replicate content.byteSize '_') = byteSize ('\'' :: content) := by
  rw [byteSize_cons, byteSize_cons, byteSize_replicate_blank]

theorem utf8_replicate_blank (n : Nat) :
    utf8 (List.replicate n '_') = List.replicate n '_'.toUInt8 := by
  induction n with
  | zero => rfl
  | succ n ih => rw [List.replicate_succ, utf8_cons, ih]; rfl

/-- An offset is in a text, or it is an offset of what follows the text. -/
theorem lt_or_exists_eq_add (s : Text) (k : Nat) :
    k < s.byteSize ∨ ∃ j, k = s.byteSize + j :=
  (Nat.lt_or_ge k s.byteSize).imp_right Nat.exists_eq_add_of_le

theorem getElem?_utf8_append_left (h : k < s.byteSize) (t : Text) :
    (utf8 (s ++ t))[k]? = s.utf8[k]? := by
  rw [utf8_append, List.getElem?_append_left (by rwa [length_utf8])]

theorem getElem?_utf8_append_right (s t : Text) (k : Nat) :
    (utf8 (s ++ t))[s.byteSize + k]? = t.utf8[k]? := by
  rw [utf8_append, List.getElem?_append_right (by rw [length_utf8]; omega), length_utf8,
    Nat.add_sub_cancel_left]

theorem isBoundary_append_left (h : k ≤ s.byteSize) : IsBoundary (s ++ t) k ↔ s.IsBoundary k := by
  constructor
  · rintro ⟨before, after, heq, rfl⟩
    obtain ⟨part, rfl, -⟩ := exists_of_byteSize_le heq.symm h
    exact ⟨before, part, rfl, rfl⟩
  · rintro ⟨before, after, rfl, rfl⟩
    exact ⟨before, after ++ t, List.append_assoc _ _ _, rfl⟩

theorem isBoundary_append_right : IsBoundary (s ++ t) (s.byteSize + k) ↔ t.IsBoundary k := by
  constructor
  · rintro ⟨before, after, heq, hsize⟩
    obtain ⟨part, rfl, rfl⟩ := exists_of_byteSize_le heq (by omega)
    rw [byteSize_append] at hsize
    exact ⟨part, after, rfl, by omega⟩
  · rintro ⟨before, after, rfl, rfl⟩
    exact ⟨s ++ before, after, by rw [List.append_assoc], byteSize_append _ _⟩

/-! ## Between quotes -/

/-- Whether the byte at an offset stands strictly between the quotes of a terminated literal, where
    quotes are paired from the left: those before the literal are closed, and the next quote after
    the one that opens the literal closes it. This is said of bytes, and `Text.InsideLiteral` of
    places to cut at, so the place before the closing quote is one of the latter only. -/
def BetweenQuotes (t : Text) (offset : Nat) : Prop :=
  ∃ before content after : Text, t = before ++ (content.quoted ++ after) ∧ before.QuotesClosed ∧
    '\'' ∉ content ∧ before.byteSize < offset ∧ offset < before.byteSize + content.byteSize + 1

theorem BetweenQuotes.bounds (h : t.BetweenQuotes k) : 0 < k ∧ k + 1 < t.byteSize := by
  obtain ⟨before, content, after, rfl, -, -, hleft, hright⟩ := h
  simp only [byteSize_append, byteSize_quoted]
  omega

theorem BetweenQuotes.two_le_count (h : t.BetweenQuotes k) : 2 ≤ t.count '\'' := by
  obtain ⟨before, content, after, rfl, -⟩ := h
  simp only [quoted, List.count_append, List.count_cons_self]
  omega

/-- A literal is on one side of every place where all quotes before are closed. -/
theorem QuotesClosed.append_cases (hs : s.QuotesClosed) (hbefore : before.QuotesClosed)
    (hcontent : '\'' ∉ content) (h : s ++ t = before ++ (content.quoted ++ after)) :
    (∃ part, before = s ++ part ∧ t = part ++ (content.quoted ++ after)) ∨
      ∃ part, s = before ++ (content.quoted ++ part) ∧ after = part ++ t := by
  by_cases hleft : s.byteSize ≤ before.byteSize
  · exact .inl (exists_of_byteSize_le h hleft)
  by_cases hright : before.byteSize + content.quoted.byteSize ≤ s.byteSize
  · have hwhole : (before ++ content.quoted) ++ after = s ++ t := by rw [h, List.append_assoc]
    obtain ⟨part, rfl, hafter⟩ := exists_of_byteSize_le hwhole (by rwa [byteSize_append])
    exact .inr ⟨part, List.append_assoc _ _ _, hafter⟩
  · -- Inside of the literal the quote that opens it would not be closed yet.
    obtain ⟨left, right, rfl, -, rfl⟩ := exists_of_cut_literal h (by omega) (by omega)
    have hquote : '\'' ∉ left := fun hmem => hcontent (List.mem_append_left _ hmem)
    exact absurd hbefore ((quotesClosed_append_cons_iff hquote).1 hs)

theorem betweenQuotes_append_left (hs : s.QuotesClosed) (hk : k < s.byteSize) :
    BetweenQuotes (s ++ t) k ↔ s.BetweenQuotes k := by
  constructor
  · rintro ⟨before, content, after, heq, hbefore, hcontent, hleft, hright⟩
    obtain ⟨part, rfl, -⟩ | ⟨part, rfl, -⟩ := hs.append_cases hbefore hcontent heq
    · rw [byteSize_append] at hleft
      omega
    · exact ⟨before, content, part, rfl, hbefore, hcontent, hleft, hright⟩
  · rintro ⟨before, content, after, rfl, h⟩
    exact ⟨before, content, after ++ t, by simp only [List.append_assoc], h⟩

theorem betweenQuotes_append_right (hs : s.QuotesClosed) :
    BetweenQuotes (s ++ t) (s.byteSize + k) ↔ t.BetweenQuotes k := by
  constructor
  · rintro ⟨before, content, after, heq, hbefore, hcontent, hleft, hright⟩
    obtain ⟨part, rfl, rfl⟩ | ⟨part, rfl, -⟩ := hs.append_cases hbefore hcontent heq
    · rw [byteSize_append] at hleft hright
      exact ⟨part, content, after, rfl, hbefore.of_append_left hs, hcontent, by omega, by omega⟩
    · simp only [byteSize_append, byteSize_quoted] at hright
      omega
  · rintro ⟨before, content, after, rfl, hbefore, hcontent, hleft, hright⟩
    refine ⟨s ++ before, content, after, by rw [List.append_assoc], hs.append hbefore, hcontent, ?_⟩
    rw [byteSize_append]
    omega

/-- A text with fewer than two quotes has no terminated literal. -/
theorem not_betweenQuotes (h : t.count '\'' < 2) : ¬ t.BetweenQuotes k := by
  intro hk
  have := hk.two_le_count
  omega

theorem betweenQuotes_quoted (h : '\'' ∉ content) :
    content.quoted.BetweenQuotes k ↔ 0 < k ∧ k < content.byteSize + 1 := by
  constructor
  · intro hk
    have hbounds := hk.bounds
    rw [byteSize_quoted] at hbounds
    omega
  · rintro ⟨hleft, hright⟩
    exact ⟨[], content, [], by simp, quotesClosed_of_notMem List.not_mem_nil, h, hleft,
      by rwa [byteSize_nil, Nat.zero_add]⟩

/-- A byte of a literal that is not between the quotes is the first one, or it is not before the
    last one. -/
theorem cases_of_not_betweenQuotes_quoted (h : '\'' ∉ content)
    (hk : ¬ content.quoted.BetweenQuotes k) :
    k < byteSize ['\''] ∨ ∃ j, k = byteSize ('\'' :: content) + j := by
  rw [betweenQuotes_quoted h] at hk
  rw [byteSize_cons, byteSize_cons, byteSize_nil, show '\''.utf8Size = 1 from rfl]
  obtain rfl | hpos := Nat.eq_zero_or_pos k
  · exact .inl Nat.one_pos
  · exact .inr (Nat.exists_eq_add_of_le (by omega))

/-- From a quote on that no other quote follows no byte is between the quotes of a literal. -/
theorem not_betweenQuotes_unterminated (hbefore : before.QuotesClosed) (hcontent : '\'' ∉ content)
    (hk : before.byteSize ≤ k) : ¬ BetweenQuotes (before ++ '\'' :: content) k := by
  obtain ⟨j, rfl⟩ := Nat.exists_eq_add_of_le hk
  rw [betweenQuotes_append_right hbefore]
  exact not_betweenQuotes (by simp [List.count_eq_zero.2 hcontent])

/-! ## Masks -/

/-- Whether a text is what is left of another one when the bytes between the quotes of its
    terminated literals are blanked. -/
structure IsMask (masked t : Text) : Prop where
  byteSize_eq : masked.byteSize = t.byteSize
  blanked : ∀ k, t.BetweenQuotes k → masked.utf8[k]? = some '_'.toUInt8
  kept : ∀ k, ¬ t.BetweenQuotes k → masked.utf8[k]? = t.utf8[k]?
  isBoundary_iff : ∀ k, ¬ t.BetweenQuotes k → (masked.IsBoundary k ↔ t.IsBoundary k)

namespace IsMask

/-- Where nothing is between quotes, a text is kept. -/
theorem refl (h : t.count '\'' < 2) : IsMask t t where
  byteSize_eq := rfl
  blanked := fun _ hk => absurd hk (not_betweenQuotes h)
  kept := fun _ _ => rfl
  isBoundary_iff := fun _ _ => Iff.rfl

/-- A text that is put together from two is masked part by part, if the quotes of the first part are
    closed. -/
theorem append {u v : Text} (hs : s.QuotesClosed) (hu : IsMask u s) (hv : IsMask v t) :
    IsMask (u ++ v) (s ++ t) where
  byteSize_eq := by rw [byteSize_append, byteSize_append, hu.byteSize_eq, hv.byteSize_eq]
  blanked := by
    intro k hk
    obtain hlt | ⟨j, rfl⟩ := lt_or_exists_eq_add s k
    · rw [betweenQuotes_append_left hs hlt] at hk
      rw [getElem?_utf8_append_left (hu.byteSize_eq ▸ hlt), hu.blanked k hk]
    · rw [betweenQuotes_append_right hs] at hk
      rw [← hu.byteSize_eq, getElem?_utf8_append_right, hv.blanked j hk]
  kept := by
    intro k hk
    obtain hlt | ⟨j, rfl⟩ := lt_or_exists_eq_add s k
    · rw [betweenQuotes_append_left hs hlt] at hk
      rw [getElem?_utf8_append_left (hu.byteSize_eq ▸ hlt), getElem?_utf8_append_left hlt,
        hu.kept k hk]
    · rw [betweenQuotes_append_right hs] at hk
      rw [getElem?_utf8_append_right, ← hu.byteSize_eq, getElem?_utf8_append_right, hv.kept j hk]
  isBoundary_iff := by
    intro k hk
    obtain hlt | ⟨j, rfl⟩ := lt_or_exists_eq_add s k
    · rw [betweenQuotes_append_left hs hlt] at hk
      rw [isBoundary_append_left (hu.byteSize_eq ▸ hlt.le), isBoundary_append_left hlt.le,
        hu.isBoundary_iff k hk]
    · rw [betweenQuotes_append_right hs] at hk
      rw [isBoundary_append_right, ← hu.byteSize_eq, isBoundary_append_right,
        hv.isBoundary_iff j hk]

/-- A literal is masked by as many blanks as it has bytes between its quotes. -/
theorem quoted (h : '\'' ∉ content) :
    IsMask (Text.quoted (List.replicate content.byteSize '_')) content.quoted where
  byteSize_eq := by rw [byteSize_quoted, byteSize_quoted, byteSize_replicate_blank]
  blanked := by
    intro k hk
    obtain ⟨hleft, hright⟩ := (betweenQuotes_quoted h).1 hk
    obtain ⟨j, rfl⟩ : ∃ j, k = byteSize ['\''] + j := Nat.exists_eq_add_of_le hleft
    have hj : j < content.byteSize := by
      rw [byteSize_cons, byteSize_nil, show '\''.utf8Size = 1 from rfl] at hright
      omega
    have hblank : (utf8 (List.replicate content.byteSize '_' ++ ['\'']))[j]? =
        some '_'.toUInt8 := by
      rw [getElem?_utf8_append_left (by rwa [byteSize_replicate_blank]), utf8_replicate_blank,
        List.getElem?_replicate_of_lt hj]
    exact (getElem?_utf8_append_right ['\''] _ j).trans hblank
  kept := by
    intro k hk
    obtain hfirst | ⟨j, rfl⟩ := cases_of_not_betweenQuotes_quoted h hk
    · exact (getElem?_utf8_append_left hfirst _).trans (getElem?_utf8_append_left hfirst _).symm
    · rw [Text.quoted, Text.quoted, getElem?_utf8_append_right, ← byteSize_cons_blank,
        getElem?_utf8_append_right]
  isBoundary_iff := by
    intro k hk
    obtain hfirst | ⟨j, rfl⟩ := cases_of_not_betweenQuotes_quoted h hk
    · exact (isBoundary_append_left hfirst.le).trans (isBoundary_append_left hfirst.le).symm
    · rw [Text.quoted, Text.quoted, isBoundary_append_right, ← byteSize_cons_blank,
        isBoundary_append_right]

end IsMask

end Text

/-! ## The mask of a text -/

namespace Slot

variable {ι : Type}

/-- A place with the content of a literal blanked. -/
def blanked : Slot ι → Slot ι
  | char c => char c
  | literal content => literal fun i => List.replicate (content i).byteSize '_'

theorem source_blanked (i : ι) (slot : Slot ι) : slot.blanked.source i = slot.masked i := by
  cases slot <;> rfl

theorem masked_blanked (i : ι) (slot : Slot ι) : slot.blanked.masked i = slot.masked i := by
  cases slot with
  | char c => rfl
  | literal content =>
    simp [blanked, masked, Text.byteSize_replicate_blank]

theorem Proper.blanked {slot : Slot ι} (h : slot.Proper) : slot.blanked.Proper := by
  cases slot with
  | char c => exact h
  | literal content =>
    intro i hmem
    exact absurd (List.eq_of_mem_replicate hmem) (by decide)

theorem isMask {slot : Slot ι} (h : slot.Proper) (i : ι) :
    (slot.masked i).IsMask (slot.source i) := by
  cases slot with
  | char c =>
    have hc : c ≠ '\'' := h
    exact .refl (by simp [masked, hc])
  | literal content => exact .quoted (h i)

end Slot

namespace Skeleton

variable {ι : Type} {s : Skeleton ι}

/-- The masks of the texts of a skeleton are texts of a skeleton themselves, and are kept. -/
theorem text_map_blanked (i : ι) (s : Skeleton ι) :
    text i (s.map Slot.blanked) = masked i s ∧ masked i (s.map Slot.blanked) = masked i s := by
  induction s with
  | nil => exact ⟨rfl, rfl⟩
  | cons slot s ih => simp [ih, slot.source_blanked i, slot.masked_blanked i]

theorem Proper.map_blanked (h : s.Proper) : Proper (s.map Slot.blanked) := by
  intro slot hslot
  obtain ⟨slot, hmem, rfl⟩ := List.mem_map.1 hslot
  exact (h slot hmem).blanked

theorem isMask_masked (h : s.Proper) (i : ι) : (masked i s).IsMask (text i s) := by
  induction s with
  | nil => exact .refl (by simp)
  | cons slot s ih =>
    obtain ⟨hslot, hs⟩ := List.forall_mem_cons.1 h
    exact (Slot.isMask hslot i).append (Slot.quotesClosed_source hslot i) (ih hs)

theorem mask_masked (h : s.Proper) (i : ι) : mask (masked i s) = masked i s := by
  obtain ⟨htext, hmasked⟩ := text_map_blanked i s
  rw [← htext, mask_text h.map_blanked, hmasked, htext]

end Skeleton

theorem isMask_mask (t : Text) : (mask t).IsMask t := by
  obtain ⟨s, hs, rfl⟩ | ⟨s, content, hs, hcontent, rfl⟩ := outline_cases t
  · rw [mask_text hs]
    exact isMask_masked hs ()
  · rw [mask_unterminated hs hcontent]
    exact (isMask_masked hs ()).append (quotesClosed_text hs ())
      (.refl (by simp [List.count_eq_zero.2 hcontent]))

/-- A mask is its own mask. -/
theorem mask_mask (t : Text) : mask (mask t) = mask t := by
  obtain ⟨s, hs, rfl⟩ | ⟨s, content, hs, hcontent, rfl⟩ := outline_cases t
  · rw [mask_text hs, mask_masked hs]
  · obtain ⟨htext, hmasked⟩ := text_map_blanked () s
    have hmore := mask_unterminated hs.map_blanked hcontent
    rw [htext, hmasked] at hmore
    rw [mask_unterminated hs hcontent, hmore]

/-- A mask has as many bytes as its text. The bytes strictly between the quotes of a terminated
    literal are blanked and all others are kept, also all of those from a quote on that no other
    quote follows. So the two texts have the same boundaries but for those between quotes, and a
    mask is its own mask. -/
theorem mask_blanks_literals (t : Text) :
    (mask t).utf8.length = t.utf8.length ∧
    (∀ k, t.BetweenQuotes k → (mask t).utf8[k]? = some '_'.toUInt8) ∧
    (∀ k, ¬ t.BetweenQuotes k → (mask t).utf8[k]? = t.utf8[k]?) ∧
    (∀ before content : Text, t = before ++ '\'' :: content → before.QuotesClosed →
      '\'' ∉ content → ∀ k, before.byteSize ≤ k → ¬ t.BetweenQuotes k) ∧
    (∀ k, ¬ t.BetweenQuotes k → ((mask t).IsBoundary k ↔ t.IsBoundary k)) ∧
    mask (mask t) = mask t := by
  obtain ⟨hsize, hblanked, hkept, hboundary⟩ := isMask_mask t
  refine ⟨by rw [Text.length_utf8, Text.length_utf8, hsize], hblanked, hkept, ?_, hboundary,
    mask_mask t⟩
  rintro before content rfl hbefore hcontent k hk
  exact Text.not_betweenQuotes_unterminated hbefore hcontent hk

/-- A byte inside of a character of two bytes: it is blanked in a literal, and kept after a quote
    that no other quote follows. -/
theorem mask_blanks_literals_of_wide_characters :
    let t : Text := "é'xü',''y'ü".toList
    t.BetweenQuotes 5 ∧ (mask t).utf8[5]? = some '_'.toUInt8 ∧
      ¬ t.BetweenQuotes 13 ∧ (mask t).utf8[13]? = t.utf8[13]? ∧
      ((mask t).IsBoundary 13 ↔ t.IsBoundary 13) := by
  intro t
  obtain ⟨-, hblanked, hkept, htail, hboundary, -⟩ := mask_blanks_literals t
  have hinside : t.BetweenQuotes 5 :=
    ⟨"é".toList, "xü".toList, ",''y'ü".toList, by decide, by decide, by decide, by decide,
      by decide⟩
  have houtside : ¬ t.BetweenQuotes 13 :=
    htail "é'xü',''y".toList "ü".toList (by decide) (by decide) (by decide) 13 (by decide)
  exact ⟨hinside, hblanked 5 hinside, houtside, hkept 13 houtside, hboundary 13 houtside⟩

end EntityQuery
