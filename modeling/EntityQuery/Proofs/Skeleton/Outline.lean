-- SUMMARY: Every text has an outline, and no place between the slots of an outline is inside of a literal.
import EntityQuery.Proofs.Skeleton.Closed

/-!
# Outlines of all texts

A text whose quotes are not closed has a last quote that opens a literal and
that no other quote follows. The text is masked up to that quote, and from
there on every character stands for itself. So every text has an outline with
the same mask. What is cut between two slots of the outline is cut neither
inside of a character nor inside of a literal.
-/

namespace EntityQuery

open Skeleton

/-! ## The last quote -/

/-- A text whose quotes are not closed, cut at the quote that is left open. -/
theorem Text.exists_unterminated {t : Text} (h : ¬ t.QuotesClosed) :
    ∃ before content, t = before ++ '\'' :: content ∧ before.QuotesClosed ∧ '\'' ∉ content := by
  have hmem : '\'' ∈ t.reverse := by
    by_contra hmem
    exact h (Text.quotesClosed_of_notMem (by simpa using hmem))
  obtain ⟨content, before, hreverse, hcontent⟩ := List.eq_append_cons_of_mem hmem
  have ht : t = before.reverse ++ '\'' :: content.reverse := by
    rw [← List.reverse_reverse t, hreverse]
    simp
  have hcontent : '\'' ∉ content.reverse := by simpa using hcontent
  rw [ht, quotesClosed_append_cons_iff hcontent, not_not] at h
  exact ⟨before.reverse, content.reverse, ht, h, hcontent⟩

/-- A text has an outline, or it has one up to a quote that no other quote follows. -/
theorem Skeleton.outline_cases (t : Text) :
    (∃ s : Outline, s.Proper ∧ text () s = t) ∨
      ∃ (s : Outline) (content : Text), s.Proper ∧ '\'' ∉ content ∧
        text () s ++ '\'' :: content = t := by
  by_cases h : t.QuotesClosed
  · exact .inl (exists_outline h)
  · obtain ⟨before, content, rfl, hbefore, hcontent⟩ := Text.exists_unterminated h
    obtain ⟨s, hs, rfl⟩ := exists_outline hbefore
    exact .inr ⟨s, content, hs, hcontent, rfl⟩

theorem Slot.quotesClosed_source {ι : Type} {slot : Slot ι} (h : slot.Proper) (i : ι) :
    (slot.source i).QuotesClosed := by
  cases slot with
  | char c => exact Text.quotesClosed_of_notMem (by simpa [source] using Ne.symm h)
  | literal content => exact Text.quotesClosed_quoted (h i)

theorem Skeleton.quotesClosed_text {ι : Type} {s : Skeleton ι} (h : s.Proper) (i : ι) :
    (text i s).QuotesClosed := by
  induction s with
  | nil => exact Text.quotesClosed_of_notMem List.not_mem_nil
  | cons slot s ih =>
    obtain ⟨hslot, hs⟩ := List.forall_mem_cons.1 h
    exact (Slot.quotesClosed_source hslot i).append (ih hs)

/-! ## Outlines -/

/-- An outline of a text: it has the text and its mask, and it is cut only where all quotes before
    the cut are closed, or where no quote follows. -/
structure Outlines (s : Outline) (t : Text) : Prop where
  text_eq : text () s = t
  masked_eq : masked () s = mask t
  cut : ∀ u v, s = u ++ v → (text () u).QuotesClosed ∨ '\'' ∉ text () v

/-- From a quote on that no other quote follows a text is kept. -/
theorem mask_unterminated {s : Outline} (hs : s.Proper) {content : Text}
    (hcontent : '\'' ∉ content) :
    mask (text () s ++ '\'' :: content) = masked () s ++ '\'' :: content := by
  rw [← masked_tokens, ← sources_tokens,
    mask_sources_unterminated (canonical_tokens () hs) hcontent]

/-- The outline of a text whose last literal is not terminated. -/
theorem outlines_unterminated {s : Outline} (hs : s.Proper) {content : Text}
    (hcontent : '\'' ∉ content) :
    Outlines (s ++ ('\'' :: content).map Slot.char) (text () s ++ '\'' :: content) where
  text_eq := by rw [text_append, text_map_char]
  masked_eq := by rw [masked_append, masked_map_char, mask_unterminated hs hcontent]
  cut := by
    intro u v huv
    obtain ⟨between, hu, hv⟩ | ⟨between, hu, hv⟩ := List.append_eq_append_iff.1 huv
    · -- The cut is after the end of the proper part, or at it.
      cases between with
      | nil =>
        rw [List.append_nil] at hu
        exact .inl (hu ▸ quotesClosed_text hs ())
      | cons slot between =>
        right
        have htail : content.map Slot.char = between ++ v := (List.cons.inj hv).2
        have htext : content = text () between ++ text () v := by
          rw [← text_append, ← htail, text_map_char]
        exact fun hmem => hcontent (htext ▸ List.mem_append_right _ hmem)
    · left
      exact quotesClosed_text (Proper.append_iff.1 (hu ▸ hs)).1 ()

theorem exists_outlines (t : Text) : ∃ s : Outline, Outlines s t := by
  obtain ⟨s, hs, rfl⟩ | ⟨s, content, hs, hcontent, rfl⟩ := outline_cases t
  · refine ⟨s, rfl, (mask_text hs ()).symm, fun u v huv => .inl ?_⟩
    exact quotesClosed_text (Proper.append_iff.1 (huv ▸ hs)).1 ()
  · exact ⟨_, outlines_unterminated hs hcontent⟩

theorem getLast?_mask (t : Text) : (mask t).getLast? = t.getLast? := by
  obtain ⟨s, hs⟩ := exists_outlines t
  rw [← hs.masked_eq, ← hs.text_eq]
  exact (ends_masked () s).2

/-- What has no quotes is kept after any text, also in a literal that is not terminated. -/
theorem mask_append_of_quote_notMem {t : Text} (ht : '\'' ∉ t) (s : Text) :
    mask (s ++ t) = mask s ++ t := by
  obtain ⟨o, ho, rfl⟩ | ⟨o, content, ho, hcontent, rfl⟩ := outline_cases s
  · rw [mask_append (quotesClosed_text ho ()) (Text.quotesClosed_of_notMem ht), mask_of_notMem ht]
  · have hlonger : '\'' ∉ content ++ t := by simp [hcontent, ht]
    rw [List.append_assoc, List.cons_append, mask_unterminated ho hlonger,
      mask_unterminated ho hcontent, List.append_assoc, List.cons_append]

/-! ## Places inside of literals -/

/-- The tokens of a text are canonical, also when its last literal is not terminated. -/
theorem canonical_readAll (t : Text) : Token.Canonical (Lexer.start t).readAll.1 := by
  obtain ⟨s, hs, rfl⟩ | ⟨s, content, hs, hcontent, rfl⟩ := outline_cases t
  · have hread := Lexer.readAll_sources 0 (canonical_tokens () hs)
    rw [sources_tokens] at hread
    rw [Lexer.start, hread]
    exact canonical_tokens () hs
  · have hread := Lexer.readAll_unterminated 0 (canonical_tokens () hs) hcontent
    rw [sources_tokens] at hread
    rw [Lexer.start, hread]
    exact canonical_tokens () hs

/-- What stands before and in a literal of canonical tokens. -/
theorem Token.Canonical.of_append_quoted {before after : List Token} {content : Text}
    (h : Canonical (before ++ .quoted content :: after)) :
    (Token.sources before).QuotesClosed ∧ '\'' ∉ content := by
  induction before with
  | nil =>
    cases h with
    | quoted hcontent _ => exact ⟨Text.quotesClosed_of_notMem List.not_mem_nil, hcontent⟩
  | cons token before ih =>
    have hrest : Canonical (before ++ .quoted content :: after) := by cases h <;> assumption
    obtain ⟨hbefore, hcontent⟩ := ih hrest
    refine ⟨Text.QuotesClosed.append ?_ hbefore, hcontent⟩
    cases h with
    | quoted hq _ => exact Text.quotesClosed_quoted hq
    | comma _ => exact Text.quotesClosed_of_notMem (by decide)
    | run _ hall _ _ => exact Text.quotesClosed_of_notMem fun hmem => absurd (hall _ hmem) (by decide)

/-- An offset in bytes strictly inside of a terminated literal of a text, between its first and its
    last byte. -/
def Text.InsideLiteral (t : Text) (offset : Nat) : Prop :=
  ∃ before content after, (Lexer.start t).readAll.1 = before ++ Token.quoted content :: after ∧
    (Token.sources before).byteSize < offset ∧
    offset < (Token.sources before).byteSize + (Token.quoted content).source.byteSize

/-- Where a text is cut inside of a literal: the cut leaves the content in two pieces. -/
theorem Text.exists_of_cut_literal {s t before content rest : Text}
    (h : s ++ t = before ++ (content.quoted ++ rest)) (hleft : before.byteSize < s.byteSize)
    (hright : s.byteSize < before.byteSize + content.quoted.byteSize) :
    ∃ left right, s = before ++ '\'' :: left ∧ t = right ++ '\'' :: rest ∧
      content = left ++ right := by
  have hquote := Char.utf8Size_pos '\''
  obtain ⟨between, rfl, -⟩ | ⟨between, rfl, hbetween⟩ := List.append_eq_append_iff.1 h
  · simp only [Text.byteSize_append] at hleft
    omega
  · rw [Text.byteSize_append] at hleft hright
    cases between with
    | nil => simp at hleft
    | cons c left =>
      simp only [Text.quoted, List.cons_append, List.append_assoc, List.nil_append,
        List.cons.injEq] at hbetween
      obtain ⟨rfl, hcontent⟩ := hbetween
      simp only [Text.quoted, Text.byteSize_cons, Text.byteSize_append, Text.byteSize_nil,
        List.cons_append] at hright
      obtain ⟨right, hcontent, ht⟩ | ⟨more, hleft, hrest⟩ :=
        List.append_eq_append_iff.1 hcontent.symm
      · exact ⟨left, right, rfl, ht, hcontent⟩
      · -- The cut is before the closing quote, so nothing of it is on the left.
        cases more with
        | nil =>
          rw [List.append_nil] at hleft
          exact ⟨left, [], rfl, hrest.symm, by rw [hleft, List.append_nil]⟩
        | cons d more =>
          obtain ⟨rfl, -⟩ := List.cons.inj hrest
          simp only [hleft, Text.byteSize_append, Text.byteSize_cons] at hright
          omega

/-- A text is not inside of a literal where all quotes before are closed, or where no quote
    follows. -/
theorem Text.not_insideLiteral {s t : Text} (h : s.QuotesClosed ∨ '\'' ∉ t) :
    ¬ InsideLiteral (s ++ t) s.byteSize := by
  rintro ⟨before, content, after, hread, hleft, hright⟩
  have hcanonical := canonical_readAll (s ++ t)
  rw [hread] at hcanonical
  obtain ⟨hbefore, hcontent⟩ := hcanonical.of_append_quoted
  obtain ⟨tail, htail⟩ : ∃ tail, Token.sources (Lexer.start (s ++ t)).readAll.1 ++ tail = s ++ t :=
    ⟨_, Lexer.sources_append_of_readAll (Lexer.start (s ++ t)) [] rfl⟩
  have htext : s ++ t = Token.sources before ++ (content.quoted ++ (Token.sources after ++ tail)) := by
    rw [← htail, hread]
    simp [Token.sources, Token.source, Text.quoted]
  obtain ⟨left, right, rfl, rfl, rfl⟩ := exists_of_cut_literal htext hleft hright
  obtain hclosed | hnone := h
  · -- The quote that opens the literal is one more than those of the closed text before it.
    have hquote : '\'' ∉ left := fun hmem => hcontent (List.mem_append_left _ hmem)
    exact (quotesClosed_append_cons_iff hquote).1 hclosed hbefore
  · exact hnone (List.mem_append_right _ List.mem_cons_self)

end EntityQuery
