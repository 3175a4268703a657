-- SUMMARY: Texts whose quotes are closed: each has a skeleton, and so tokens and a mask.
import EntityQuery.Proofs.Skeleton.Basic
import Mathlib.Algebra.Group.Nat.Even

/-!
# Texts whose quotes are closed

The quotes of a text are closed if they come in pairs. Then the text is the
only text of a skeleton, so what is known of skeletons holds of it.
-/

namespace EntityQuery

/-- Whether each quote of a text that opens a literal is followed by one that closes it. -/
def Text.QuotesClosed (t : Text) : Prop :=
  Even (t.count '\'')

instance (t : Text) : Decidable t.QuotesClosed :=
  inferInstanceAs (Decidable (Even (t.count '\'')))

/-- The skeleton of a single text. -/
abbrev Outline := Skeleton Unit

namespace Skeleton

/-- A text whose quotes are closed has an outline. -/
theorem exists_outline {t : Text} (h : t.QuotesClosed) :
    ∃ s : Outline, s.Proper ∧ s.text () = t := by
  induction hn : t.length using Nat.strong_induction_on generalizing t with
  | h n ih =>
    match t with
    | [] => exact ⟨[], by simp [Proper], rfl⟩
    | c :: t =>
      by_cases hc : c = '\''
      · subst hc
        -- The quotes that are left are odd in number, so one of them closes the literal.
        have hodd : ¬ Even (t.count '\'') := by
          simpa [Text.QuotesClosed, Nat.even_add_one] using h
        have hmem : '\'' ∈ t := by
          by_contra hmem
          exact hodd (by simp [List.count_eq_zero.2 hmem])
        obtain ⟨content, rest, rfl, hcontent⟩ := List.eq_append_cons_of_mem hmem
        have hrest : Text.QuotesClosed rest := by
          simpa [Text.QuotesClosed, List.count_append, List.count_eq_zero.2 hcontent,
            Nat.even_add_one] using hodd
        obtain ⟨s, hs, rfl⟩ := ih _ (by simp [← hn]; omega) hrest rfl
        exact ⟨.literal (fun _ => content) :: s, List.forall_mem_cons.2 ⟨fun _ => hcontent, hs⟩,
          by simp [Slot.source]⟩
      · have hclosed : Text.QuotesClosed t := by simpa [Text.QuotesClosed, hc] using h
        obtain ⟨s, hs, rfl⟩ := ih _ (by simp [← hn]) hclosed rfl
        exact ⟨.char c :: s, List.forall_mem_cons.2 ⟨hc, hs⟩, rfl⟩

theorem proper_map_char {ι : Type} {t : Text} (h : '\'' ∉ t) :
    Proper (t.map Slot.char : Skeleton ι) := by
  intro slot hslot
  obtain ⟨c, hc, rfl⟩ := List.mem_map.1 hslot
  exact ne_of_mem_of_not_mem hc h

end Skeleton

/-! ## Masks -/

open Skeleton

namespace Text

variable {s t : Text}

theorem QuotesClosed.append (hs : s.QuotesClosed) (ht : t.QuotesClosed) :
    QuotesClosed (s ++ t) := by
  rw [QuotesClosed, List.count_append]
  exact hs.add ht

theorem QuotesClosed.of_append_left (h : QuotesClosed (s ++ t)) (hs : s.QuotesClosed) :
    t.QuotesClosed := by
  rw [QuotesClosed, List.count_append] at h
  exact (Nat.even_add.1 h).1 hs

theorem QuotesClosed.of_append_right (h : QuotesClosed (s ++ t)) (ht : t.QuotesClosed) :
    s.QuotesClosed := by
  rw [QuotesClosed, List.count_append] at h
  exact (Nat.even_add.1 h).2 ht

theorem quotesClosed_of_notMem (h : '\'' ∉ t) : t.QuotesClosed := by
  rw [QuotesClosed, List.count_eq_zero.2 h]
  decide

/-- A last quote closes a literal if and only if the quotes before it are not closed. -/
theorem quotesClosed_append_cons_iff (ht : '\'' ∉ t) :
    QuotesClosed (s ++ '\'' :: t) ↔ ¬ s.QuotesClosed := by
  have hcount : (s ++ '\'' :: t).count '\'' = s.count '\'' + 1 := by
    simp [List.count_append, List.count_eq_zero.2 ht]
  rw [QuotesClosed, hcount, Nat.even_add_one, QuotesClosed]

theorem quotesClosed_quoted (h : '\'' ∉ t) : t.quoted.QuotesClosed := by
  have hcount : t.quoted.count '\'' = 2 := by simp [quoted, List.count_eq_zero.2 h]
  rw [QuotesClosed, hcount]
  decide

theorem byteSize_quoted (t : Text) : t.quoted.byteSize = t.byteSize + 2 := by
  simp only [quoted, byteSize_append, byteSize_cons, byteSize_nil, show '\''.utf8Size = 1 from rfl]
  omega

/-- A text with quotes at both ends is in quotes, unless it is a single quote. -/
theorem exists_eq_quoted (hne : t ≠ ['\'']) (hhead : t.head? = some '\'')
    (hlast : t.getLast? = some '\'') : ∃ content : Text, t = content.quoted := by
  obtain ⟨rest, rfl⟩ := List.head?_eq_some_iff.1 hhead
  obtain rfl | ⟨content, last, rfl⟩ := List.eq_nil_or_concat rest
  · exact absurd rfl hne
  · rw [List.concat_eq_append, ← List.cons_append, List.getLast?_concat] at hlast
    cases hlast
    exact ⟨content, by rw [List.concat_eq_append]; rfl⟩

end Text

variable {s t : Text}

/-- Texts whose quotes are closed are masked each on its own. -/
theorem mask_append (hs : s.QuotesClosed) (ht : t.QuotesClosed) :
    mask (s ++ t) = mask s ++ mask t := by
  obtain ⟨u, hu, rfl⟩ := exists_outline hs
  obtain ⟨v, hv, rfl⟩ := exists_outline ht
  rw [← text_append, mask_text (Proper.append_iff.2 ⟨hu, hv⟩), mask_text hu, mask_text hv,
    masked_append]

/-- Outside of literals nothing is masked. -/
theorem mask_of_notMem (h : '\'' ∉ t) : mask t = t := by
  have hmask := mask_text (ι := Unit) (proper_map_char h) ()
  rwa [text_map_char, masked_map_char] at hmask

/-- A text without quotes is kept before any other one. -/
theorem mask_append_of_notMem (hs : '\'' ∉ s) (ht : t.QuotesClosed) :
    Text.QuotesClosed (s ++ t) ∧ mask (s ++ t) = s ++ mask t := by
  have hclosed := Text.quotesClosed_of_notMem hs
  exact ⟨hclosed.append ht, by rw [mask_append hclosed ht, mask_of_notMem hs]⟩

theorem mask_quoted (h : '\'' ∉ t) :
    mask t.quoted = Text.quoted (List.replicate t.byteSize '_') := by
  have hproper : Proper [Slot.literal fun _ : Unit => t] := by
    simpa [Proper, Slot.Proper] using h
  have hmask := mask_text hproper ()
  simpa [Text.quoted, Slot.source, Slot.masked] using hmask

theorem Skeleton.ends_masked {ι : Type} (i : ι) (s : Skeleton ι) :
    (masked i s).head? = (text i s).head? ∧ (masked i s).getLast? = (text i s).getLast? := by
  constructor
  · rcases s with _ | ⟨_ | _, s⟩ <;> rfl
  · obtain rfl | ⟨s, slot, rfl⟩ := List.eq_nil_or_concat s
    · rfl
    · cases slot with
      | char c => simp [Slot.masked, Slot.source]
      | literal content =>
        have hlast (t : Text) : ('\'' :: (t ++ ['\''])).getLast? = some '\'' := by
          rw [← List.cons_append, List.getLast?_concat]
        simp [Slot.masked, Slot.source, List.getLast?_append, hlast]

/-- The ends of a text are not masked. -/
theorem head?_mask (ht : t.QuotesClosed) :
    (mask t).head? = t.head? ∧ (mask t).getLast? = t.getLast? := by
  obtain ⟨s, hs, rfl⟩ := exists_outline ht
  rw [mask_text hs]
  exact ends_masked () s

end EntityQuery
