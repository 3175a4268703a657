-- SUMMARY: Marks: how a text is written from keywords, names and blanks.
import EntityQuery.Proofs.Text.Blank

/-!
# Marks

A statement can be written in many ways: keywords in any case, blanks of any
kind and number. What is the same in all of them is a list of marks. A text is
written from marks if it consists of texts for them, one after the other.
-/

namespace EntityQuery

/-- What a text is written from. -/
inductive Mark where
  /-- A word in any case. -/
  | keyword (word : Text)
  /-- A text as it is. -/
  | text (t : Text)
  /-- One or more blanks. -/
  | gap
  /-- Any number of blanks. -/
  | space
deriving DecidableEq, Repr

namespace Mark

/-- Whether a text stands for a mark. -/
def Writes : Mark → Text → Prop
  | keyword word, t => t.sameWord word = true
  | text s, t => t = s
  | gap, t => t.IsGap
  | space, t => t.isBlank = true

instance Writes.decidable : (mark : Mark) → (t : Text) → Decidable (mark.Writes t)
  | keyword word, t => inferInstanceAs (Decidable (t.sameWord word = true))
  | text s, t => inferInstanceAs (Decidable (t = s))
  | gap, t => inferInstanceAs (Decidable t.IsGap)
  | space, t => inferInstanceAs (Decidable (t.isBlank = true))

/-- Keywords with blanks between them. -/
def phrase : List Text → List Mark
  | [] => []
  | [word] => [keyword word]
  | word :: words => keyword word :: gap :: phrase words

/-- The items of a list, with commas between them. -/
def list : List (List Mark) → List Mark
  | [] => []
  | [item] => item
  | item :: items => item ++ space :: text [','] :: space :: list items

end Mark

/-- Whether a text is written from marks. -/
def Written : List Mark → Text → Prop
  | [], t => t = []
  | mark :: marks, t => ∃ s rest, t = s ++ rest ∧ mark.Writes s ∧ Written marks rest

/-- The text for the first mark is looked for among all starts of the text. -/
instance Written.decidable : (marks : List Mark) → (t : Text) → Decidable (Written marks t)
  | [], t => inferInstanceAs (Decidable (t = []))
  | mark :: marks, t =>
    have := Written.decidable marks
    decidable_of_iff
        (∃ n, n < t.length + 1 ∧ mark.Writes (t.take n) ∧ Written marks (t.drop n)) <| by
      constructor
      · rintro ⟨n, -, hs, hrest⟩
        exact ⟨t.take n, t.drop n, (List.take_append_drop n t).symm, hs, hrest⟩
      · rintro ⟨s, rest, rfl, hs, hrest⟩
        have hlength : s.length < (s ++ rest).length + 1 := by
          rw [List.length_append]
          omega
        exact ⟨s.length, hlength, by simpa using hs, by simpa using hrest⟩

theorem written_nil {t : Text} : Written [] t ↔ t = [] := Iff.rfl

theorem written_singleton {mark : Mark} {t : Text} : Written [mark] t ↔ mark.Writes t := by
  simp [Written]

theorem written_text {s t : Text} : Written [.text s] t ↔ t = s := written_singleton

theorem written_append {marks more : List Mark} {t : Text} :
    Written (marks ++ more) t ↔ ∃ s rest, t = s ++ rest ∧ Written marks s ∧ Written more rest := by
  induction marks generalizing t with
  | nil =>
    refine ⟨fun h => ⟨[], t, rfl, rfl, h⟩, ?_⟩
    rintro ⟨_, rest, rfl, rfl, h⟩
    exact h
  | cons mark marks ih =>
    constructor
    · rintro ⟨s, rest, rfl, hs, hrest⟩
      obtain ⟨u, v, rfl, hu, hv⟩ := ih.1 hrest
      exact ⟨s ++ u, v, by simp, ⟨s, u, rfl, hs, hu⟩, hv⟩
    · rintro ⟨_, v, rfl, ⟨s, u, rfl, hs, hu⟩, hv⟩
      exact ⟨s, u ++ v, by simp, hs, ih.2 ⟨u, v, rfl, hu, hv⟩⟩

end EntityQuery
