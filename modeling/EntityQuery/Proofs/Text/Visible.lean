-- SUMMARY: Texts without blanks and control characters: what is percent-encoded is one.
import EntityQuery.Proofs.Text.Percent

/-!
# Visible texts

A text is visible if it has neither blanks nor control characters, so that it is
a single word of a single line. Percent encoding makes every text visible.
-/

namespace EntityQuery

/-- The control characters of Unicode. -/
def isControl (c : Char) : Bool :=
  c.toNat < 0x20 || (0x7F ≤ c.toNat && c.toNat < 0xA0)

/-- A character that is neither a blank nor a control character. -/
def isVisible (c : Char) : Bool :=
  !isBlank c && !isControl c

/-- What is checked for the code points of ASCII holds of the characters of ASCII. -/
theorem of_toNat_lt {p : Char → Bool} (hp : ∀ n ∈ List.range 128, p (Char.ofNat n) = true) {c : Char}
    (h : c.toNat < 128) : p c = true := by
  have hc := hp c.toNat (List.mem_range.2 h)
  rwa [Char.ofNat_toNat] at hc

namespace Text

/-- A text that has neither blanks nor control characters. -/
def IsVisible (t : Text) : Prop :=
  ∀ c ∈ t, isVisible c = true

instance (t : Text) : Decidable t.IsVisible :=
  List.decidableBAll (fun c => isVisible c = true) t

@[simp] theorem isVisible_nil : IsVisible [] := by
  rintro c ⟨⟩

@[simp] theorem isVisible_cons {c : Char} {t : Text} :
    IsVisible (c :: t) ↔ isVisible c = true ∧ t.IsVisible :=
  List.forall_mem_cons

@[simp] theorem isVisible_append {s t : Text} : IsVisible (s ++ t) ↔ s.IsVisible ∧ t.IsVisible :=
  List.forall_mem_append

theorem IsVisible.subset {s t : Text} (h : t.IsVisible) (hst : s ⊆ t) : s.IsVisible :=
  fun c hc => h c (hst hc)

theorem IsVisible.notMem {t : Text} (h : t.IsVisible) {c : Char} (hc : isVisible c = false) :
    c ∉ t := by
  intro hmem
  rw [h c hmem] at hc
  cases hc

/-- What is percent-encoded is visible, whatever the text is. -/
theorem isVisible_percentEncode (t : Text) : t.percentEncode.IsVisible := by
  intro c hc
  by_cases hpercent : c = '%'
  · rw [hpercent]
    decide
  · have hkeeps : Percent.keeps c = true := by
      by_contra hkeeps
      exact notMem_percentEncode (by simpa using hkeeps) hpercent t hc
    have himp : (!Percent.keeps c || isVisible c) = true :=
      of_toNat_lt (p := fun c => !Percent.keeps c || isVisible c) (by decide +kernel)
        (Percent.toNat_lt_of_keeps hkeeps)
    simpa [hkeeps] using himp

end Text

end EntityQuery
