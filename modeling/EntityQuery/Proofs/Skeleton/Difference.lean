-- SUMMARY: Two texts that differ only in literals at allowed places, and their skeleton.
import EntityQuery.Proofs.Skeleton.List
import EntityQuery.Text.Span

/-!
# Texts that differ in literals

Two texts that differ only in the contents of literals are the two texts of one
skeleton. The literals in which they differ may have to stand at certain places
of the first text. Such a place is the span of the literal, its quotes included.
-/

namespace EntityQuery

/-- Two texts with terminated quotes that are the same but for the contents of literals. In the
    first text, which starts at a byte offset, those literals stand at places that are `free`. -/
inductive Text.DiffersAt (free : Span → Prop) : Nat → Text → Text → Prop where
  | nil {offset : Nat} : DiffersAt free offset [] []
  | char {offset : Nat} {c : Char} {t₁ t₂ : Text} :
      c ≠ '\'' → DiffersAt free (offset + c.utf8Size) t₁ t₂ →
      DiffersAt free offset (c :: t₁) (c :: t₂)
  | literal {offset : Nat} {content₁ content₂ t₁ t₂ : Text} :
      '\'' ∉ content₁ → '\'' ∉ content₂ →
      (content₁ ≠ content₂ → free ⟨offset, offset + (Text.quoted content₁).byteSize⟩) →
      DiffersAt free (offset + (Text.quoted content₁).byteSize) t₁ t₂ →
      DiffersAt free offset (Text.quoted content₁ ++ t₁) (Text.quoted content₂ ++ t₂)

/-- Two texts that differ only in the contents of literals, wherever they stand. -/
def Text.SameButLiterals (t₁ t₂ : Text) : Prop :=
  t₁.DiffersAt (fun _ => True) 0 t₂

theorem Text.DiffersAt.append_left {free : Span → Prop} {offset : Nat} {s t₁ t₂ : Text}
    (hs : '\'' ∉ s) (h : DiffersAt free (offset + s.byteSize) t₁ t₂) :
    DiffersAt free offset (s ++ t₁) (s ++ t₂) := by
  induction s generalizing offset with
  | nil => exact h
  | cons c s ih =>
    obtain ⟨hc, hs⟩ := not_or.1 (mt List.mem_cons.2 hs)
    refine .char (Ne.symm hc) (ih hs ?_)
    rwa [Nat.add_assoc, ← Text.byteSize_cons]

/-- The first or the second of two texts. -/
inductive Side where
  | left
  | right

/-- One of two things for each side. -/
def Side.pick {α : Type} (a b : α) : Side → α
  | left => a
  | right => b

namespace Skeleton

/-! ## The literals that vary -/

/-- The literals with different contents in both texts stand at places that are `free`. -/
def VariesOnly (free : Span → Prop) (offset : Nat) (s : Skeleton Side) : Prop :=
  ∀ u content v, s = u ++ .literal content :: v → content .left ≠ content .right →
    free ⟨offset + (text .left u).byteSize,
      offset + (text .left u).byteSize + (Text.quoted (content .left)).byteSize⟩

variable {free : Span → Prop} {offset : Nat} {s : Skeleton Side}

theorem VariesOnly.cons {slot : Slot Side}
    (hslot : ∀ content, slot = .literal content → content .left ≠ content .right →
      free ⟨offset, offset + (Text.quoted (content .left)).byteSize⟩)
    (h : s.VariesOnly free (offset + Text.byteSize (slot.source .left))) :
    VariesOnly free offset (slot :: s) := by
  intro u content v hs hne
  cases u with
  | nil =>
    obtain ⟨rfl, -⟩ := List.cons.inj hs
    exact hslot content rfl hne
  | cons first u =>
    obtain ⟨rfl, htail⟩ := List.cons.inj hs
    simpa [Nat.add_assoc] using h u content v htail hne

/-- Two texts that differ only in literals have a skeleton. -/
theorem exists_text_of_differsAt {t₁ t₂ : Text} (h : Text.DiffersAt free offset t₁ t₂) :
    ∃ s : Skeleton Side, s.Proper ∧ text .left s = t₁ ∧ text .right s = t₂ ∧
      s.VariesOnly free offset := by
  induction h with
  | nil =>
    refine ⟨[], by simp [Proper], rfl, rfl, ?_⟩
    intro u content v hs
    simp at hs
  | @char offset c t₁ t₂ hc _ ih =>
    obtain ⟨s, hs, rfl, rfl, hvaries⟩ := ih
    refine ⟨.char c :: s, List.forall_mem_cons.2 ⟨hc, hs⟩, rfl, rfl, .cons ?_ ?_⟩
    · intro content he
      cases he
    · simpa [Slot.source] using hvaries
  | @literal offset content₁ content₂ t₁ t₂ h₁ h₂ hfree _ ih =>
    obtain ⟨s, hs, rfl, rfl, hvaries⟩ := ih
    refine ⟨.literal (Side.pick content₁ content₂) :: s, List.forall_mem_cons.2 ⟨?_, hs⟩, rfl, rfl,
      .cons ?_ hvaries⟩
    · intro side
      cases side
      · exact h₁
      · exact h₂
    · intro content he
      cases he
      exact hfree

/-- The two texts of a skeleton differ in nothing but literals. -/
theorem sameButLiterals_text (h : s.Proper) :
    Text.SameButLiterals (text .left s) (text .right s) := by
  suffices hall : ∀ offset,
      Text.DiffersAt (fun _ => True) offset (text .left s) (text .right s) from hall 0
  induction s with
  | nil => exact fun offset => .nil
  | cons slot s ih =>
    obtain ⟨hslot, hs⟩ := List.forall_mem_cons.1 h
    intro offset
    cases slot with
    | char c => exact .char hslot (ih hs _)
    | literal content => exact .literal (hslot .left) (hslot .right) (fun _ => trivial) (ih hs _)

/-- Literals that do not vary make both texts the same. -/
theorem text_eq_of_not_varies
    (h : ∀ content, .literal content ∈ s → content .left = content .right) :
    text .left s = text .right s := by
  induction s with
  | nil => rfl
  | cons slot s ih =>
    have hs := ih fun content hmem => h content (.tail _ hmem)
    cases slot with
    | char c => simpa [Slot.source] using hs
    | literal content => simp [Slot.source, hs, h content (.head _)]

end Skeleton

end EntityQuery
