-- SUMMARY: Slices that fail unless both of their ends lie between characters.
import EntityQuery.Text.Span

/-!
# Slices that can fail

A slice by byte offsets is only defined if its ends are in order and lie
between characters. There it is the text between them.
-/

namespace EntityQuery.Text

variable {t before after : Text} {offset : Nat}

/-- A text cut at a byte offset; none if the offset does not lie between two characters. -/
def cut? : Nat → Text → Option (Text × Text)
  | 0, t => some ([], t)
  | _ + 1, [] => none
  | n + 1, c :: t =>
    if c.utf8Size ≤ n + 1 then
      (cut? (n + 1 - c.utf8Size) t).map fun (before, after) => (c :: before, after)
    else none

/-- The text between the ends of a span; none if the ends are not in order or if one of them does
    not lie between two characters. -/
def slice? (span : Span) (t : Text) : Option Text :=
  if span.start ≤ span.stop then do
    let (before, _) ← t.cut? span.stop
    let (_, part) ← before.cut? span.start
    some part
  else none

theorem cut?_append (before after : Text) :
    cut? before.byteSize (before ++ after) = some (before, after) := by
  induction before with
  | nil => rw [byteSize_nil, cut?, List.nil_append]
  | cons c before ih =>
    obtain ⟨n, hn⟩ : ∃ n, c.utf8Size + byteSize before = n + 1 :=
      Nat.exists_eq_add_one_of_ne_zero (by have := c.utf8Size_pos; omega)
    have hrest : n + 1 - c.utf8Size = byteSize before := by omega
    rw [byteSize_cons, List.cons_append, hn, cut?, if_pos (by omega), hrest, ih]
    rfl

/-- A text is cut only between two characters. -/
theorem eq_append_of_cut? (h : cut? offset t = some (before, after)) :
    t = before ++ after ∧ before.byteSize = offset := by
  induction t generalizing offset before with
  | nil =>
    cases offset with
    | zero =>
      cases h
      exact ⟨rfl, rfl⟩
    | succ n => cases h
  | cons c t ih =>
    cases offset with
    | zero =>
      cases h
      exact ⟨rfl, rfl⟩
    | succ n =>
      rw [cut?] at h
      split at h
      · obtain ⟨⟨rest, after⟩, hcut, heq⟩ := Option.map_eq_some_iff.1 h
        cases heq
        obtain ⟨rfl, hsize⟩ := ih hcut
        exact ⟨rfl, by rw [byteSize_cons, hsize]; omega⟩
      · cases h

/-- A text can be cut at its boundaries and nowhere else. -/
theorem isSome_cut?_iff : (cut? offset t).isSome ↔ t.IsBoundary offset := by
  constructor
  · intro h
    obtain ⟨⟨before, after⟩, hcut⟩ := Option.isSome_iff_exists.1 h
    obtain ⟨ht, hsize⟩ := eq_append_of_cut? hcut
    exact ⟨before, after, ht, hsize⟩
  · rintro ⟨before, after, rfl, rfl⟩
    rw [cut?_append]
    rfl

/-- Between two boundaries there is a slice. -/
theorem slice?_append (before part after : Text) :
    slice? ⟨before.byteSize, before.byteSize + part.byteSize⟩ (before ++ part ++ after) =
      some part := by
  rw [slice?, if_pos (Nat.le_add_right _ _), ← byteSize_append]
  simp only [cut?_append, Option.bind_eq_bind, Option.bind_some]

/-- Of two ways to cut a text the one with less in front cuts the front of the other one. -/
theorem exists_of_byteSize_le {upTo before rest : Text} (h : before ++ rest = upTo ++ after)
    (hle : before.byteSize ≤ upTo.byteSize) :
    ∃ part, upTo = before ++ part ∧ rest = part ++ after := by
  obtain ⟨part, hpart, hrest⟩ | ⟨more, rfl, hafter⟩ := List.append_eq_append_iff.1 h
  · exact ⟨part, hpart, hrest⟩
  · have hmore : byteSize more = 0 := by
      rw [byteSize_append] at hle
      omega
    cases more with
    | nil => exact ⟨[], by simp, by simpa using hafter.symm⟩
    | cons c more =>
      have := c.utf8Size_pos
      rw [byteSize_cons] at hmore
      omega

/-- A slice between boundaries in order is defined. -/
theorem slice?_eq_slice {span : Span} (hstart : t.IsBoundary span.start)
    (hstop : t.IsBoundary span.stop) (horder : span.start ≤ span.stop) :
    t.slice? span = some (t.slice span) := by
  obtain ⟨start, stop⟩ := span
  obtain ⟨before, rest, rfl, rfl⟩ := hstart
  obtain ⟨upTo, after, ht, rfl⟩ := hstop
  obtain ⟨part, rfl, rfl⟩ := exists_of_byteSize_le ht horder
  rw [ht, byteSize_append, slice?_append, slice_append]

example : slice? ⟨0, 2⟩ ['é', 'a'] = some ['é'] ∧ slice? ⟨1, 2⟩ ['é', 'a'] = none ∧
    slice? ⟨2, 0⟩ ['é', 'a'] = none := by decide

/-! ## Slices of longer texts -/

theorem takeBytes_append_of_le {n : Nat} {s : Text} (h : n ≤ s.byteSize) (t : Text) :
    (s ++ t).takeBytes n = s.takeBytes n := by
  induction s generalizing n with
  | nil =>
    rw [byteSize_nil, Nat.le_zero] at h
    rw [h, takeBytes_zero, takeBytes_zero]
  | cons c s ih =>
    cases n with
    | zero => rw [takeBytes_zero, takeBytes_zero]
    | succ n =>
      rw [byteSize_cons] at h
      rw [List.cons_append, takeBytes, takeBytes, ih (by omega)]

/-- A slice that ends in a text does not depend on what follows the text. -/
theorem slice_append_of_le {s t : Text} {span : Span} (hstart : IsBoundary (s ++ t) span.start)
    (horder : span.start ≤ span.stop) (hstop : span.stop ≤ s.byteSize) :
    (s ++ t).slice span = s.slice span := by
  obtain ⟨start, stop⟩ := span
  obtain ⟨before, rest, heq, rfl⟩ := hstart
  dsimp only at horder hstop
  obtain ⟨part, rfl, rfl⟩ := exists_of_byteSize_le heq.symm (Nat.le_trans horder hstop)
  rw [byteSize_append] at hstop
  have hpart : stop - before.byteSize ≤ part.byteSize := by omega
  rw [slice, slice, List.append_assoc, dropBytes_append, dropBytes_append,
    takeBytes_append_of_le hpart]

/-! ## Characters of slices -/

theorem dropBytes_subset (n : Nat) (t : Text) : t.dropBytes n ⊆ t := by
  induction t generalizing n with
  | nil => cases n <;> exact List.Subset.refl []
  | cons c t ih =>
    cases n with
    | zero => rw [dropBytes_zero]; exact List.Subset.refl _
    | succ n => exact List.Subset.trans (ih _) (List.subset_cons_self c t)

theorem takeBytes_subset (n : Nat) (t : Text) : t.takeBytes n ⊆ t := by
  induction t generalizing n with
  | nil => cases n <;> exact List.Subset.refl []
  | cons c t ih =>
    cases n with
    | zero => rw [takeBytes_zero]; exact List.nil_subset _
    | succ n => exact List.cons_subset_cons c (ih _)

/-- A slice consists of characters of the text. -/
theorem slice_subset (span : Span) (t : Text) : t.slice span ⊆ t :=
  List.Subset.trans (takeBytes_subset _ _) (dropBytes_subset _ _)

end EntityQuery.Text
