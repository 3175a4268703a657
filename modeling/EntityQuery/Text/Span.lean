-- SUMMARY: Spans of a text in bytes, and the part of a text that a span covers.
import EntityQuery.Text.Basic

/-!
# Spans

A clause of a statement is found in a copy of the statement whose literals are
blanked, and read from the statement itself. Both have the same number of
bytes, so the place of a clause is a pair of byte offsets.
-/

namespace EntityQuery

/-- A part of a text: the bytes from `start` up to, not including, `stop`. -/
structure Span where
  start : Nat
  stop : Nat
deriving DecidableEq, Repr

/-- The characters of a text that start at or after a byte offset. -/
def Text.dropBytes : Nat → Text → Text
  | 0, t => t
  | _ + 1, [] => []
  | n + 1, c :: t => Text.dropBytes (n + 1 - c.utf8Size) t

/-- The characters of a text that start before a byte offset. -/
def Text.takeBytes : Nat → Text → Text
  | 0, _ => []
  | _ + 1, [] => []
  | n + 1, c :: t => c :: Text.takeBytes (n + 1 - c.utf8Size) t

/-- The characters that start inside a span. -/
def Text.slice (span : Span) (t : Text) : Text :=
  (t.dropBytes span.start).takeBytes (span.stop - span.start)

/-- A byte offset that lies between two characters, or at an end of the text. -/
def Text.IsBoundary (t : Text) (offset : Nat) : Prop :=
  ∃ before after, t = before ++ after ∧ before.byteSize = offset

@[simp] theorem Text.dropBytes_zero (t : Text) : t.dropBytes 0 = t := by
  cases t <;> rfl

@[simp] theorem Text.takeBytes_zero (t : Text) : t.takeBytes 0 = [] := by
  cases t <;> rfl

@[simp] theorem Text.dropBytes_append (s t : Text) : (s ++ t).dropBytes s.byteSize = t := by
  induction s with
  | nil => simp
  | cons c s ih =>
    have hc := c.utf8Size_pos
    rw [Text.byteSize_cons, List.cons_append]
    obtain ⟨n, hn⟩ : ∃ n, c.utf8Size + Text.byteSize s = n + 1 := ⟨_, (Nat.sub_add_cancel (by omega)).symm⟩
    rw [hn, Text.dropBytes, show n + 1 - c.utf8Size = Text.byteSize s by omega, ih]

@[simp] theorem Text.takeBytes_append (s t : Text) : (s ++ t).takeBytes s.byteSize = s := by
  induction s with
  | nil => simp
  | cons c s ih =>
    have hc := c.utf8Size_pos
    rw [Text.byteSize_cons, List.cons_append]
    obtain ⟨n, hn⟩ : ∃ n, c.utf8Size + Text.byteSize s = n + 1 := ⟨_, (Nat.sub_add_cancel (by omega)).symm⟩
    rw [hn, Text.takeBytes, show n + 1 - c.utf8Size = Text.byteSize s by omega, ih]

/-- A span between two boundaries covers the text between them. -/
theorem Text.slice_append (before s after : Text) :
    Text.slice ⟨before.byteSize, before.byteSize + s.byteSize⟩ (before ++ s ++ after) = s := by
  rw [Text.slice, List.append_assoc, Text.dropBytes_append, Nat.add_sub_cancel_left,
    Text.takeBytes_append]

end EntityQuery
