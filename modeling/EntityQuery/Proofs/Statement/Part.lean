-- SUMMARY: Parts of two statements: read at their places, and the same unless values are in them.
import EntityQuery.Proofs.Skeleton.Shape
import EntityQuery.Proofs.Statement.Item

/-!
# Parts of statements

A part that was found in a masked statement is read from the statement itself
without its neighbours. The parts of a statement stand apart from each other,
so a part without values in it is the same in two statements that differ in
values only.
-/

namespace EntityQuery

open Skeleton

variable {ι : Type}

/-! ## Reading a part -/

theorem Part.byteSize_text_start (i : ι) (p : Part ι) :
    (text i p.start).byteSize = (text i p.body).byteSize + (text i p.after).byteSize := by
  rw [Part.start, text_append, Text.byteSize_append]

theorem Part.span_extent (i : ι) (p : Part ι) (s : Skeleton ι) :
    (p.extent i).span (masked i s) =
      ⟨(text i s).byteSize - (text i p.start).byteSize,
        (text i s).byteSize - (text i p.after).byteSize⟩ := by
  simp only [Part.extent, Statement.Extent.span, byteSize_masked]

theorem Part.span_extent_append (i : ι) (p : Part ι) (before : Skeleton ι) :
    (p.extent i).span (masked i (before ++ p.start)) =
      ⟨(text i before).byteSize, (text i before).byteSize + (text i p.body).byteSize⟩ := by
  rw [span_extent, text_append, Text.byteSize_append, byteSize_text_start, Span.mk.injEq]
  omega

theorem readPart_extent_of_mask {s : Skeleton ι} {p : Part ι} {i : ι}
    (hmask : mask (text i s) = masked i s) (hp : p.start <:+ s) :
    Statement.readPart (text i s) (p.extent i) = text i p.body := by
  obtain ⟨before, rfl⟩ := hp
  rw [Statement.readPart, hmask, Part.span_extent_append, Part.start, text_append,
    text_append, ← List.append_assoc, Text.slice_append]

theorem readPart_extent {s : Skeleton ι} {p : Part ι} (hs : s.Proper) (hp : p.start <:+ s)
    (i : ι) : Statement.readPart (text i s) (p.extent i) = text i p.body :=
  readPart_extent_of_mask (mask_text hs i) hp

/-- The name of an entity is read from the mask, where it is as in the text. -/
theorem Name.text_extent (i : ι) (n : Name ι) : (n.part.extent i).text = n.text := by
  simp [Statement.Extent.text, Part.extent, Part.start, Name.part]

/-! ## Parts stand apart -/

theorem Arranged.start_suffix {s : Skeleton ι} {ps : List (Part ι)} (h : Arranged s ps) :
    ∀ p ∈ ps, p.start <:+ s := by
  induction ps generalizing s with
  | nil => simp
  | cons first ps ih =>
    obtain ⟨hfirst, hps⟩ := h
    have hafter : first.after <:+ s := (List.suffix_append _ _).trans hfirst
    exact List.forall_mem_cons.2 ⟨hfirst, fun p hp => (ih hps p hp).trans hafter⟩

theorem Arranged.pairwise {s : Skeleton ι} {ps : List (Part ι)} (h : Arranged s ps) :
    ps.Pairwise fun p q => q.start <:+ p.after := by
  induction ps generalizing s with
  | nil => exact .nil
  | cons first ps ih =>
    obtain ⟨-, hps⟩ := h
    exact .cons hps.start_suffix (ih hps)

theorem byteSize_text_le_of_suffix {s t : Skeleton ι} (h : s <:+ t) (i : ι) :
    (text i s).byteSize ≤ (text i t).byteSize := by
  obtain ⟨before, rfl⟩ := h
  rw [text_append, Text.byteSize_append]
  exact Nat.le_add_left _ _

/-- No place in a part is in another part. -/
theorem Part.isIn_eq_false {s : Skeleton ι} {p q : Part ι} {i : ι} {place : Span}
    (hq : q.start <:+ s) (hapart : q.start <:+ p.after ∨ p.start <:+ q.after)
    (hstart : (text i s).byteSize - (text i p.start).byteSize ≤ place.start)
    (hstop : place.stop ≤ (text i s).byteSize - (text i p.after).byteSize)
    (hplace : place.start < place.stop) :
    place.isIn ((q.extent i).span (masked i s)) = false := by
  rw [q.span_extent i s, Span.isIn, decide_eq_false_iff_not]
  intro ⟨hleft, hright⟩
  dsimp only at hleft hright
  have hsize := byteSize_text_le_of_suffix hq i
  have hp := p.byteSize_text_start i
  have hbody := q.byteSize_text_start i
  obtain h | h := hapart
  · have hle := byteSize_text_le_of_suffix h i
    omega
  · have hle := byteSize_text_le_of_suffix h i
    omega

/-! ## Parts of two statements -/

variable {free : Span → Prop} {s : Skeleton Side} {qs : List (Part Side)}

/-- A literal that varies in a part is at a free place that is in no other part. -/
theorem exists_free_of_varies {p : Part Side} (h : s.VariesOnly free 0) (hp : p.start <:+ s)
    (hqs : ∀ q ∈ qs, q.start <:+ s ∧ (q.start <:+ p.after ∨ p.start <:+ q.after))
    {u v : Skeleton Side} {content : Side → Text} (hbody : p.body = u ++ .literal content :: v)
    (hne : content .left ≠ content .right) :
    ∃ place, free place ∧
      (text .left s).slice ⟨((p.extent .left).span (masked .left s)).start, place.start⟩ =
        text .left u ∧
      ∀ q ∈ qs, place.isIn ((q.extent .left).span (masked .left s)) = false := by
  obtain ⟨before, rfl⟩ := hp
  have hfree := h (before ++ u) content (v ++ p.after) (by simp [Part.start, hbody]) hne
  refine ⟨_, hfree, ?_, fun q hq => ?_⟩
  · rw [Part.span_extent_append]
    simp only [Part.start, hbody, text_append, Text.byteSize_append, Nat.zero_add,
      ← List.append_assoc]
    rw [List.append_assoc, Text.slice_append]
  · obtain ⟨hq, hapart⟩ := hqs q hq
    have hquoted := Char.utf8Size_pos '\''
    refine Part.isIn_eq_false hq hapart ?_ ?_ ?_ <;>
      simp only [Part.start, hbody, text_append, text_cons, Text.byteSize_append, Slot.source,
        Text.quoted, Text.byteSize_cons, List.cons_append] <;> omega

/-- A part with no values in it is the same in both statements. -/
theorem text_body_eq {p : Part Side} (h : s.VariesOnly free 0) (hp : p.start <:+ s)
    (hfree : ∀ place, free place →
      ∃ q ∈ qs, place.isIn ((q.extent .left).span (masked .left s)) = true)
    (hqs : ∀ q ∈ qs, q.start <:+ s ∧ (q.start <:+ p.after ∨ p.start <:+ q.after)) :
    text .left p.body = text .right p.body := by
  refine text_eq_of_not_varies fun content hmem => ?_
  by_cases hne : content .left = content .right
  · exact hne
  · obtain ⟨u, v, hbody⟩ := List.append_of_mem hmem
    obtain ⟨place, hplace, -, hnot⟩ := exists_free_of_varies h hp hqs hbody hne
    obtain ⟨q, hq, hin⟩ := hfree place hplace
    rw [hnot q hq] at hin
    cases hin

/-- In assignments only the literals that are values vary. -/
theorem variesInAssignments_body {p : Part Side} (h : s.VariesOnly free 0) (hp : p.start <:+ s)
    (hfree : ∀ place, free place →
      (∃ q ∈ qs, place.isIn ((q.extent .left).span (masked .left s)) = true) ∨
      Statement.endsAfterEquals ((text .left s).slice
        ⟨((p.extent .left).span (masked .left s)).start, place.start⟩) = true)
    (hqs : ∀ q ∈ qs, q.start <:+ s ∧ (q.start <:+ p.after ∨ p.start <:+ q.after)) :
    p.body.VariesInAssignments := by
  intro u content v hbody hne
  obtain ⟨place, hplace, hslice, hnot⟩ := exists_free_of_varies h hp hqs hbody hne
  obtain ⟨q, hq, hin⟩ | hends := hfree place hplace
  · rw [hnot q hq] at hin
    cases hin
  · rwa [hslice] at hends

end EntityQuery
