-- SUMMARY: Assignments as they are written: each is read back as its column and the value of its literal.
import EntityQuery.Proofs.Statement.Item
import EntityQuery.Proofs.Statement.Joined
import EntityQuery.Proofs.Statement.Literal

/-!
# Assignments as they are written

A column and its literal are written with an equals sign between them, and
assignments with commas between them. What is read from such a list are the
columns with their values, whatever the texts in quotes are.
-/

namespace EntityQuery

/-- A column and the literal for its value. -/
structure Assignment where
  column : Text
  literal : Literal

namespace Assignment

/-- How an assignment is written. -/
def marks (a : Assignment) : List Mark :=
  [.text a.column, .space, .text "=".toList, .space] ++ a.literal.marks

/-- Whether an assignment can be written: its column is an identifier, and not the keyword that
    ends the list. -/
@[mk_iff] structure Valid (a : Assignment) : Prop where
  isIdentifier : a.column.isIdentifier = true
  notWhere : a.column.sameWord "where".toList = false
  literal : a.literal.Valid

instance (a : Assignment) : Decidable a.Valid :=
  decidable_of_iff' _ (valid_iff a)

/-- The column and the value of an assignment. -/
def pair (a : Assignment) : Text × Value :=
  (a.column, a.literal.value)

open Statement

variable {a : Assignment} {u : Text}

theorem Valid.isBody_column (ha : a.Valid) :
    a.column.IsPlain ∧ IsBody ["where".toList] a.column := by
  have hplain := Text.isPlain_of_isIdentifier ha.isIdentifier
  have hwhere := map_foldCase_ne (by decide) ha.notWhere
  exact ⟨hplain, hplain.isBody (by simpa using hwhere)⟩

/-- A column and a literal are written like a list of the two. -/
theorem exists_literal (h : Written a.marks u) :
    ∃ t, Written a.literal.marks t ∧ Joined '=' [a.column, t] u := by
  obtain ⟨_, _, rfl, rfl, l, _, rfl, hl, _, _, rfl, rfl, r, t, rfl, hr, ht⟩ := h
  exact ⟨t, ht, .cons (l := l) (r := r) a.column hl hr (.single t)⟩

/-- An assignment keeps a list of assignments together. -/
theorem Valid.isBody (ha : a.Valid) (h : Written a.marks u) :
    u.QuotesClosed ∧ IsBody ["where".toList] (mask u) ∧ ',' ∉ mask u := by
  obtain ⟨t, ht, hjoined⟩ := exists_literal h
  obtain ⟨hplain, hcolumn⟩ := ha.isBody_column
  obtain ⟨htclosed, hliteral, hcomma, hequals⟩ := Literal.isBody_of_written ha.literal ht
  have hclosed := Text.quotesClosed_of_notMem hplain.quote_notMem
  obtain ⟨huclosed, hmasked⟩ := hjoined.masked (by decide) (by simp [hclosed, htclosed])
  simp only [List.map_cons, List.map_nil, mask_of_notMem hplain.quote_notMem] at hmasked
  refine ⟨huclosed, ?_, ?_⟩
  · exact hmasked.isBody (by decide) (by decide) (by decide) <| List.forall_mem_cons.2
      ⟨⟨hcolumn, hplain.equals_notMem⟩, List.forall_mem_singleton.2 ⟨hliteral, hequals⟩⟩
  · exact hmasked.notMem rfl (by decide) (by simp [hplain.comma_notMem, hcomma])

/-- A column and a value are read at the equals sign between them. -/
theorem readAssignment_append {column l r value : Text} (hcolumn : column.IsPlain)
    (hl : l.isBlank = true) (hr : r.isBlank = true) (hne : value ≠ [])
    (htrim : value.trim = value) :
    readAssignment (column ++ (l ++ '=' :: (r ++ value))) =
      .ok (column, Value.ofLiteral value) := by
  have hsplit : Text.splitFirst '=' (column ++ (l ++ '=' :: (r ++ value))) =
      some (column ++ l, r ++ value) := by
    have hbefore : '=' ∉ column ++ l := by
      have hblank : '=' ∉ l := Text.notMem_of_isBlank hl rfl
      simp [hcolumn.equals_notMem, hblank]
    rw [← List.append_assoc, Text.splitFirst_append_cons hbefore]
  have hfirst := Text.trim_append_of_isBlank (rfl : Text.isBlank [] = true) hl column
  have hlast := Text.trim_append_of_isBlank hr (rfl : Text.isBlank [] = true) value
  rw [List.nil_append, hcolumn.trim_eq] at hfirst
  rw [List.append_nil, htrim] at hlast
  rw [readAssignment]
  simp [hsplit, hfirst, hlast, hcolumn.1, hne]

theorem Valid.readAssignment (ha : a.Valid) (h : Written a.marks u) :
    readAssignment u = .ok a.pair := by
  obtain ⟨_, _, rfl, rfl, l, _, rfl, hl, _, _, rfl, rfl, r, t, rfl, hr, ht⟩ := h
  obtain ⟨hne, htrim⟩ := Literal.trim_of_written ha.literal ht
  refine (readAssignment_append ha.isBody_column.1 hl hr hne htrim).trans ?_
  rw [Literal.ofLiteral_of_written ha.literal ht]
  rfl

end Assignment

namespace Statement

/-- A list of assignments is read assignment by assignment. -/
theorem readAssignments_of_written {as : List Assignment} (hne : as ≠ [])
    (has : ∀ a ∈ as, a.Valid) {t : Text} (h : Written (Mark.list (as.map Assignment.marks)) t) :
    t.QuotesClosed ∧ IsBody ["where".toList] (mask t) ∧ ∃ items, splitList t = .ok items ∧
      items.mapM readAssignment = .ok (as.map Assignment.pair) := by
  obtain ⟨us, hus, hjoined⟩ := exists_joined (by simpa using hne) h
  obtain ⟨hread, hall⟩ := mapM_of_forall₂_written hus fun a ha _ hu =>
    ⟨(has a ha).readAssignment hu, (has a ha).isBody hu⟩
  obtain ⟨hclosed, hbody, hsplit⟩ := hjoined.splitList_of_isBody (by decide) hall
  exact ⟨hclosed, hbody, us, by simpa using hsplit [] [] rfl rfl, hread⟩

end Statement

end EntityQuery
