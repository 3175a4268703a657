-- SUMMARY: The items of two lists that differ in values: values of an insertion and assignments.
import EntityQuery.Proofs.Statement.Structure
import EntityQuery.Proofs.Value

/-!
# Items that differ in values

Two texts of a skeleton are the same if no literal is in them, and otherwise
both have a quote. So the items of two lists of values are the same or strings.
An assignment has the same column in both if only literals after its first
equals sign vary.
-/

namespace EntityQuery

/-! ## The same item -/

theorem SameItem.of_quotes {item₁ item₂ : Text} (h₁ : '\'' ∈ item₁) (h₂ : '\'' ∈ item₂) :
    SameItem item₁ item₂ :=
  .inr ⟨h₁, h₂, Value.ofLiteral_of_quote_mem h₁, Value.ofLiteral_of_quote_mem h₂⟩

theorem SameItem.trim {item₁ item₂ : Text} (h : SameItem item₁ item₂) :
    SameItem item₁.trim item₂.trim := by
  obtain ⟨hquote, rfl⟩ | ⟨h₁, h₂, -⟩ := h
  · exact .inl ⟨mt (Text.mem_trim (by decide)).1 hquote, rfl⟩
  · exact .of_quotes ((Text.mem_trim (by decide)).2 h₁) ((Text.mem_trim (by decide)).2 h₂)

theorem SameItem.isEmpty_eq {item₁ item₂ : Text} (h : SameItem item₁ item₂) :
    item₁.isEmpty = item₂.isEmpty := by
  obtain ⟨-, rfl⟩ | ⟨h₁, h₂, -⟩ := h
  · rfl
  · rw [List.isEmpty_eq_false_iff.2 (List.ne_nil_of_mem h₁),
      List.isEmpty_eq_false_iff.2 (List.ne_nil_of_mem h₂)]

namespace Skeleton

theorem quote_mem_text_of_literal {ι : Type} {s : Skeleton ι} {content : ι → Text}
    (h : .literal content ∈ s) (i : ι) : '\'' ∈ text i s :=
  List.mem_flatMap.2 ⟨_, h, .head _⟩

theorem sameItem_append (t : Text) {s : Skeleton Side} (h : s.Proper) :
    SameItem (t ++ text .left s) (t ++ text .right s) := by
  by_cases hquote : '\'' ∈ t
  · exact .of_quotes (List.mem_append_left _ hquote) (List.mem_append_left _ hquote)
  · by_cases hliteral : ∃ content, .literal content ∈ s
    · obtain ⟨content, hmem⟩ := hliteral
      exact .of_quotes (List.mem_append_right _ (quote_mem_text_of_literal hmem _))
        (List.mem_append_right _ (quote_mem_text_of_literal hmem _))
    · have hnone : ∀ slot ∈ s, ∀ i, '\'' ∉ slot.source i := by
        intro slot hslot i
        cases slot with
        | char c => simpa [Slot.source] using (h _ hslot).symm
        | literal content => exact absurd ⟨content, hslot⟩ hliteral
      have heq : text .left s = text .right s :=
        text_eq_of_not_varies fun content hmem => absurd ⟨content, hmem⟩ hliteral
      left
      refine ⟨?_, by rw [heq]⟩
      simp only [List.mem_append, text, List.mem_flatMap, not_or, not_exists, not_and]
      exact ⟨hquote, fun slot hslot => hnone slot hslot _⟩

theorem sameItem_text {s : Skeleton Side} (h : s.Proper) :
    SameItem (text .left s) (text .right s) :=
  sameItem_append [] h

/-! ## Pieces of a list -/

variable {ι : Type}

/-- A list is one piece, or a piece, a comma, and the rest of the list. -/
theorem pieces_cases (s : Skeleton ι) :
    ((∀ slot ∈ s, slot.isComma = false) ∧ s.pieces = [s]) ∨
    ∃ piece comma rest, (∀ slot ∈ piece, slot.isComma = false) ∧ comma.isComma = true ∧
      s = piece ++ comma :: rest ∧ s.pieces = piece :: pieces rest := by
  have hpiece : ∀ slot ∈ s.takeWhile (!·.isComma), slot.isComma = false := by
    intro slot hslot
    simpa using List.mem_takeWhile_imp hslot
  have hs := List.takeWhile_append_dropWhile (p := (!·.isComma)) (l := s)
  cases hrest : s.dropWhile (!·.isComma) with
  | nil =>
    rw [hrest, List.append_nil] at hs
    rw [hs] at hpiece
    exact .inl ⟨hpiece, List.splitOnP_eq_singleton hpiece⟩
  | cons comma rest =>
    have hcomma : comma.isComma = true := by
      have hhead := List.head?_dropWhile_not (!·.isComma) s
      simpa [hrest] using hhead
    rw [hrest] at hs
    have hsplit := List.splitOnP_append_cons_of_forall_mem hpiece comma hcomma rest
    rw [hs] at hsplit
    exact .inr ⟨_, comma, rest, hpiece, hcomma, hs.symm, hsplit⟩

/-- A piece stands between commas or the ends of the list, and has no comma. -/
theorem exists_of_mem_pieces {s piece : Skeleton ι} (h : piece ∈ s.pieces) :
    (∀ slot ∈ piece, slot.isComma = false) ∧
    ∃ before after, s = before ++ piece ++ after ∧
      (before = [] ∨ ∃ rest comma, comma.isComma = true ∧ before = rest ++ [comma]) := by
  generalize hps : s.pieces = ps at h
  induction ps generalizing s with
  | nil => cases h
  | cons first ps ih =>
    obtain ⟨hs, hone⟩ | ⟨start, comma, rest, hstart, hcomma, rfl, hmore⟩ := pieces_cases s
    · rw [hps] at hone
      obtain ⟨rfl, rfl⟩ := List.cons.inj hone
      obtain rfl := List.mem_singleton.1 h
      exact ⟨hs, [], [], by simp, .inl rfl⟩
    · rw [hps] at hmore
      obtain ⟨rfl, rfl⟩ := List.cons.inj hmore
      obtain rfl | h := List.mem_cons.1 h
      · exact ⟨hstart, [], comma :: rest, rfl, .inl rfl⟩
      · obtain ⟨hpiece, before, after, rfl, hbefore⟩ := ih rfl h
        refine ⟨hpiece, first ++ comma :: before, after, by simp, .inr ?_⟩
        obtain rfl | ⟨more, last, hlast, rfl⟩ := hbefore
        · exact ⟨first, comma, hcomma, rfl⟩
        · exact ⟨first ++ comma :: more, last, hlast, by simp⟩

/-- The last piece of a list begins after its last comma. -/
theorem getLast?_pieces {before piece : Skeleton ι}
    (hbefore : before = [] ∨ ∃ rest comma, comma.isComma = true ∧ before = rest ++ [comma])
    (hpiece : ∀ slot ∈ piece, slot.isComma = false) :
    (pieces (before ++ piece)).getLast? = some piece := by
  have hone : pieces piece = [piece] := List.splitOnP_eq_singleton hpiece
  obtain rfl | ⟨rest, comma, hcomma, rfl⟩ := hbefore
  · simp [hone]
  · have hsplit : pieces (rest ++ [comma] ++ piece) = pieces rest ++ pieces piece := by
      rw [List.append_assoc]
      exact List.splitOnP_append_cons rest piece hcomma
    rw [hsplit, hone, List.getLast?_append]
    rfl

/-! ## Where literals of assignments vary -/

/-- Only literals that are values of assignments vary. -/
def VariesInAssignments (s : Skeleton Side) : Prop :=
  ∀ u content v, s = u ++ .literal content :: v → content .left ≠ content .right →
    Statement.endsAfterEquals (text .left u) = true

/-- Only literals after an equals sign vary. -/
def VariesAfterEquals (s : Skeleton Side) : Prop :=
  ∀ u content v, s = u ++ .literal content :: v → content .left ≠ content .right →
    '=' ∈ text .left u

/-- If a list ends after an equals sign, its last piece has one. -/
theorem equals_mem_of_endsAfterEquals {before piece : Skeleton ι} {i : ι}
    (h : Proper (before ++ piece))
    (hbefore : before = [] ∨ ∃ rest comma, comma.isComma = true ∧ before = rest ++ [comma])
    (hpiece : ∀ slot ∈ piece, slot.isComma = false)
    (hends : Statement.endsAfterEquals (text i (before ++ piece)) = true) :
    '=' ∈ text i piece := by
  unfold Statement.endsAfterEquals at hends
  rw [splitList_text h] at hends
  dsimp only at hends
  unfold items at hends
  split at hends
  · cases hends
  · have hlast := getLast?_pieces hbefore hpiece
    rw [List.getLast?_map, List.getLast?_map, hlast] at hends
    have hmem := List.contains_iff_mem.1 hends
    rw [text_trim] at hmem
    exact (Text.mem_trim (by decide)).1 hmem

theorem equals_notMem_of_isBlank {s : Skeleton ι} (h : ∀ slot ∈ s, slot.isBlank = true) (i : ι) :
    '=' ∉ text i s := by
  intro hmem
  obtain ⟨slot, hslot, hmem⟩ := List.mem_flatMap.1 hmem
  have hblank := h slot hslot
  cases slot with
  | literal content => cases hblank
  | char c =>
    obtain rfl := List.mem_singleton.1 hmem
    cases hblank

/-- Each item of assignments varies only after an equals sign of its own. -/
theorem variesAfterEquals_of_mem_items {s item : Skeleton Side} (hs : s.Proper)
    (h : s.VariesInAssignments) (hitem : item ∈ s.items) : item.VariesAfterEquals := by
  unfold items at hitem
  split at hitem
  · cases hitem
  · obtain ⟨piece, hpiece, rfl⟩ := List.mem_map.1 hitem
    obtain ⟨hcomma, before, after, hsplit, hbefore⟩ := exists_of_mem_pieces hpiece
    obtain ⟨blanks, more, hblanks, -, htrim⟩ := exists_trim piece
    intro u content v hu hne
    rw [hu] at htrim
    have hplace : s = (before ++ (blanks ++ u)) ++ .literal content :: (v ++ more ++ after) := by
      rw [hsplit, htrim]
      simp
    have hends := h _ content _ hplace hne
    have hproper : Proper (before ++ (blanks ++ u)) := by
      rw [hplace] at hs
      exact (Proper.append_iff.1 hs).1
    have hpart : ∀ slot ∈ blanks ++ u, slot.isComma = false := by
      intro slot hslot
      refine hcomma slot ?_
      rw [htrim]
      simp only [List.mem_append] at hslot ⊢
      obtain hslot | hslot := hslot
      · exact .inl (.inl hslot)
      · exact .inl (.inr (.inl hslot))
    have hmem := equals_mem_of_endsAfterEquals hproper hbefore hpart hends
    rw [text_append] at hmem
    exact (List.mem_append.1 hmem).resolve_left (equals_notMem_of_isBlank hblanks _)

theorem Proper.of_mem_items {s item : Skeleton ι} (hs : s.Proper) (h : item ∈ s.items) :
    item.Proper := by
  unfold items at h
  split at h
  · cases h
  · obtain ⟨piece, hpiece, rfl⟩ := List.mem_map.1 h
    obtain ⟨-, before, after, rfl, -⟩ := exists_of_mem_pieces hpiece
    exact (Proper.append_iff.1 (Proper.append_iff.1 hs).1).2.trim

end Skeleton

/-! ## Splitting assignments -/

theorem Text.splitFirst_append_of_notMem {mark : Char} {s : Text} (h : mark ∉ s) (t : Text) :
    Text.splitFirst mark (s ++ t) =
      (Text.splitFirst mark t).map fun (before, after) => (s ++ before, after) := by
  induction s with
  | nil => simp
  | cons c s ih =>
    obtain ⟨hc, hs⟩ := not_or.1 (mt List.mem_cons.2 h)
    rw [List.cons_append, Text.splitFirst, if_neg (Ne.symm hc), ih hs, Option.map_map]
    rfl

/-- A text is split at the first place of a character. -/
theorem Text.splitFirst_append_cons {mark : Char} {s : Text} (h : mark ∉ s) (t : Text) :
    Text.splitFirst mark (s ++ mark :: t) = some (s, t) := by
  rw [Text.splitFirst_append_of_notMem h, Text.splitFirst, if_pos rfl]
  simp

theorem Text.splitFirst_append_of_mem {mark : Char} {s : Text} (h : mark ∈ s) :
    ∃ before after, s = before ++ mark :: after ∧
      ∀ t, Text.splitFirst mark (s ++ t) = some (before, after ++ t) := by
  induction s with
  | nil => cases h
  | cons c s ih =>
    by_cases hc : c = mark
    · subst hc
      exact ⟨[], s, rfl, fun t => if_pos rfl⟩
    · obtain ⟨before, after, rfl, hsplit⟩ := ih (List.mem_of_ne_of_mem (Ne.symm hc) h)
      refine ⟨c :: before, after, rfl, fun t => ?_⟩
      rw [List.cons_append, Text.splitFirst, if_neg hc, hsplit t]
      rfl

namespace Skeleton

variable {s : Skeleton Side}

/-- An assignment is split at the same place in both texts, after the same column. The equals sign
    may stand in a literal, and then the rest of that literal starts the value. -/
theorem splitFirst_text (h : s.VariesAfterEquals) :
    (text .left s = text .right s ∧ ∀ i, Text.splitFirst '=' (text i s) = none) ∨
    ∃ column start value, value <:+ s ∧
      ∀ i, Text.splitFirst '=' (text i s) = some (column, start ++ text i value) := by
  induction s with
  | nil => exact .inl ⟨rfl, fun i => rfl⟩
  | cons slot s ih =>
    have hsame : slot.source .left = slot.source .right := by
      cases slot with
      | char c => rfl
      | literal content =>
        by_cases hcontent : content .left = content .right
        · simp [Slot.source, hcontent]
        · cases h [] content s rfl hcontent
    have hsource : ∀ i, slot.source i = slot.source .left := by
      intro i
      cases i
      · rfl
      · exact hsame.symm
    by_cases hmem : '=' ∈ slot.source .left
    · obtain ⟨column, start, -, hsplit⟩ := Text.splitFirst_append_of_mem hmem
      right
      refine ⟨column, start, s, List.suffix_cons _ _, fun i => ?_⟩
      rw [text_cons, hsource i, hsplit]
    · have hrest : VariesAfterEquals s := by
        intro u content v hu hne
        have hequals := h (slot :: u) content v (congrArg (slot :: ·) hu) hne
        rw [text_cons] at hequals
        exact (List.mem_append.1 hequals).resolve_left hmem
      obtain ⟨heq, hnone⟩ | ⟨column, start, value, hvalue, hsplit⟩ := ih hrest
      · left
        refine ⟨by rw [text_cons, text_cons, hsame, heq], fun i => ?_⟩
        rw [text_cons, hsource i, Text.splitFirst_append_of_notMem hmem, hnone i]
        rfl
      · right
        refine ⟨slot.source .left ++ column, start, value, hvalue.trans (List.suffix_cons _ _),
          fun i => ?_⟩
        rw [text_cons, hsource i, Text.splitFirst_append_of_notMem hmem, hsplit i]
        rfl

/-- An assignment is refused in both texts, or it is read in both, with the same column and the
    same value or two strings. -/
theorem readAssignment_text (hs : s.Proper) (h : s.VariesAfterEquals) :
    (∀ i, ∃ fault, Statement.readAssignment (text i s) = .error fault) ∨
    ∃ (column : Text) (value : Side → Text), SameItem (value .left) (value .right) ∧
      ∀ i, Statement.splitAssignment? (text i s) = some (column, value i) ∧
        Statement.readAssignment (text i s) = .ok (column, Value.ofLiteral (value i)) := by
  unfold Statement.readAssignment Statement.splitAssignment?
  obtain ⟨-, hnone⟩ | ⟨column, start, value, hvalue, hsplit⟩ := splitFirst_text h
  · left
    intro i
    rw [hnone i]
    exact ⟨_, rfl⟩
  · have hsame := (sameItem_append start (hs.of_suffix hvalue)).trim
    have hempty : ∀ i, (start ++ text i value).trim.isEmpty =
        (start ++ text .left value).trim.isEmpty := by
      intro i
      cases i
      · rfl
      · exact hsame.isEmpty_eq.symm
    cases hcolumn : column.trim.isEmpty with
    | true =>
      left
      intro i
      simp [hsplit i, hcolumn]
    | false =>
      cases hleft : (start ++ text .left value).trim.isEmpty with
      | true =>
        left
        intro i
        simp [hsplit i, hcolumn, hempty i, hleft]
      | false =>
        right
        refine ⟨column.trim, fun i => (start ++ text i value).trim, hsame, fun i => ?_⟩
        simp [hsplit i, hcolumn, hempty i, hleft]

/-- A list of assignments is refused in both texts, or it is read in both. -/
theorem mapM_readAssignment_text {items : List (Skeleton Side)}
    (h : ∀ item ∈ items, item.Proper ∧ item.VariesAfterEquals) :
    (∀ i, ∃ fault, (items.map (text i)).mapM Statement.readAssignment = .error fault) ∨
    ∃ pairs : Side → List (Text × Text),
      List.Forall₂ (Keyed.Related SameItem) (pairs .left) (pairs .right) ∧
      ∀ i, (items.map (text i)).filterMap Statement.splitAssignment? = pairs i ∧
        (items.map (text i)).mapM Statement.readAssignment =
          .ok ((pairs i).map fun (column, item) => (column, Value.ofLiteral item)) := by
  induction items with
  | nil => exact .inr ⟨fun _ => [], .nil, fun i => ⟨rfl, rfl⟩⟩
  | cons item items ih =>
    obtain ⟨hitem, hitems⟩ := List.forall_mem_cons.1 h
    obtain hfault | ⟨column, value, hsame, hread⟩ := readAssignment_text hitem.1 hitem.2
    · left
      intro i
      obtain ⟨fault, hfault⟩ := hfault i
      simp [List.mapM_cons, hfault, bind, Except.bind]
    · obtain hfault | ⟨pairs, hpairs, hmore⟩ := ih hitems
      · left
        intro i
        obtain ⟨fault, hfault⟩ := hfault i
        simp only [List.map_cons, List.mapM_cons, (hread i).2, hfault, bind, Except.bind]
        exact ⟨_, rfl⟩
      · right
        refine ⟨fun i => (column, value i) :: pairs i, .cons ⟨rfl, hsame⟩ hpairs, fun i => ?_⟩
        obtain ⟨hsplit, hread⟩ := hread i
        obtain ⟨hsplits, hreads⟩ := hmore i
        rw [List.map_cons, List.filterMap_cons_some hsplit, hsplits, List.mapM_cons, hread, hreads]
        exact ⟨rfl, rfl⟩

end Skeleton

end EntityQuery
