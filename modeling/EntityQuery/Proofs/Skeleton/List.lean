-- SUMMARY: Skeletons of trimmed texts and of the items of a list.
import EntityQuery.Proofs.Skeleton.Basic
import EntityQuery.Proofs.Text.Blank

/-!
# Trimming and lists

Blanks are trimmed from all the texts of a skeleton alike, since a literal is no
blank, and a list has its commas at the same places in all of them, since a
comma inside a literal is no separator.
-/

namespace EntityQuery.Skeleton

variable {ι : Type}

/-! ## Trimming -/

/-- A skeleton without the blanks at its start. -/
def trimStart (s : Skeleton ι) : Skeleton ι :=
  s.dropWhile Slot.isBlank

/-- A skeleton without the blanks at its end. -/
def trimEnd (s : Skeleton ι) : Skeleton ι :=
  (s.reverse.dropWhile Slot.isBlank).reverse

/-- A skeleton without the blanks at either end. -/
def trim (s : Skeleton ι) : Skeleton ι :=
  s.trimStart.trimEnd

/-- Blanks are dropped alike from texts that are written slot by slot, if literals start with a
    quote. -/
theorem dropWhile_isBlank_flatMap {write : Slot ι → Text} (hchar : ∀ c, write (.char c) = [c])
    (hliteral : ∀ content, ∃ t, write (.literal content) = '\'' :: t) (s : Skeleton ι) :
    (s.flatMap write).dropWhile isBlank = (s.dropWhile Slot.isBlank).flatMap write := by
  induction s with
  | nil => rfl
  | cons slot s ih =>
    cases slot with
    | literal content =>
      obtain ⟨t, ht⟩ := hliteral content
      simp [ht, Slot.isBlank, show isBlank '\'' = false from rfl]
    | char c =>
      cases hc : isBlank c with
      | true => simpa [hchar, Slot.isBlank, hc] using ih
      | false => simp [hchar, Slot.isBlank, hc]

theorem text_trimStart (i : ι) (s : Skeleton ι) : text i s.trimStart = (text i s).trimStart :=
  (dropWhile_isBlank_flatMap (fun _ => rfl) (fun _ => ⟨_, rfl⟩) s).symm

theorem masked_trimStart (i : ι) (s : Skeleton ι) :
    masked i s.trimStart = (masked i s).trimStart :=
  (dropWhile_isBlank_flatMap (fun _ => rfl) (fun _ => ⟨_, rfl⟩) s).symm

theorem text_trimEnd (i : ι) (s : Skeleton ι) : text i s.trimEnd = (text i s).trimEnd := by
  have hrev : ∀ t : Skeleton ι,
      (text i t).reverse = t.reverse.flatMap fun slot => (slot.source i).reverse := by
    intro t
    simp [text, List.reverse_flatMap, Function.comp_def]
  let write : Slot ι → Text := fun slot => (slot.source i).reverse
  have hliteral : ∀ content, ∃ t, write (.literal content) = '\'' :: t := by
    intro content
    exact ⟨(content i).reverse ++ ['\''], by simp [write, Slot.source]⟩
  have hdrop := dropWhile_isBlank_flatMap (fun _ => rfl) hliteral s.reverse
  rw [Text.trimEnd, hrev, hdrop, ← List.reverse_inj, List.reverse_reverse, hrev, trimEnd,
    List.reverse_reverse]

theorem text_trim (i : ι) (s : Skeleton ι) : text i s.trim = (text i s).trim := by
  rw [trim, text_trimEnd, text_trimStart, Text.trim]

/-- What is trimmed from the start is blank. -/
theorem eq_append_trimStart (s : Skeleton ι) :
    ∃ blanks : Skeleton ι, (∀ slot ∈ blanks, slot.isBlank = true) ∧ s = blanks ++ s.trimStart :=
  ⟨s.takeWhile Slot.isBlank, fun _ hslot => List.mem_takeWhile_imp hslot,
    List.takeWhile_append_dropWhile.symm⟩

theorem eq_trimEnd_append (s : Skeleton ι) :
    ∃ blanks : Skeleton ι, (∀ slot ∈ blanks, slot.isBlank = true) ∧ s = s.trimEnd ++ blanks := by
  obtain ⟨blanks, hblank, hs⟩ := eq_append_trimStart s.reverse
  refine ⟨blanks.reverse, fun slot hslot => hblank slot (List.mem_reverse.1 hslot), ?_⟩
  have hrev := congrArg List.reverse hs
  rwa [List.reverse_reverse, List.reverse_append] at hrev

/-- Blanks and nothing else are trimmed. -/
theorem exists_trim (s : Skeleton ι) :
    ∃ before after : Skeleton ι, (∀ slot ∈ before, slot.isBlank = true) ∧
      (∀ slot ∈ after, slot.isBlank = true) ∧ s = before ++ s.trim ++ after := by
  obtain ⟨before, hbefore, hs⟩ := eq_append_trimStart s
  obtain ⟨after, hafter, ht⟩ := eq_trimEnd_append s.trimStart
  refine ⟨before, after, hbefore, hafter, ?_⟩
  rw [trim, List.append_assoc, ← ht, ← hs]

theorem Proper.trim {s : Skeleton ι} (h : s.Proper) : s.trim.Proper := by
  obtain ⟨before, after, -, -, hs⟩ := exists_trim s
  rw [hs, Proper.append_iff, Proper.append_iff] at h
  exact h.1.2

/-! ## Items -/

/-- The items of a list, with commas between them. -/
def pieces (s : Skeleton ι) : List (Skeleton ι) :=
  s.splitOnP Slot.isComma

/-- The items of a list, trimmed. A blank list has none. -/
def items (s : Skeleton ι) : List (Skeleton ι) :=
  if s.trim.isEmpty then [] else s.pieces.map trim

theorem map_modifyHead {α β : Type} {f : α → α} {g : β → β} {h : α → β}
    (hfg : ∀ a, h (f a) = g (h a)) (l : List α) :
    (l.modifyHead f).map h = (l.map h).modifyHead g := by
  cases l with
  | nil => rfl
  | cons a l => simp [hfg]

/-- The pieces of a list are those that its tokens are cut into. -/
theorem map_sources_splitOn_tokens (i : ι) (s : Skeleton ι) :
    ((tokens i s).splitOn .comma).map Token.sources = s.pieces.map (text i) := by
  -- A slot that is no comma goes to the first piece, whether its token is new or not.
  have hfirst : ∀ (token : Token) (tokens : List Token), token ≠ .comma →
      ((token :: tokens).splitOn .comma).map Token.sources =
        ((tokens.splitOn .comma).map Token.sources).modifyHead (token.source ++ ·) := by
    intro token tokens hne
    rw [List.splitOn_cons_eq_if_modifyHead, if_neg (by simpa using hne)]
    exact map_modifyHead (f := List.cons token) (g := (token.source ++ ·)) (fun _ => rfl) _
  have hpiece : ∀ (slot : Slot ι) (s : Skeleton ι), slot.isComma = false →
      (pieces (slot :: s)).map (text i) =
        ((pieces s).map (text i)).modifyHead (slot.source i ++ ·) := by
    intro slot s hc
    rw [pieces, List.splitOnP_cons_eq_if_modifyHead, if_neg (by simp [hc])]
    exact map_modifyHead (f := List.cons slot) (g := (slot.source i ++ ·)) (fun _ => rfl) _
  induction s with
  | nil => rfl
  | cons slot s ih =>
    cases slot with
    | literal content =>
      rw [tokens_literal, hfirst _ _ (by simp), hpiece _ _ rfl, ih]
      rfl
    | char c =>
      by_cases hc : c = ','
      · subst hc
        simpa [pieces, List.splitOn_cons_eq_if_modifyHead, List.splitOnP_cons_eq_if_modifyHead,
          Slot.isComma] using ih
      · rw [hpiece _ _ (by simpa [Slot.isComma] using hc), ← ih]
        obtain ⟨t, rest, hs, hcons⟩ | ⟨-, hcons⟩ := tokens_char i hc s
        · rw [hcons, hs, hfirst _ _ (by simp), hfirst _ _ (by simp), List.modifyHead_modifyHead]
          rfl
        · rw [hcons, hfirst _ _ (by simp)]
          rfl

theorem isEmpty_trim (i : ι) (s : Skeleton ι) : s.trim.isEmpty = (text i s).isBlank := by
  rw [Bool.eq_iff_iff, List.isEmpty_iff, ← text_eq_nil_iff i, text_trim, Text.trim_eq_nil_iff]

/-- A list is split into its items, with the same commas in all texts. -/
theorem splitList_text {s : Skeleton ι} (h : s.Proper) (i : ι) :
    splitList (text i s) = .ok (s.items.map (text i)) := by
  unfold splitList items
  rw [Text.isEmpty_trim, isEmpty_trim i]
  split
  · rfl
  · have hp := map_sources_splitOn_tokens i s
    rw [tokenize_text h i]
    simp only [bind, Except.bind, Except.ok.injEq]
    calc ((tokens i s).splitOn .comma).map (fun item => (Token.sources item).trim)
        = (((tokens i s).splitOn .comma).map Token.sources).map Text.trim := by simp
      _ = (s.pieces.map trim).map (text i) := by rw [hp]; simp [text_trim]

end EntityQuery.Skeleton

namespace EntityQuery

theorem splitList_of_isBlank {t : Text} (ht : t.isBlank = true) : splitList t = .ok [] := by
  rw [splitList, Text.isEmpty_trim, if_pos ht]

end EntityQuery
