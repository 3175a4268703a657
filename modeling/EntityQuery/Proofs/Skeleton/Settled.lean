-- SUMMARY: A filter is a fixed point: taken for a condition it becomes itself.
import EntityQuery.Proofs.Filter.Settled
import EntityQuery.Proofs.Skeleton.Outline

/-!
# Filters taken for conditions

A filter has the literals and commas of its condition, and between them the
rewritten runs. Its own tokens are cut at the same places, so rewriting it
rewrites each of those runs once more, and that changes nothing. The ends of the
first and the last run are trimmed both before and after. A condition with an
unterminated literal is one run, and so is its filter, which has as many quotes.
-/

namespace EntityQuery

variable {ι : Type}

namespace Skeleton

/-! ## Rewriting the runs of a skeleton -/

/-- The skeleton of the filters of conditions, not yet trimmed. -/
def rewrite (s : Skeleton ι) : Skeleton ι :=
  s.lexemes.flatMap Lexeme.filtered

theorem rewrite_append {s t : Skeleton ι}
    (h : (∀ slot ∈ s.getLast?, slot.isRun = false) ∨ ∀ slot ∈ t.head?, slot.isRun = false) :
    rewrite (s ++ t) = s.rewrite ++ t.rewrite := by
  rw [rewrite, lexemes_append h, List.flatMap_append, rewrite, rewrite]

theorem rewrite_map_char {run : Text} (h : ',' ∉ run) :
    rewrite (run.map Slot.char : Skeleton ι) = (Filter.ofRun run).map Slot.char := by
  by_cases hne : run = []
  · subst hne
    rfl
  · rw [rewrite, lexemes_map_char hne h]
    exact List.append_nil _

theorem rewrite_cons {slot : Slot ι} (h : slot.isRun = false) (s : Skeleton ι) :
    rewrite (slot :: s) = slot :: s.rewrite := by
  have hfirst : rewrite [slot] = [slot] := by
    cases slot with
    | char c =>
      obtain rfl : c = ',' := by simpa [Slot.isRun] using h
      rfl
    | literal content => rfl
  rw [← List.singleton_append, rewrite_append (.inl (by simpa using h)), hfirst,
    List.singleton_append]

/-- Runs that have been rewritten stay as they are. -/
theorem rewritten_rewrite (i : ι) (s : Skeleton ι) : rewritten i s.rewrite = rewritten i s := by
  induction hn : s.length using Nat.strong_induction_on generalizing s with
  | h n ih =>
    obtain ⟨run, rest, rfl, hrun, hrest⟩ := exists_run_append s
    have hfilter := Filter.notMem_ofRun rfl hrun
    cases rest with
    | nil =>
      rw [List.append_nil, rewrite_map_char hrun, rewritten_map_char i hfilter,
        rewritten_map_char i hrun, Filter.ofRun_ofRun]
    | cons slot rest =>
      have hslot : slot.isRun = false := hrest slot rfl
      have hone (t : Skeleton ι) : rewritten i (slot :: t) = slot.source i ++ rewritten i t := by
        rw [← List.singleton_append, rewritten_append i (.inl (by simpa using hslot)),
          rewritten_singleton hslot]
      have hmore := ih rest.length (by simp [← hn]; omega) rest rfl
      rw [rewrite_append (.inr hrest), rewrite_map_char hrun, rewrite_cons hslot,
        rewritten_append i (.inr (by simpa using hslot)), rewritten_map_char i hfilter,
        rewritten_append i (.inr hrest), rewritten_map_char i hrun, hone, hone, hmore,
        Filter.ofRun_ofRun]

/-! ## Trimming before and after -/

theorem exists_map_char_of_isBlank {s : Skeleton ι} (h : ∀ slot ∈ s, slot.isBlank = true) :
    ∃ g : Text, g.isBlank = true ∧ s = g.map Slot.char := by
  induction s with
  | nil => exact ⟨[], rfl, rfl⟩
  | cons slot s ih =>
    obtain ⟨hslot, hs⟩ := List.forall_mem_cons.1 h
    obtain ⟨g, hg, rfl⟩ := ih hs
    cases slot with
    | literal content => cases hslot
    | char c => exact ⟨c :: g, Bool.and_eq_true_iff.2 ⟨hslot, hg⟩, rfl⟩

/-- Blanks before a condition do not matter where the start of its filter is trimmed. -/
theorem trimStart_rewritten_append (i : ι) {g : Text} (hg : g.isBlank = true) (s : Skeleton ι) :
    (rewritten i (g.map Slot.char ++ s)).trimStart = (rewritten i s).trimStart := by
  obtain ⟨run, rest, rfl, hrun, hrest⟩ := exists_run_append s
  have hboth : ',' ∉ g ++ run := List.not_mem_append (Text.notMem_of_isBlank hg rfl) hrun
  rw [← List.append_assoc, ← List.map_append, trimStart_append_rewritten i hrest hboth,
    trimStart_append_rewritten i hrest hrun, Filter.trimStart_ofRun_append hg]

/-- Blanks after a condition do not matter where the end of its filter is trimmed. -/
theorem trimEnd_rewritten_blanks (i : ι) {g : Text} (hg : g.isBlank = true) (s : Skeleton ι) :
    (rewritten i (s ++ g.map Slot.char)).trimEnd = (rewritten i s).trimEnd := by
  obtain ⟨rest, run, rfl, hrun, hrest⟩ := exists_append_run s
  have hboth : ',' ∉ run ++ g := List.not_mem_append hrun (Text.notMem_of_isBlank hg rfl)
  rw [List.append_assoc, ← List.map_append, trimEnd_rewritten_append i hrest hboth,
    trimEnd_rewritten_append i hrest hrun, Filter.trimEnd_ofRun_append hg]

theorem trim_rewritten_trim (i : ι) (s : Skeleton ι) :
    (rewritten i s.trim).trim = (rewritten i s).trim := by
  obtain ⟨before, after, hbefore, hafter, hs⟩ := exists_trim s
  obtain ⟨l, hl, rfl⟩ := exists_map_char_of_isBlank hbefore
  obtain ⟨r, hr, rfl⟩ := exists_map_char_of_isBlank hafter
  calc (rewritten i s.trim).trim
      = (rewritten i (s.trim ++ r.map Slot.char)).trim := by
        rw [← Text.trimStart_trimEnd, ← trimEnd_rewritten_blanks i hr, Text.trimStart_trimEnd]
    _ = (rewritten i (l.map Slot.char ++ (s.trim ++ r.map Slot.char))).trim := by
        rw [Text.trim, ← trimStart_rewritten_append i hl, ← Text.trim]
    _ = (rewritten i s).trim := by rw [← List.append_assoc, ← hs]

end Skeleton

namespace Filter

open Skeleton

/-! ## Fixed points -/

/-- A condition with an unterminated literal is one run. -/
theorem ofCondition_of_not_quotesClosed {t : Text} (h : ¬ t.QuotesClosed) :
    ofCondition t = (ofRun t).trim := by
  obtain ⟨before, content, rfl, hbefore, hcontent⟩ := Text.exists_unterminated h
  obtain ⟨s, hs, rfl⟩ := exists_outline hbefore
  have hread := Lexer.readAll_unterminated 0 (canonical_tokens () hs) hcontent
  rw [sources_tokens] at hread
  simp [ofCondition, tokenize, Lexer.start, hread]

theorem quotesClosed_trim_ofRun {t : Text} : (ofRun t).trim.QuotesClosed ↔ t.QuotesClosed := by
  obtain ⟨l, r, hl, hr, heq⟩ := Text.exists_eq_append_trim (ofRun t)
  have hblank {g : Text} (hg : g.isBlank = true) : g.count '\'' = 0 :=
    List.count_eq_zero.2 (Text.notMem_of_isBlank hg (by decide))
  have hcount := count_ofRun (x := '\'') (by decide) t
  rw [heq, List.count_append, List.count_append, hblank hl, hblank hr] at hcount
  rw [Text.QuotesClosed, Text.QuotesClosed, ← hcount]
  simp

/-- The filter of a condition stays as it is when it is taken for a condition. -/
theorem ofCondition_ofCondition (condition : Text) :
    ofCondition (ofCondition condition) = ofCondition condition := by
  by_cases h : condition.QuotesClosed
  · obtain ⟨s, hs, rfl⟩ := exists_outline h
    calc ofCondition (ofCondition (text () s))
        = ofCondition (text () s.filtered) := by rw [ofCondition_text hs]
      _ = (rewritten () s.filtered).trim := ofCondition_eq_trim hs.filtered ()
      _ = (rewritten () s.rewrite).trim := trim_rewritten_trim () s.rewrite
      _ = (rewritten () s).trim := by rw [rewritten_rewrite]
      _ = ofCondition (text () s) := (ofCondition_eq_trim hs ()).symm
  · rw [ofCondition_of_not_quotesClosed h,
      ofCondition_of_not_quotesClosed (mt quotesClosed_trim_ofRun.1 h), trim_ofRun_trim, ofRun_ofRun]

/-- A filter has no blanks at its ends. -/
theorem trim_ofCondition (condition : Text) : (ofCondition condition).trim = ofCondition condition := by
  unfold ofCondition
  split <;> exact Text.trim_trim _

end Filter

end EntityQuery
