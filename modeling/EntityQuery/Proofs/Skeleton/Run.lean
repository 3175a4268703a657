-- SUMMARY: Runs at the ends of skeletons, and filters of texts that are cut where a run ends.
import EntityQuery.Proofs.Filter.Operator
import EntityQuery.Proofs.Skeleton.Filter

/-!
# Runs at the ends of skeletons

Tokens of a text are those of its pieces if the text is cut next to a comma or
a literal. Every text can be cut there: before the run that it ends with, and
after the run that it starts with.
-/

namespace EntityQuery

variable {ι : Type}

/-- Whether a place belongs to a run of text. -/
def Slot.isRun : Slot ι → Bool
  | char c => c != ','
  | literal _ => false

/-- There is nothing to trim at a comma or a literal. -/
theorem Slot.trim_source {slot : Slot ι} (h : slot.isRun = false) (i : ι) :
    Text.isBlank (slot.source i) = false ∧ Text.trimStart (slot.source i) = slot.source i ∧
      Text.trimEnd (slot.source i) = slot.source i := by
  cases slot with
  | char c =>
    obtain rfl : c = ',' := by simpa [isRun] using h
    exact ⟨rfl, rfl, rfl⟩
  | literal content =>
    refine ⟨rfl, rfl, Text.trimEnd_of_getLast? fun c hc => ?_⟩
    rw [source, List.getLast?_concat] at hc
    cases hc
    rfl

namespace Lexeme

theorem consChar_append (c : Char) {lexemes : List (Lexeme ι)} (h : lexemes ≠ [])
    (more : List (Lexeme ι)) : consChar c (lexemes ++ more) = consChar c lexemes ++ more := by
  rcases lexemes with _ | ⟨_ | _ | _, lexemes⟩
  · exact absurd rfl h
  all_goals rfl

theorem consChar_ne_nil (c : Char) (lexemes : List (Lexeme ι)) : consChar c lexemes ≠ [] := by
  rcases lexemes with _ | ⟨_ | _ | _, lexemes⟩ <;> exact List.cons_ne_nil _ _

end Lexeme

namespace Skeleton

/-! ## Cutting at a run -/

/-- The run that a skeleton starts with, and what follows it. -/
theorem exists_run_append (s : Skeleton ι) : ∃ (run : Text) (rest : Skeleton ι),
    s = run.map Slot.char ++ rest ∧ ',' ∉ run ∧ ∀ slot ∈ rest.head?, slot.isRun = false := by
  induction s with
  | nil => exact ⟨[], [], rfl, by simp, by simp⟩
  | cons slot s ih =>
    cases slot with
    | literal content => exact ⟨[], .literal content :: s, rfl, by simp, by simp [Slot.isRun]⟩
    | char c =>
      by_cases hc : c = ','
      · exact ⟨[], .char c :: s, rfl, by simp, by simp [Slot.isRun, hc]⟩
      · obtain ⟨run, rest, rfl, hrun, hrest⟩ := ih
        exact ⟨c :: run, rest, rfl, by simp [hrun, Ne.symm hc], hrest⟩

/-- The run that a skeleton ends with, and what comes before it. -/
theorem exists_append_run (s : Skeleton ι) : ∃ (rest : Skeleton ι) (run : Text),
    s = rest ++ run.map Slot.char ∧ ',' ∉ run ∧ ∀ slot ∈ rest.getLast?, slot.isRun = false := by
  obtain ⟨run, rest, hs, hrun, hrest⟩ := exists_run_append s.reverse
  refine ⟨rest.reverse, run.reverse, ?_, by simpa using hrun, by simpa using hrest⟩
  rw [← List.reverse_reverse s, hs, List.reverse_append, List.map_reverse]

theorem lexemes_eq_nil_iff {s : Skeleton ι} : lexemes s = [] ↔ s = [] := by
  rcases s with _ | ⟨c | content, s⟩
  · simp [lexemes]
  · by_cases hc : c = ',' <;> simp [lexemes, hc, Lexeme.consChar_ne_nil]
  · simp [lexemes]

/-- Next to a comma or a literal no run goes on. -/
theorem lexemes_append {s t : Skeleton ι}
    (h : (∀ slot ∈ s.getLast?, slot.isRun = false) ∨ ∀ slot ∈ t.head?, slot.isRun = false) :
    lexemes (s ++ t) = lexemes s ++ lexemes t := by
  induction s with
  | nil => rfl
  | cons slot s ih =>
    have hs : (∀ slot ∈ s.getLast?, slot.isRun = false) ∨ ∀ slot ∈ t.head?, slot.isRun = false := by
      refine h.imp_left fun h slot hslot => h slot ?_
      cases s with
      | nil => cases hslot
      | cons next s => simpa [List.getLast?_cons_cons] using hslot
    cases slot with
    | literal content => exact congrArg (_ :: ·) (ih hs)
    | char c =>
      by_cases hc : c = ','
      · simp only [List.cons_append, lexemes, if_pos hc, ih hs]
      · simp only [List.cons_append, lexemes, if_neg hc, ih hs]
        by_cases hnil : s = []
        · subst hnil
          obtain h | h := h
          · simp [Slot.isRun, hc] at h
          -- The text ends with the character, and no run follows it.
          rcases t with _ | ⟨d | content, t⟩
          · rfl
          · obtain rfl : d = ',' := by simpa [Slot.isRun] using h
            rfl
          · rfl
        · exact Lexeme.consChar_append c (mt lexemes_eq_nil_iff.1 hnil) _

theorem lexemes_map_char {run : Text} (hne : run ≠ []) (h : ',' ∉ run) :
    lexemes (run.map Slot.char : Skeleton ι) = [.run run] := by
  induction run with
  | nil => exact absurd rfl hne
  | cons c run ih =>
    obtain ⟨hc, hrun⟩ := not_or.1 (mt List.mem_cons.2 h)
    rw [List.map_cons, lexemes, if_neg (Ne.symm hc)]
    cases run with
    | nil => rfl
    | cons d run => rw [ih (List.cons_ne_nil d run) hrun]; rfl

/-! ## Rewriting -/

/-- The filter of a text, not yet trimmed. -/
def rewritten (i : ι) (s : Skeleton ι) : Text :=
  (tokens i s).flatMap Filter.ofToken

theorem ofCondition_eq_trim {s : Skeleton ι} (h : s.Proper) (i : ι) :
    Filter.ofCondition (text i s) = (rewritten i s).trim := by
  rw [Filter.ofCondition, tokenize_text h, rewritten]

theorem rewritten_append (i : ι) {s t : Skeleton ι}
    (h : (∀ slot ∈ s.getLast?, slot.isRun = false) ∨ ∀ slot ∈ t.head?, slot.isRun = false) :
    rewritten i (s ++ t) = rewritten i s ++ rewritten i t := by
  simp [rewritten, tokens, lexemes_append h]

theorem rewritten_map_char (i : ι) {run : Text} (h : ',' ∉ run) :
    rewritten i (run.map Slot.char) = Filter.ofRun run := by
  by_cases hne : run = []
  · subst hne
    rfl
  · simp [rewritten, tokens, lexemes_map_char hne h, Lexeme.token, Filter.ofToken]

/-- A comma and a literal are kept as they are. -/
theorem rewritten_singleton {slot : Slot ι} (h : slot.isRun = false) (i : ι) :
    rewritten i [slot] = slot.source i := by
  cases slot with
  | char c =>
    obtain rfl : c = ',' := by simpa [Slot.isRun] using h
    rfl
  | literal content => exact List.append_nil _

/-- Before a run there is nothing to trim. -/
theorem trimEnd_rewritten_append (i : ι) {s : Skeleton ι}
    (hs : ∀ slot ∈ s.getLast?, slot.isRun = false) {run : Text} (hrun : ',' ∉ run) :
    (rewritten i (s ++ run.map Slot.char)).trimEnd =
      rewritten i s ++ (Filter.ofRun run).trimEnd := by
  have hlast : (rewritten i s).trimEnd = rewritten i s := by
    obtain rfl | ⟨s, slot, rfl⟩ := List.eq_nil_or_concat s
    · rfl
    · rw [List.concat_eq_append] at hs ⊢
      have hslot : slot.isRun = false := hs slot (by simp)
      obtain ⟨hblank, -, hend⟩ := Slot.trim_source hslot i
      rw [rewritten_append i (.inr (by simpa using hslot)), rewritten_singleton hslot,
        Text.trimEnd_append_of_not_isBlank hblank, hend]
  rw [rewritten_append i (.inl hs), rewritten_map_char i hrun]
  cases hblank : (Filter.ofRun run).isBlank with
  | true =>
    rw [Text.trimEnd_append_of_isBlank hblank, hlast, Text.trimEnd_eq_nil_iff.2 hblank,
      List.append_nil]
  | false => rw [Text.trimEnd_append_of_not_isBlank hblank]

/-- After a run there is nothing to trim. -/
theorem trimStart_append_rewritten (i : ι) {s : Skeleton ι}
    (hs : ∀ slot ∈ s.head?, slot.isRun = false) {run : Text} (hrun : ',' ∉ run) :
    (rewritten i (run.map Slot.char ++ s)).trimStart =
      (Filter.ofRun run).trimStart ++ rewritten i s := by
  have hfirst : (rewritten i s).trimStart = rewritten i s := by
    rcases s with _ | ⟨slot, s⟩
    · rfl
    · have hslot : slot.isRun = false := hs slot rfl
      obtain ⟨hblank, hstart, -⟩ := Slot.trim_source hslot i
      rw [← List.singleton_append, rewritten_append i (.inl (by simpa using hslot)),
        rewritten_singleton hslot, Text.trimStart_append_of_not_isBlank hblank, hstart]
  rw [rewritten_append i (.inr hs), rewritten_map_char i hrun]
  cases hblank : (Filter.ofRun run).isBlank with
  | true =>
    rw [Text.trimStart_append_of_isBlank hblank, hfirst, Text.trimStart_eq_nil_iff.2 hblank,
      List.nil_append]
  | false => rw [Text.trimStart_append_of_not_isBlank hblank]

/-! ## Blank texts -/

/-- A filter is blank only if its condition is. -/
theorem isBlank_rewritten (i : ι) (s : Skeleton ι) :
    (rewritten i s).isBlank = (text i s).isBlank := by
  have htoken (token : Token) : (Filter.ofToken token).isBlank = token.source.isBlank := by
    cases token with
    | run t => exact Filter.isBlank_ofRun t
    | quoted content => rfl
    | comma => rfl
  rw [← sources_tokens, rewritten]
  induction tokens i s with
  | nil => rfl
  | cons token tokens ih =>
    rw [List.flatMap_cons, Token.sources_cons, Text.isBlank_append, Text.isBlank_append, htoken, ih]

end Skeleton

end EntityQuery
