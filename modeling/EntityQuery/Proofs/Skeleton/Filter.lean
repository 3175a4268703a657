-- SUMMARY: Skeletons of filters: the literals of a condition are those of its filter.
import EntityQuery.Filter
import EntityQuery.Proofs.Skeleton.List

/-!
# Filters of conditions with a skeleton

The filters of conditions with a common skeleton have a common skeleton too:
only the text between the literals is rewritten, and it is the same in all of
them. No literal is lost on the way, and none is new.
-/

namespace EntityQuery

variable {ι : Type}

/-! ## Literals -/

/-- The contents of a literal. -/
def Token.content? : Token → Option Text
  | .quoted content => some content
  | _ => none

/-- The contents of the literals of a text, in their order. -/
def Text.literals (t : Text) : List Text :=
  (Lexer.start t).readAll.1.filterMap Token.content?

/-- The contents of a literal in one of the texts. -/
def Slot.content? (i : ι) : Slot ι → Option Text
  | char _ => none
  | literal content => some (content i)

namespace Skeleton

/-- The contents of the literals of one of the texts, in their order. -/
def literals (i : ι) (s : Skeleton ι) : List Text :=
  s.filterMap (Slot.content? i)

@[simp] theorem literals_nil (i : ι) : literals i [] = [] := rfl

@[simp] theorem literals_append (i : ι) (s t : Skeleton ι) :
    literals i (s ++ t) = literals i s ++ literals i t :=
  List.filterMap_append

@[simp] theorem literals_cons_char (i : ι) (c : Char) (s : Skeleton ι) :
    literals i (.char c :: s) = literals i s := rfl

@[simp] theorem literals_cons_literal (i : ι) (content : ι → Text) (s : Skeleton ι) :
    literals i (.literal content :: s) = content i :: literals i s := rfl

@[simp] theorem literals_map_char (i : ι) (t : Text) : literals i (t.map Slot.char) = [] := by
  induction t with
  | nil => rfl
  | cons c t ih => simpa using ih

theorem filterMap_content_tokens (i : ι) (s : Skeleton ι) :
    (tokens i s).filterMap Token.content? = literals i s := by
  induction s with
  | nil => rfl
  | cons slot s ih =>
    cases slot with
    | literal content => simp [Token.content?, ih]
    | char c =>
      by_cases hc : c = ','
      · subst hc
        rw [tokens_comma, List.filterMap_cons_none rfl, ih, literals_cons_char]
      · rw [literals_cons_char, ← ih]
        obtain ⟨t, rest, hs, hcons⟩ | ⟨-, hcons⟩ := tokens_char i hc s
        · rw [hcons, hs, List.filterMap_cons_none rfl, List.filterMap_cons_none rfl]
        · rw [hcons, List.filterMap_cons_none rfl]

theorem literals_text {s : Skeleton ι} (h : s.Proper) (i : ι) :
    Text.literals (text i s) = literals i s := by
  have hread := Lexer.readAll_sources 0 (canonical_tokens i h)
  rw [sources_tokens] at hread
  rw [Text.literals, Lexer.start, hread, filterMap_content_tokens]

theorem literals_of_isBlank {i : ι} {s : Skeleton ι} (h : ∀ slot ∈ s, slot.isBlank = true) :
    literals i s = [] := by
  refine List.filterMap_eq_nil_iff.2 fun slot hslot => ?_
  cases slot with
  | char c => rfl
  | literal content => cases h _ hslot

/-- Trimming takes no literal. -/
theorem literals_trim (i : ι) (s : Skeleton ι) : literals i s.trim = literals i s := by
  obtain ⟨before, after, hbefore, hafter, hs⟩ := exists_trim s
  calc literals i s.trim
      = literals i before ++ literals i s.trim ++ literals i after := by
        rw [literals_of_isBlank hbefore, literals_of_isBlank hafter, List.nil_append,
          List.append_nil]
    _ = literals i (before ++ s.trim ++ after) := by rw [literals_append, literals_append]
    _ = literals i s := by rw [← hs]

end Skeleton

/-! ## Rewriting runs -/

namespace Filter

theorem mem_replaceFrom {c : Char} {inWord : Bool} {skip : Nat} {t : Text}
    (h : c ∈ replaceFrom inWord skip t) : c ∈ t ∨ c = ' ' ∨ ∃ op : Operator, c ∈ op.word := by
  fun_induction replaceFrom inWord skip t with
  | case1 => cases h
  | case2 inWord first t skip ih =>
    obtain h | h := ih h
    · exact .inl (.tail _ h)
    · exact .inr h
  | case3 inWord first t op rest hread ih =>
    simp only [List.cons_append, List.mem_cons, List.mem_append] at h
    obtain h | h | h | h := h
    · exact .inr (.inl h)
    · exact .inr (.inr ⟨op, h⟩)
    · exact .inr (.inl h)
    · obtain h | h := ih h
      · exact .inl (.tail _ h)
      · exact .inr h
  | case4 inWord first t hread ih =>
    obtain h | h := List.mem_cons.1 h
    · exact .inl (h ▸ .head _)
    · obtain h | h := ih h
      · exact .inl (.tail _ h)
      · exact .inr h

theorem mem_collapseFrom {c : Char} {afterBlank : Bool} {t : Text}
    (h : c ∈ t.collapseFrom afterBlank) : c ∈ t ∨ c = ' ' := by
  induction t generalizing afterBlank with
  | nil => exact .inl h
  | cons first t ih =>
    simp only [Text.collapseFrom] at h
    split at h
    · split at h
      · exact (ih h).imp_left (.tail _)
      · obtain h | h := List.mem_cons.1 h
        · exact .inr h
        · exact (ih h).imp_left (.tail _)
    · obtain h | h := List.mem_cons.1 h
      · exact .inl (h ▸ .head _)
      · exact (ih h).imp_left (.tail _)

/-- Rewriting a run brings neither a quote nor a comma into it. -/
theorem notMem_ofRun {x : Char} (hx : isRunChar x = false) {t : Text} (h : x ∉ t) :
    x ∉ ofRun t := by
  intro hmem
  have hspace : x ≠ ' ' := by
    rintro rfl
    cases hx
  have hword : ∀ op : Operator, ∀ c ∈ op.word, isRunChar c = true := by
    intro op
    cases op <;> decide
  obtain hmem | hmem := mem_collapseFrom hmem
  · obtain hmem | hmem | ⟨op, hmem⟩ := mem_replaceFrom hmem
    · exact h hmem
    · exact hspace hmem
    · exact absurd (hx.symm.trans (hword op x hmem)) (by decide)
  · exact hspace hmem

end Filter

/-! ## Filters -/

namespace Lexeme

/-- Lexemes have quotes around literals only. -/
def Proper : Lexeme ι → Prop
  | quoted content => ∀ i, '\'' ∉ content i
  | run text => '\'' ∉ text
  | comma => True

/-- What a token becomes in a filter. -/
def filtered : Lexeme ι → Skeleton ι
  | quoted content => [.literal content]
  | run text => (Filter.ofRun text).map .char
  | comma => [.char ',']

theorem ofToken_token (i : ι) (lexeme : Lexeme ι) :
    Filter.ofToken (lexeme.token i) = Skeleton.text i lexeme.filtered := by
  cases lexeme with
  | quoted content => simp [token, filtered, Filter.ofToken, Token.source, Slot.source]
  | run text => simp [token, filtered, Filter.ofToken]
  | comma => rfl

theorem Proper.filtered {lexeme : Lexeme ι} (h : lexeme.Proper) : lexeme.filtered.Proper := by
  intro slot hslot
  cases lexeme with
  | quoted content =>
    obtain rfl := List.mem_singleton.1 hslot
    exact h
  | run text =>
    obtain ⟨c, hc, rfl⟩ := List.mem_map.1 hslot
    exact ne_of_mem_of_not_mem hc (Filter.notMem_ofRun rfl h)
  | comma =>
    obtain rfl := List.mem_singleton.1 hslot
    exact (by decide : ',' ≠ '\'')

theorem proper_of_mem_consChar {c : Char} (hc : c ≠ '\'') {lexemes : List (Lexeme ι)}
    (h : ∀ lexeme ∈ lexemes, lexeme.Proper) : ∀ lexeme ∈ consChar c lexemes, lexeme.Proper := by
  have hsingle : Proper (run [c] : Lexeme ι) := by simpa [Proper] using hc.symm
  cases lexemes with
  | nil => simpa [consChar] using hsingle
  | cons first rest =>
    obtain ⟨hfirst, hrest⟩ := List.forall_mem_cons.1 h
    cases first with
    | quoted content => exact List.forall_mem_cons.2 ⟨hsingle, h⟩
    | comma => exact List.forall_mem_cons.2 ⟨hsingle, h⟩
    | run text =>
      refine List.forall_mem_cons.2 ⟨?_, hrest⟩
      simpa [Proper] using ⟨hc.symm, hfirst⟩

end Lexeme

namespace Skeleton

/-- The skeleton of the filters of conditions. -/
def filtered (s : Skeleton ι) : Skeleton ι :=
  trim (s.lexemes.flatMap Lexeme.filtered)

variable {s : Skeleton ι}

theorem Proper.lexemes (h : s.Proper) : ∀ lexeme ∈ s.lexemes, lexeme.Proper := by
  induction s with
  | nil => simp [Skeleton.lexemes]
  | cons slot s ih =>
    obtain ⟨hslot, hs⟩ := List.forall_mem_cons.1 h
    cases slot with
    | literal content => exact List.forall_mem_cons.2 ⟨hslot, ih hs⟩
    | char c =>
      by_cases hc : c = ','
      · simpa [Skeleton.lexemes, hc] using ⟨trivial, ih hs⟩
      · simpa [Skeleton.lexemes, hc] using Lexeme.proper_of_mem_consChar hslot (ih hs)

theorem Proper.filtered (h : s.Proper) : s.filtered.Proper := by
  refine Proper.trim fun slot hslot => ?_
  obtain ⟨lexeme, hlexeme, hslot⟩ := List.mem_flatMap.1 hslot
  exact (h.lexemes lexeme hlexeme).filtered slot hslot

/-- Conditions with a skeleton become filters with a skeleton. -/
theorem ofCondition_text (h : s.Proper) (i : ι) :
    Filter.ofCondition (text i s) = text i s.filtered := by
  have hflat : (tokens i s).flatMap Filter.ofToken =
      text i (s.lexemes.flatMap Lexeme.filtered) := by
    rw [tokens, List.flatMap_map, text, List.flatMap_assoc]
    simp only [Lexeme.ofToken_token, text]
  rw [Filter.ofCondition, tokenize_text h, filtered, text_trim]
  exact congrArg Text.trim hflat

theorem literals_flatMap_consChar (i : ι) (c : Char) (lexemes : List (Lexeme ι)) :
    literals i ((Lexeme.consChar c lexemes).flatMap Lexeme.filtered) =
      literals i (lexemes.flatMap Lexeme.filtered) := by
  cases lexemes with
  | nil => simp [Lexeme.consChar, Lexeme.filtered]
  | cons lexeme lexemes => cases lexeme <;> simp [Lexeme.consChar, Lexeme.filtered]

/-- A filter has the literals of its condition. -/
theorem literals_filtered (i : ι) (s : Skeleton ι) : literals i s.filtered = literals i s := by
  rw [filtered, literals_trim]
  induction s with
  | nil => rfl
  | cons slot s ih =>
    cases slot with
    | literal content => simpa [Skeleton.lexemes, Lexeme.filtered] using ih
    | char c =>
      by_cases hc : c = ','
      · simpa [Skeleton.lexemes, hc, Lexeme.filtered] using ih
      · simpa [Skeleton.lexemes, hc, literals_flatMap_consChar] using ih

end Skeleton

end EntityQuery
