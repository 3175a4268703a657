-- SUMMARY: Skeletons: texts that are the same outside of their literals, their masks, and their tokens.
import EntityQuery.Proofs.Token.Canonical
import Mathlib.Data.List.TakeWhile

/-!
# Skeletons

Texts whose literals are all terminated and that differ only inside of literals
have a skeleton in common: their characters outside of literals, and in the
place of every literal the contents that it has in each of the texts. The texts
are numbered by a type `ι`.

What the library does with such texts is said of the skeleton once, and so of
all the texts at the same time.
-/

namespace EntityQuery

variable {ι : Type}

/-! ## Texts with a skeleton -/

/-- A place in texts that differ only inside of literals. -/
inductive Slot (ι : Type) where
  | char (c : Char)
  | literal (content : ι → Text)

namespace Slot

/-- What a text has at a place. -/
def source (i : ι) : Slot ι → Text
  | char c => [c]
  | literal content => '\'' :: content i ++ ['\'']

/-- What the mask of a text has at a place. -/
def masked (i : ι) : Slot ι → Text
  | char c => [c]
  | literal content => '\'' :: List.replicate (content i).byteSize '_' ++ ['\'']

/-- A quote stands nowhere but around literals. -/
def Proper : Slot ι → Prop
  | char c => c ≠ '\''
  | literal content => ∀ i, '\'' ∉ content i

/-- Whether a place is a blank. A literal is none, whatever it contains. -/
def isBlank : Slot ι → Bool
  | char c => EntityQuery.isBlank c
  | literal _ => false

/-- Whether a place is a comma outside of literals. -/
def isComma : Slot ι → Bool
  | char c => c == ','
  | literal _ => false

theorem byteSize_masked (i : ι) (slot : Slot ι) :
    Text.byteSize (slot.masked i) = Text.byteSize (slot.source i) := by
  cases slot with
  | char c => rfl
  | literal content =>
    simp [masked, source, Text.byteSize_replicate, show '_'.utf8Size = 1 from rfl]

end Slot

/-- What texts that differ only inside of literals have in common. -/
abbrev Skeleton (ι : Type) := List (Slot ι)

namespace Skeleton

/-- One of the texts of a skeleton. -/
def text (i : ι) (s : Skeleton ι) : Text :=
  s.flatMap (Slot.source i)

/-- The mask of one of the texts. -/
def masked (i : ι) (s : Skeleton ι) : Text :=
  s.flatMap (Slot.masked i)

def Proper (s : Skeleton ι) : Prop :=
  ∀ slot ∈ s, slot.Proper

variable (i : ι) (s t : Skeleton ι)

@[simp] theorem text_nil : text i [] = [] := rfl

@[simp] theorem text_cons (slot : Slot ι) : text i (slot :: s) = slot.source i ++ text i s := rfl

@[simp] theorem text_append : text i (s ++ t) = text i s ++ text i t := by
  simp [text]

@[simp] theorem masked_nil : masked i [] = [] := rfl

@[simp] theorem masked_cons (slot : Slot ι) :
    masked i (slot :: s) = slot.masked i ++ masked i s := rfl

@[simp] theorem masked_append : masked i (s ++ t) = masked i s ++ masked i t := by
  simp [masked]

@[simp] theorem byteSize_masked : Text.byteSize (masked i s) = Text.byteSize (text i s) := by
  induction s with
  | nil => rfl
  | cons slot s ih => simp [ih, slot.byteSize_masked i]

theorem text_eq_nil_iff : text i s = [] ↔ s = [] := by
  cases s with
  | nil => simp
  | cons slot s => cases slot <;> simp [Slot.source]

theorem text_eq_singleton_iff {c : Char} (hc : c ≠ '\'') : text i s = [c] ↔ s = [.char c] := by
  cases s with
  | nil => simp
  | cons slot s =>
    cases slot with
    | char d => simp [Slot.source, text_eq_nil_iff]
    | literal content => simp [Slot.source, hc.symm]

theorem masked_eq_nil_iff : masked i s = [] ↔ s = [] := by
  cases s with
  | nil => simp
  | cons slot s => cases slot <;> simp [Slot.masked]

theorem masked_eq_singleton_iff {c : Char} (hc : c ≠ '\'') :
    masked i s = [c] ↔ s = [.char c] := by
  cases s with
  | nil => simp
  | cons slot s =>
    cases slot with
    | char d => simp [Slot.masked, masked_eq_nil_iff]
    | literal content => simp [Slot.masked, hc.symm]

@[simp] theorem text_map_char (name : Text) : text i (name.map Slot.char) = name := by
  induction name with
  | nil => rfl
  | cons c name ih => simp [Slot.source, ih]

@[simp] theorem masked_map_char (name : Text) : masked i (name.map Slot.char) = name := by
  induction name with
  | nil => rfl
  | cons c name ih => simp [Slot.masked, ih]

variable {s t}

theorem Proper.append_iff : Proper (s ++ t) ↔ Proper s ∧ Proper t := by
  simp [Proper, or_imp, forall_and]

theorem Proper.of_suffix (hs : Proper s) (h : t <:+ s) : Proper t :=
  fun slot hslot => hs slot (h.subset hslot)

/-! ## Tokens -/

end Skeleton

/-- A token of texts that differ only inside of literals. -/
inductive Lexeme (ι : Type) where
  | quoted (content : ι → Text)
  | run (text : Text)
  | comma

namespace Lexeme

/-- The token that one of the texts has. -/
def token (i : ι) : Lexeme ι → Token
  | quoted content => .quoted (content i)
  | run text => .run text
  | comma => .comma

/-- Lexemes with a character of a run before them. -/
def consChar (c : Char) : List (Lexeme ι) → List (Lexeme ι)
  | run text :: lexemes => run (c :: text) :: lexemes
  | lexemes => run [c] :: lexemes

end Lexeme

namespace Skeleton

/-- The tokens of the texts of a skeleton. -/
def lexemes : Skeleton ι → List (Lexeme ι)
  | [] => []
  | .literal content :: s => .quoted content :: lexemes s
  | .char c :: s => if c = ',' then .comma :: lexemes s else Lexeme.consChar c (lexemes s)

/-- The tokens of one of the texts. -/
def tokens (i : ι) (s : Skeleton ι) : List Token :=
  s.lexemes.map (Lexeme.token i)

@[simp] theorem tokens_literal (i : ι) (content : ι → Text) (s : Skeleton ι) :
    tokens i (.literal content :: s) = .quoted (content i) :: tokens i s := rfl

@[simp] theorem tokens_comma (i : ι) (s : Skeleton ι) :
    tokens i (.char ',' :: s) = .comma :: tokens i s := rfl

/-- A character of a run starts a run of its own, or it goes to the run that follows. -/
theorem tokens_char (i : ι) {c : Char} (hc : c ≠ ',') (s : Skeleton ι) :
    (∃ text rest, tokens i s = .run text :: rest ∧
      tokens i (.char c :: s) = .run (c :: text) :: rest) ∨
    ((∀ text, (tokens i s).head? ≠ some (.run text)) ∧
      tokens i (.char c :: s) = .run [c] :: tokens i s) := by
  have hl : lexemes (.char c :: s) = Lexeme.consChar c s.lexemes := by simp [lexemes, hc]
  unfold tokens
  rw [hl]
  cases s.lexemes with
  | nil => exact .inr ⟨by simp, rfl⟩
  | cons lexeme rest =>
    cases lexeme with
    | quoted content => exact .inr ⟨by simp [Lexeme.token], rfl⟩
    | run text => exact .inl ⟨text, _, rfl, rfl⟩
    | comma => exact .inr ⟨by simp [Lexeme.token], rfl⟩

/-- The tokens are written as the text. -/
theorem sources_tokens (i : ι) (s : Skeleton ι) : Token.sources (tokens i s) = text i s := by
  induction s with
  | nil => rfl
  | cons slot s ih =>
    cases slot with
    | literal content => simp [ih, Token.source, Slot.source]
    | char c =>
      by_cases hc : c = ','
      · subst hc
        simp [ih, Token.source, Slot.source]
      · obtain ⟨text, rest, hs, hcons⟩ | ⟨-, hcons⟩ := tokens_char i hc s
        · rw [hs] at ih
          simpa [hcons, Token.source, Slot.source] using ih
        · simp [hcons, ih, Token.source, Slot.source]

theorem masked_tokens (i : ι) (s : Skeleton ι) :
    (tokens i s).flatMap Token.masked = masked i s := by
  induction s with
  | nil => rfl
  | cons slot s ih =>
    cases slot with
    | literal content => simp [ih, Token.masked, Slot.masked]
    | char c =>
      by_cases hc : c = ','
      · subst hc
        simp [ih, Token.masked, Token.source, Slot.masked]
      · obtain ⟨text, rest, hs, hcons⟩ | ⟨-, hcons⟩ := tokens_char i hc s
        · rw [hs] at ih
          simpa [hcons, Token.masked, Token.source, Slot.masked] using ih
        · simp [hcons, ih, Token.masked, Token.source, Slot.masked]

theorem canonical_tokens (i : ι) {s : Skeleton ι} (h : s.Proper) :
    Token.Canonical (tokens i s) := by
  induction s with
  | nil => exact .nil
  | cons slot s ih =>
    obtain ⟨hslot, hs⟩ := List.forall_mem_cons.1 h
    cases slot with
    | literal content => exact .quoted (hslot i) (ih hs)
    | char c =>
      by_cases hc : c = ','
      · subst hc
        exact .comma (ih hs)
      · have hrun : isRunChar c = true := by simpa [isRunChar, hc, Slot.Proper] using hslot
        obtain ⟨text, rest, ht, hcons⟩ | ⟨hhead, hcons⟩ := tokens_char i hc s
        · have hcan := ih hs
          rw [ht] at hcan
          rw [hcons]
          cases hcan with
          | run hne hall hnext hrest =>
            exact .run (by simp) (List.forall_mem_cons.2 ⟨hrun, hall⟩) hnext hrest
        · rw [hcons]
          exact .run (by simp) (by simpa using hrun) hhead (ih hs)

variable {s : Skeleton ι}

theorem tokenize_text (h : s.Proper) (i : ι) : tokenize (text i s) = .ok (tokens i s) := by
  rw [← sources_tokens, tokenize_sources (canonical_tokens i h)]

theorem mask_text (h : s.Proper) (i : ι) : mask (text i s) = masked i s := by
  rw [← sources_tokens, mask_sources (canonical_tokens i h), masked_tokens]

end Skeleton

end EntityQuery
